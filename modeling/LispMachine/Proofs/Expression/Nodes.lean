import LispMachine.Proofs.Grammar.Reading
import LispMachine.Proofs.Token.Offsets

set_option autoImplicit false

namespace LispMachine

namespace Expression

mutual

def nodes : Expression → List Nat
  | .constant _ p | .symbol _ p => [p.offset]
  | .define _ value p => p.offset :: value.nodes
  | .function _ _ body p => p.offset :: body.nodes
  | .bind _ bound body p => p.offset :: (bound.nodes ++ body.nodes)
  | .branch condition yes no p => p.offset :: (condition.nodes ++ yes.nodes ++ no.nodes)
  | .block body p => p.offset :: nodesAll body
  | .cond clauses p => p.offset :: nodesClauses clauses
  | .call _ args p => p.offset :: nodesAll args
  | .compose first stages p => p.offset :: (first.nodes ++ stages.map Stage.id)

def nodesAll : List Expression → List Nat
  | [] => []
  | e :: rest => e.nodes ++ nodesAll rest

def nodesClauses : List (Expression × Expression) → List Nat
  | [] => []
  | (test, consequent) :: rest => test.nodes ++ consequent.nodes ++ nodesClauses rest

end

theorem nodesClauses_eq (clauses : List (Expression × Expression)) :
    nodesClauses clauses = nodesAll (clauses.flatMap fun clause => [clause.1, clause.2]) := by
  induction clauses with
  | nil => rfl
  | cons clause rest ih => simp [nodesClauses, nodesAll, ih]

end Expression

open Expression

def Token.offset (t : Token) : Nat := t.position.offset

theorem DerivesStages.offsets {tokens : List Token} {stages : List Stage}
    (derives : DerivesStages tokens stages) :
    (stages.map Stage.id).Sublist (tokens.map Token.offset) := by
  induction derives with
  | nil => exact .slnil
  | name _ _ ih => exact .cons_cons _ ih
  | form _ _ _ _ ih => exact .cons _ (.cons_cons _ (.cons _ ih))

mutual

theorem Derives.offsets {tokens : List Token} {e : Expression} :
    Derives tokens e → e.nodes.Sublist (tokens.map Token.offset)
  | .literal _ | .symbol _ => .refl _
  | .form _ inside _ => by
      rw [List.map_cons, List.map_append]
      exact inside.offsets.trans (.cons_cons _ (List.sublist_append_left _ _))

theorem DerivesForm.offsets {p : Position} {tokens : List Token} {e : Expression} :
    DerivesForm p tokens e → e.nodes.Sublist (p.offset :: tokens.map Token.offset)
  | .define _ _ items => .cons_cons _ (.cons _ (.cons _ (by simpa [nodesAll] using items.offsets)))
  | @DerivesForm.function _ _ _ _ params _ _ _ _ _ _ _ _ items => by
      have body : _ := items.offsets
      simp only [nodesAll, List.append_nil] at body
      refine .cons_cons _ (.cons _ (.cons _ (.cons _ ?_)))
      rw [List.map_append]
      exact (body.cons _).trans (List.sublist_append_right _ _)
  | .bind _ _ items => .cons_cons _ (.cons _ (.cons _ (by simpa [nodesAll] using items.offsets)))
  | .branch _ items => .cons_cons _ (.cons _ (by simpa [nodesAll] using items.offsets))
  | .block _ items => .cons_cons _ (.cons _ items.offsets)
  | .cond _ items => .cons_cons _ (.cons _ (nodesClauses_eq _ ▸ items.offsets))
  | .call _ items => .cons_cons _ (.cons _ items.offsets)
  | .compose _ first stages _ => by
      rw [List.map_cons, List.map_append]
      exact .cons_cons _ (.cons _ (first.offsets.append stages.offsets))

theorem DerivesAll.offsets {tokens : List Token} {es : List Expression} :
    DerivesAll tokens es → (nodesAll es).Sublist (tokens.map Token.offset)
  | .nil => .slnil
  | .cons first rest => by
      rw [List.map_append]
      exact first.offsets.append rest.offsets

end

theorem tokenize_distinct {text : String} {tokens : List Token} (lexed : tokenize text = .ok tokens) :
    (tokens.map Token.offset).Nodup := by
  rw [List.Nodup, List.pairwise_map]
  exact (tokenize_increasing lexed).imp Nat.ne_of_lt

theorem parseTokens_forms {tokens : List Token} {program : Expression}
    (read : Parser.parseTokens tokens = .ok program) :
    ∃ forms p, program = .block forms p ∧ (nodesAll forms).Sublist (tokens.map Token.offset) ∧
      ∀ e ∈ forms, e.Admitted 0 := by
  cases Parser.parseTokens_derives read with
  | @block forms derives admitted =>
  exact ⟨forms, _, rfl, derives.offsets.trans ((List.takeWhile_sublist _).map _), admitted⟩

theorem parse_forms {text : String} {program : Expression} (read : parse text = .ok program) :
    ∃ forms p, program = .block forms p ∧ (nodesAll forms).Nodup ∧ ∀ e ∈ forms, e.Admitted 0 := by
  obtain ⟨tokens, lexed, read⟩ := bind_ok.mp read
  obtain ⟨forms, p, program, offsets, admitted⟩ := parseTokens_forms read
  exact ⟨forms, p, program, offsets.nodup (tokenize_distinct lexed), admitted⟩

theorem parse_block {text : String} {program : Expression} (read : parse text = .ok program) :
    ∃ forms p, program = .block forms p ∧ (nodesAll forms).Nodup := by
  obtain ⟨forms, p, program, distinct, _⟩ := parse_forms read
  exact ⟨forms, p, program, distinct⟩

def Expression.Distinct : Expression → Prop
  | .function _ params _ _ => params.Nodup
  | _ => True

theorem Expression.Admitted.distinct {e : Expression} {depth : Nat} (admitted : e.Admitted depth) :
    e.Distinct := by
  cases admitted with
  | function distinct => exact distinct
  | _ => trivial

theorem parse_distinct {text : String} {forms : List Expression} {p : Position}
    (read : parse text = .ok (.block forms p)) : ∀ e ∈ forms, e.Distinct := by
  obtain ⟨forms, p, program, _, admitted⟩ := parse_forms read
  cases program
  exact fun e listed => (admitted e listed).distinct

end LispMachine
