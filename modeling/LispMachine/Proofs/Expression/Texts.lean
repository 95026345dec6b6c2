import LispMachine.Proofs.Grammar

set_option autoImplicit false

namespace LispMachine

def Literal.texts : Literal → List String
  | .datum (.str s) => [s]
  | _ => []

namespace Expression

mutual

def texts : Expression → List String
  | .constant value _ => value.texts
  | .symbol _ _ => []
  | .define name value _ => name :: value.texts
  | .function name _ body _ => name :: body.texts
  | .bind _ bound body _ => bound.texts ++ body.texts
  | .branch condition yes no _ => condition.texts ++ yes.texts ++ no.texts
  | .block body _ => textsAll body
  | .cond clauses _ => textsClauses clauses
  | .call _ args _ => textsAll args
  | .compose first _ _ => first.texts

def textsAll : List Expression → List String
  | [] => []
  | e :: rest => e.texts ++ textsAll rest

def textsClauses : List (Expression × Expression) → List String
  | [] => []
  | (test, consequent) :: rest => test.texts ++ consequent.texts ++ textsClauses rest

end

theorem textsClauses_eq (clauses : List (Expression × Expression)) :
    textsClauses clauses = textsAll (clauses.flatMap fun clause => [clause.1, clause.2]) := by
  induction clauses with
  | nil => rfl
  | cons clause rest ih => simp [textsClauses, textsAll, ih]

end Expression

structure Token.Tells (P : String → Prop) (t : Token) : Prop where
  text : P t.text
  literal : ∀ s, t.literal = some (.str s) → P s

open Expression

variable {P : String → Prop}

theorem Token.Tells.spells {t : Token} {value : Literal} (tells : t.Tells P) (spells : t.Spells value) :
    ∀ s ∈ value.texts, P s := by
  cases spells with
  | str _ found => exact List.forall_mem_singleton.mpr (tells.literal _ found)
  | _ => exact List.forall_mem_nil _

mutual

theorem Derives.texts {tokens : List Token} {e : Expression} :
    Derives tokens e → (∀ t ∈ tokens, t.Tells P) → ∀ s ∈ e.texts, P s
  | .literal spells, tell => (List.forall_mem_singleton.mp tell).spells spells
  | .symbol _, _ => List.forall_mem_nil _
  | .form _ inside _, tell => by
      obtain ⟨_, tell⟩ := List.forall_mem_cons.mp tell
      exact inside.texts (List.forall_mem_append.mp tell).1

theorem DerivesForm.texts {p : Position} {tokens : List Token} {e : Expression} :
    DerivesForm p tokens e → (∀ t ∈ tokens, t.Tells P) → ∀ s ∈ e.texts, P s
  | .define _ _ items, tell => by
      obtain ⟨name, tell⟩ := List.forall_mem_cons.mp (List.forall_mem_cons.mp tell).2
      refine List.forall_mem_cons.mpr ⟨name.text, ?_⟩
      simpa [textsAll] using items.texts tell
  | .function _ _ _ _ _ items, tell => by
      obtain ⟨name, tell⟩ := List.forall_mem_cons.mp (List.forall_mem_cons.mp tell).2
      refine List.forall_mem_cons.mpr ⟨name.text, ?_⟩
      have body := (List.forall_mem_append.mp (List.forall_mem_cons.mp tell).2).2
      simpa [textsAll] using items.texts (List.forall_mem_cons.mp body).2
  | .bind _ _ items, tell => by
      have body := (List.forall_mem_cons.mp (List.forall_mem_cons.mp tell).2).2
      simpa [textsAll, Expression.texts] using items.texts body
  | .branch _ items, tell => by
      simpa [textsAll, Expression.texts, List.append_assoc] using items.texts (List.forall_mem_cons.mp tell).2
  | .block _ items, tell => items.texts (List.forall_mem_cons.mp tell).2
  | .cond _ items, tell => by
      rw [Expression.texts, textsClauses_eq]
      exact items.texts (List.forall_mem_cons.mp tell).2
  | .call _ items, tell => items.texts (List.forall_mem_cons.mp tell).2
  | .compose _ first _ _, tell =>
      first.texts (List.forall_mem_append.mp (List.forall_mem_cons.mp tell).2).1

theorem DerivesAll.texts {tokens : List Token} {es : List Expression} :
    DerivesAll tokens es → (∀ t ∈ tokens, t.Tells P) → ∀ s ∈ textsAll es, P s
  | .nil, _ => List.forall_mem_nil _
  | .cons first rest, tell => by
      obtain ⟨head, tail⟩ := List.forall_mem_append.mp tell
      exact List.forall_mem_append.mpr ⟨first.texts head, rest.texts tail⟩

end

end LispMachine
