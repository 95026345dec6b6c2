import Mathlib.Data.Fintype.Card
import LispMachine.Proofs.Compiler
import LispMachine.Proofs.Generator.Limits
import LispMachine.Proofs.Grammar.Parsing

set_option autoImplicit false

namespace LispMachine

open Expression

abbrev Guarded {α : Type} (x : Except Diagnostic α) : Prop :=
  FailsWith (fun d => d.cause.kind = .invariant → d.AtLimit) x

section Guarded

variable {α : Type}

theorem Guarded.of_kind {x : Except Diagnostic α} {kind : ErrorKind}
    (fails : FailsWith (·.cause.kind = kind) x) (other : kind ≠ .invariant) : Guarded x :=
  fun d failed broken => (other ((fails d failed).symm.trans broken)).elim

theorem tokensFrom_lexical (s : Lexer.Source) (before : List Token) :
    FailsWith (·.cause.kind = .lexical) (s.tokensFrom before) := by
  fun_induction Lexer.Source.tokensFrom s before with
  | case1 s before d rest found =>
      refine .error ?_
      unfold Lexer.Source.next at found
      simp only at found
      split at found
      · cases found
      · split at found <;> cases found
        rfl
  | case2 => exact .ok _
  | case3 _ _ _ _ _ _ ih => exact ih

theorem parse_guarded (text : String) : Guarded (parse text) := by
  refine FailsWith.bind ?_ fun tokens _ => ?_
  · exact Guarded.of_kind (tokensFrom_lexical _ _) nofun
  · exact Guarded.of_kind (Parser.parseTokens_syntactic tokens) nofun

end Guarded

namespace Resolution

variable {table : Table}

theorem State.declare_guarded (s : State) (name : String) (p : Position) : Guarded (s.declare name p) := by
  obtain ⟨env, bindings, callees⟩ := s
  simp only [State.declare]
  split
  · exact .ok _
  · exact .error fun _ => ⟨.tooManyLocals, by simp [InvariantFault.limits], rfl⟩

theorem State.define_guarded (s : State) (name : String) (p : Position) : Guarded (s.define name p) := by
  obtain ⟨env, bindings, callees⟩ := s
  simp only [State.define]
  split
  · exact .ok _
  · exact .error fun _ => ⟨.tooManyLocals, by simp [InvariantFault.limits], rfl⟩

theorem State.declareAll_guarded (s : State) (p : Position) (names : List String) :
    Guarded (s.declareAll p names) := by
  induction names generalizing s with
  | nil => exact .ok _
  | cons name rest ih => exact (s.declare_guarded name p).bind fun _ _ => ih _

theorem resolveCallee_guarded (env : Environment) (name : String) (argc : Nat) (p : Position) :
    Guarded (resolveCallee table env name argc p) := by
  have arity (expected : Nat) (callee : Callee) : Guarded (expectArity name expected argc p callee) := by
    unfold expectArity
    split
    · exact .ok _
    · exact .error (by simp [Cause.kind])
  unfold resolveCallee
  split
  · exact arity _ _
  · split
    · exact arity _ _
    · split <;> exact .error (by simp [Cause.kind])

theorem resolveStages_guarded (stages : List Stage) (s : State) : Guarded (resolveStages table stages s) := by
  induction stages generalizing s with
  | nil => exact .ok _
  | cons stage rest ih => exact (resolveCallee_guarded _ _ _ _).bind fun _ _ => ih _

mutual

theorem visit_guarded (e : Expression) (s : State) : Guarded (visit table e s) := by
  cases e with
  | constant value p => exact .ok _
  | symbol name p =>
      rw [visit]
      split
      · exact .ok _
      · exact .error nofun
  | define name value p =>
      rw [visit]
      refine (visit_guarded value s).bind fun s₁ _ => ?_
      exact (s₁.define_guarded name p).bind fun _ _ => .ok _
  | function name params body p =>
      rw [visit]
      split
      · exact .error nofun
      · refine (State.declareAll_guarded _ p params).bind fun s₁ _ => ?_
        exact (visit_guarded body s₁).bind fun _ _ => .ok _
  | bind name bound body p =>
      rw [visit]
      refine (visit_guarded bound s).bind fun s₁ _ => ?_
      refine (State.declare_guarded _ name p).bind fun _ _ => ?_
      exact (visit_guarded body _).bind fun _ _ => .ok _
  | branch condition yes no p =>
      rw [visit]
      refine (visit_guarded condition s).bind fun s₁ _ => ?_
      exact (visit_guarded yes s₁).bind fun s₂ _ => visit_guarded no s₂
  | block body p =>
      rw [visit]
      exact (visitAll_guarded body _).bind fun _ _ => .ok _
  | cond clauses p => exact visitClauses_guarded clauses s
  | call name args p =>
      rw [visit]
      exact (resolveCallee_guarded _ _ _ _).bind fun _ _ => visitAll_guarded args _
  | compose first stages p =>
      rw [visit]
      exact (visit_guarded first s).bind fun _ _ => resolveStages_guarded stages _

theorem visitAll_guarded (es : List Expression) (s : State) : Guarded (visitAll table es s) := by
  cases es with
  | nil => exact .ok _
  | cons e rest =>
      rw [visitAll]
      exact (visit_guarded e s).bind fun s₁ _ => visitAll_guarded rest s₁

theorem visitClauses_guarded (clauses : List (Expression × Expression)) (s : State) :
    Guarded (visitClauses table clauses s) := by
  cases clauses with
  | nil => exact .ok _
  | cons clause rest =>
      obtain ⟨test, consequent⟩ := clause
      rw [visitClauses]
      refine (visit_guarded test s).bind fun s₁ _ => ?_
      exact (visit_guarded consequent _).bind fun s₂ _ => visitClauses_guarded rest _

end

theorem Table.add_guarded (table : Table) (e : Expression) : Guarded (table.add e) := by
  cases e with
  | function name params body p =>
      obtain ⟨signatures, index, nodes⟩ := table
      simp only [add, addFunction]
      repeat' split
      all_goals first | exact .ok _ | exact .error nofun
  | _ => exact .ok _

end Resolution

theorem resolve_guarded (program : Expression) : Guarded (resolve program) := by
  refine (FailsWith.foldlM Resolution.Table.add_guarded).bind fun table _ => ?_
  exact (Resolution.visitAll_guarded _ _).bind fun _ _ => .ok _

theorem compile_guarded (name text : String) : Guarded (compile name text) := by
  refine (parse_guarded text).bind fun program parsed => ?_
  obtain ⟨forms, p, rfl, distinct, admitted⟩ := parse_forms parsed
  refine (resolve_guarded _).bind fun r resolved d failed _ => ?_
  exact generate_bounded (Resolution.resolve_covers distinct resolved) admitted d failed

/-- Whatever the source text, an invariant of the compiler fails only at a limit of the code format. -/
theorem compile_at_limit {name text : String} {d : Diagnostic} (failed : compile name text = .error d)
    (kind : d.cause.kind = .invariant) :
    (∃ fault ∈ [InvariantFault.tooManyLocals, .poolOverflow, .bodyTooLarge], d.cause = .invariant fault) ∧
      d.cause.message ∈
        ["Too many local variables in one method", "Constant pool overflow", "Method body too large"] := by
  obtain ⟨fault, listed, cause⟩ := compile_guarded name text d failed kind
  refine ⟨⟨fault, listed, cause⟩, ?_⟩
  simp only [InvariantFault.limits, List.mem_cons, List.not_mem_nil, or_false] at listed
  rw [cause]
  rcases listed with rfl | rfl | rfl
  · exact .head _
  · exact .tail _ (.head _)
  · exact .tail _ (.tail _ (.head _))

section Overflow

def letters (k : Nat) : List Char := List.replicate k 'a'

def quotedLetters (k : Nat) : List Char := '"' :: (letters k ++ ['"'])

def manyStrings : String := String.ofList ((List.range (ConstantPool.limit + 1)).flatMap quotedLetters)

structure Strings (ks : List Nat) (forms : List Expression) : Prop where
  constants : ∀ e ∈ forms, ∃ value p, e = .constant value p
  present : ∀ k ∈ ks, ∃ p, Expression.constant (.datum (.str (String.ofList (letters k)))) p ∈ forms

theorem scanString_letters (k : Nat) (raw value rest : List Char) :
    Lexer.scanString raw value (letters k ++ '"' :: rest) =
      ⟨raw.reverse ++ letters k ++ ['"'],
        .ok (.str, some (.str (String.ofList (value.reverse ++ letters k)))), rest⟩ := by
  induction k generalizing raw value with
  | zero =>
      rw [Lexer.scanString.eq_def]
      simp [letters]
  | succ k ih =>
      rw [show letters (k + 1) = 'a' :: letters k from rfl, List.cons_append, Lexer.scanString.eq_def]
      simp [ih ('a' :: raw) ('a' :: value)]

theorem next_letters (k : Nat) (rest : List Char) (p : Position) :
    ∃ t behind, Lexer.Source.next ⟨quotedLetters k ++ rest, p⟩ = (.ok t, ⟨rest, behind⟩) ∧
      t.lexeme = .str ∧ t.literal = some (.str (String.ofList (letters k))) := by
  have solid : Text.isBlank '"' = false := by decide
  have stays : Lexer.Source.skipGap ⟨quotedLetters k ++ rest, p⟩ = ⟨'"' :: (letters k ++ '"' :: rest), p⟩ := by
    simp [Lexer.Source.skipGap, Lexer.Source.skipGapFrom, quotedLetters, solid]
  have scanned : Lexer.scan '"' (letters k ++ '"' :: rest) = _ := scanString_letters k ['"'] [] rest
  simp only [Lexer.Source.next, stays, scanned]
  exact ⟨_, _, rfl, rfl, rfl⟩

theorem tokensFrom_letters (ks : List Nat) (p : Position) (before : List Token) :
    ∃ tokens p' forms,
      Lexer.Source.tokensFrom ⟨ks.flatMap quotedLetters, p⟩ before =
        .ok (before.reverse ++ (tokens ++ [.eof p'])) ∧
      (∀ t ∈ tokens, t.lexeme = .str) ∧ DerivesAll tokens forms ∧ Strings ks forms := by
  induction ks generalizing p before with
  | nil =>
      refine ⟨[], p, [], ?_, nofun, .nil, nofun, nofun⟩
      have ended : Lexer.Source.next ⟨[], p⟩ = (.ok (.eof p), ⟨[], p⟩) := rfl
      rw [Lexer.Source.tokensFrom]
      split
      next failed =>
        cases ended.symm.trans failed
      next found =>
        cases ended.symm.trans found
        simp [Token.eof, Token.plain]
  | cons k ks ih =>
      obtain ⟨t, behind, read, lexeme, literal⟩ := next_letters k (ks.flatMap quotedLetters) p
      obtain ⟨tokens, p', forms, tokenized, plain, derives, strings⟩ := ih behind (t :: before)
      refine ⟨t :: tokens, p', _ :: forms, ?_, List.forall_mem_cons.mpr ⟨lexeme, plain⟩,
        .cons (.literal (.str lexeme literal)) derives, ?_, ?_⟩
      · rw [Lexer.Source.tokensFrom]
        split
        next failed => cases read.symm.trans failed
        next found =>
          cases read.symm.trans found
          simp [lexeme, tokenized]
      · exact List.forall_mem_cons.mpr ⟨⟨_, _, rfl⟩, strings.constants⟩
      · refine List.forall_mem_cons.mpr ⟨⟨_, List.mem_cons_self⟩, fun j listed => ?_⟩
        obtain ⟨p, member⟩ := strings.present j listed
        exact ⟨p, List.mem_cons_of_mem _ member⟩

theorem parse_manyStrings : ∃ forms p, parse manyStrings = .ok (.block forms p) ∧
    Strings (List.range (ConstantPool.limit + 1)) forms := by
  obtain ⟨tokens, p', forms, tokenized, plain, derives, strings⟩ :=
    tokensFrom_letters (List.range (ConstantPool.limit + 1)) .start []
  have read : Parser.body (tokens ++ [.eof p']) = tokens := by
    rw [Parser.body, List.takeWhile_append_of_pos (by simpa using fun t member => by simp [plain t member])]
    simp [Token.eof, Token.plain]
  refine ⟨forms, _, bind_ok.mpr ⟨tokens ++ [.eof p'], ?_, Parser.parseTokens_of_derives (.block ?_ ?_)⟩, strings⟩
  · simpa [tokenize, Lexer.Source.ofText, manyStrings] using tokenized
  · exact read.symm ▸ derives
  · intro e member
    obtain ⟨value, p, rfl⟩ := strings.constants e member
    exact .constant

theorem resolve_constants {forms : List Expression} (p : Position)
    (constants : ∀ e ∈ forms, ∃ value p, e = .constant value p) :
    resolve (.block forms p) = .ok .empty := by
  have listed : forms.foldlM Resolution.Table.add .empty = .ok .empty := by
    induction forms with
    | nil => rfl
    | cons e rest ih =>
        obtain ⟨⟨value, p, rfl⟩, others⟩ := List.forall_mem_cons.mp constants
        exact ih others
  have visited (s : Resolution.State) : Resolution.visitAll .empty forms s = .ok s := by
    induction forms with
    | nil => rfl
    | cons e rest ih =>
        obtain ⟨⟨value, p, rfl⟩, others⟩ := List.forall_mem_cons.mp constants
        rw [List.foldlM_cons] at listed
        exact ih others listed
  refine bind_ok.mpr ⟨.empty, listed, bind_ok.mpr ⟨.initial, visited _, rfl⟩⟩

-- A string that a unit pushes has an index, and an index has one string.
theorem not_implements_manyStrings {unit : CompiledUnit} {forms : List Expression} {r : Resolution}
    {p : Position} (strings : Strings (List.range (ConstantPool.limit + 1)) forms) :
    ¬ unit.Implements r forms p := by
  intro implements
  obtain ⟨stop, _, laid, _⟩ := implements.entry
  have pooled (k : Fin (ConstantPool.limit + 1)) :
      ∃ index, unit.constants.get? index = some (.str (String.ofList (letters k))) := by
    obtain ⟨p, member⟩ := strings.present k (List.mem_range.mpr k.isLt)
    cases laid with
    | block laid =>
    obtain ⟨i, j, laid⟩ := laid.part member
    cases laid with
    | constant pushes _ =>
    cases pushes with
    | pooled found => exact ⟨_, found⟩
  choose index found using pooled
  have injective : Function.Injective fun k => (index k).toFin := by
    intro a b same
    have same : index a = index b := UInt16.toFin_inj.mp same
    have texts := (found a).symm.trans (same ▸ found b)
    simp only [Option.some.injEq, Datum.str.injEq, String.ofList_inj] at texts
    exact Fin.ext (by simpa [letters] using congrArg List.length texts)
  have count := Fintype.card_le_of_injective _ injective
  rw [Fintype.card_fin, Fintype.card_fin] at count
  exact Nat.not_succ_le_self _ count

theorem manyStrings_at_limit : ∃ d, compile "strings" manyStrings = .error d ∧
    d.cause.kind = .invariant ∧
    d.cause.message ∈
      ["Too many local variables in one method", "Constant pool overflow", "Method body too large"] := by
  obtain ⟨forms, p, parsed, strings⟩ := parse_manyStrings
  have resolved := resolve_constants p strings.constants
  cases compiled : compile "strings" manyStrings with
  | ok unit =>
      obtain ⟨forms', p', r, parsed', _, _, implements⟩ := compile_implements compiled
      cases parsed.symm.trans parsed'
      exact (not_implements_manyStrings strings implements).elim
  | error d =>
      have generated : generate .empty "strings" (.block forms p) = .error d := by
        rw [← compiled, compile, parsed]
        simp only [compileProgram, Bind.bind, Except.bind, resolved]
      obtain ⟨_, _, same, distinct, admitted⟩ := parse_forms parsed
      cases same
      obtain ⟨fault, _, cause⟩ :=
        generate_bounded (Resolution.resolve_covers distinct resolved) admitted d generated
      have kind : d.cause.kind = .invariant := by rw [cause]; rfl
      exact ⟨d, rfl, kind, (compile_at_limit compiled kind).2⟩

end Overflow

end LispMachine
