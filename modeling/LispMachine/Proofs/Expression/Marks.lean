import LispMachine.Proofs.Grammar

set_option autoImplicit false

namespace LispMachine

structure Mark where
  position : Position
  name : Option String

namespace Stage

def mark (s : Stage) : Mark := ⟨s.position, some s.callee⟩

end Stage

namespace Expression

mutual

def marks : Expression → List Mark
  | .constant _ p => [⟨p, none⟩]
  | .symbol name p => [⟨p, some name⟩]
  | .define _ value p => ⟨p, none⟩ :: value.marks
  | .function _ _ body p => ⟨p, none⟩ :: body.marks
  | .bind _ bound body p => ⟨p, none⟩ :: (bound.marks ++ body.marks)
  | .branch condition yes no p => ⟨p, none⟩ :: (condition.marks ++ yes.marks ++ no.marks)
  | .block body p => ⟨p, none⟩ :: marksAll body
  | .cond clauses p => ⟨p, none⟩ :: marksClauses clauses
  | .call callee args p => ⟨p, some callee⟩ :: marksAll args
  | .compose first stages p => ⟨p, none⟩ :: (first.marks ++ stages.map Stage.mark)

def marksAll : List Expression → List Mark
  | [] => []
  | e :: rest => e.marks ++ marksAll rest

def marksClauses : List (Expression × Expression) → List Mark
  | [] => []
  | (test, consequent) :: rest => test.marks ++ consequent.marks ++ marksClauses rest

end

theorem marksClauses_eq (clauses : List (Expression × Expression)) :
    marksClauses clauses = marksAll (clauses.flatMap fun clause => [clause.1, clause.2]) := by
  induction clauses with
  | nil => rfl
  | cons clause rest ih => simp [marksClauses, marksAll, ih]

theorem exists_mark (e : Expression) : ∃ m ∈ e.marks, m.position = e.position := by
  cases e <;> simp [marks, position]

end Expression

inductive Names (tokens : List Token) (p : Position) (name : String) : Prop
  | name {t} : t ∈ tokens → t.lexeme = .ident → t.text = name → t.position = p → Names tokens p name
  | form {opened t} : [opened, t] <:+: tokens → opened.lexeme = .leftParen → opened.position = p →
      t.lexeme = .ident → t.text = name → Names tokens p name

structure Mark.Grounded (tokens : List Token) (m : Mark) : Prop where
  stands : ∃ t ∈ tokens, t.position = m.position
  names : ∀ name ∈ m.name, Names tokens m.position name

namespace Mark.Grounded

variable {tokens more : List Token}

theorem mono {m : Mark} (grounded : m.Grounded tokens) (part : tokens <:+: more) : m.Grounded more where
  stands := by
    obtain ⟨t, member, same⟩ := grounded.stands
    exact ⟨t, part.subset member, same⟩
  names name used := by
    cases grounded.names name used with
    | name member kind text place => exact .name (part.subset member) kind text place
    | form inside opens place kind text => exact .form (inside.trans part) opens place kind text

theorem all_mono {ms : List Mark} (grounded : ∀ m ∈ ms, m.Grounded tokens) (part : tokens <:+: more) :
    ∀ m ∈ ms, m.Grounded more :=
  fun m member => (grounded m member).mono part

theorem unnamed {t : Token} (member : t ∈ tokens) : Grounded tokens ⟨t.position, none⟩ :=
  ⟨⟨t, member, rfl⟩, by simp⟩

theorem name {t : Token} (member : t ∈ tokens) (kind : t.lexeme = .ident) :
    Grounded tokens ⟨t.position, some t.text⟩ := by
  refine ⟨⟨t, member, rfl⟩, ?_⟩
  rintro _ ⟨⟩
  exact .name member kind rfl rfl

theorem form {opened t : Token} (inside : [opened, t] <:+: tokens) (opens : opened.lexeme = .leftParen)
    (kind : t.lexeme = .ident) : Grounded tokens ⟨opened.position, some t.text⟩ := by
  refine ⟨⟨opened, inside.subset (by simp), rfl⟩, ?_⟩
  rintro _ ⟨⟩
  exact .form inside opens rfl kind rfl

theorem opened {opened : Token} {p : Position} (place : opened.position = p) (heads : List Token)
    {ms : List Mark} (inside : ∀ m ∈ ms, m.Grounded tokens) :
    ∀ m ∈ (⟨p, none⟩ :: ms : List Mark), m.Grounded (opened :: (heads ++ tokens)) := by
  refine List.forall_mem_cons.mpr ⟨place ▸ .unnamed (by simp), ?_⟩
  exact all_mono inside (List.suffix_append (opened :: heads) tokens).isInfix

end Mark.Grounded

open Expression

theorem DerivesStages.grounded {tokens : List Token} {stages : List Stage}
    (derives : DerivesStages tokens stages) : ∀ m ∈ stages.map Stage.mark, m.Grounded tokens := by
  induction derives with
  | nil => simp
  | @name t tokens stages kind _ ih =>
      refine List.forall_mem_cons.mpr ⟨.name (by simp) kind, ?_⟩
      exact Mark.Grounded.all_mono ih (List.suffix_cons t tokens).isInfix
  | @form opened t closed tokens stages _ kind _ _ ih =>
      refine List.forall_mem_cons.mpr ⟨.name (by simp) kind, ?_⟩
      exact Mark.Grounded.all_mono ih (List.suffix_append [opened, t, closed] tokens).isInfix

mutual

theorem Derives.grounded {tokens : List Token} {e : Expression} :
    Derives tokens e → ∀ m ∈ e.marks, m.Grounded tokens
  | .literal _ => by simpa [marks] using Mark.Grounded.unnamed (by simp)
  | .symbol kind => by simpa [marks] using Mark.Grounded.name (by simp) kind
  | .form opens inside _ =>
      Mark.Grounded.all_mono (inside.grounded opens rfl) (List.prefix_append (_ :: _) _).isInfix

theorem DerivesForm.grounded {p : Position} {tokens : List Token} {e : Expression} {opened : Token} :
    DerivesForm p tokens e → opened.lexeme = .leftParen → opened.position = p →
      ∀ m ∈ e.marks, m.Grounded (opened :: tokens)
  | @DerivesForm.define _ head name _ _ _ _ items, _, place => by
      simpa [marks, marksAll] using Mark.Grounded.opened place [head, name] items.grounded
  | @DerivesForm.function _ head name bracket params closed _ _ _ _ _ _ _ items, _, place => by
      simpa [marks, marksAll] using
        Mark.Grounded.opened place (head :: name :: bracket :: (params ++ [closed])) items.grounded
  | @DerivesForm.bind _ head name _ _ _ _ _ items, _, place => by
      simpa [marks, marksAll] using Mark.Grounded.opened place [head, name] items.grounded
  | @DerivesForm.branch _ head _ _ _ _ _ items, _, place => by
      simpa [marks, marksAll] using Mark.Grounded.opened place [head] items.grounded
  | @DerivesForm.block _ head _ _ _ items, _, place => Mark.Grounded.opened place [head] items.grounded
  | @DerivesForm.cond _ head _ clauses _ items, _, place => by
      rw [marks, marksClauses_eq]
      exact Mark.Grounded.opened place [head] items.grounded
  | @DerivesForm.call _ head tokens _ kind items, opens, place => by
      have callee : [opened, head] <:+: opened :: head :: tokens :=
        (List.prefix_append [opened, head] tokens).isInfix
      have inside := Mark.Grounded.all_mono items.grounded (List.suffix_append [opened, head] tokens).isInfix
      exact List.forall_mem_cons.mpr ⟨place ▸ .form callee opens kind, inside⟩
  | @DerivesForm.compose _ head tokens more _ _ _ first stages _, _, place => by
      apply Mark.Grounded.opened place [head]
      exact List.forall_mem_append.mpr
        ⟨Mark.Grounded.all_mono first.grounded (List.prefix_append tokens more).isInfix,
          Mark.Grounded.all_mono stages.grounded (List.suffix_append tokens more).isInfix⟩

theorem DerivesAll.grounded {tokens : List Token} {es : List Expression} :
    DerivesAll tokens es → ∀ m ∈ marksAll es, m.Grounded tokens
  | .nil => by simp [marksAll]
  | .cons first rest => List.forall_mem_append.mpr
      ⟨Mark.Grounded.all_mono first.grounded (List.prefix_append _ _).isInfix,
        Mark.Grounded.all_mono rest.grounded (List.suffix_append _ _).isInfix⟩

end

end LispMachine
