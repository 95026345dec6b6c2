import LispMachine.Generator
import LispMachine.Proofs.Renaming.Resolution
import LispMachine.Proofs.Resolution.Covers
import LispMachine.Proofs.Scoping.Bindings

set_option autoImplicit false

namespace LispMachine

open Expression

namespace Generator

open Resolution (Covers CoversProgram)

variable {r : Resolution} {old new : String}

def Nameless (r : Resolution) (old new : String) (e : Expression) : Prop :=
  ∀ s, visit r (e.rename old new) s = visit r e s

theorem arguments_rename {args : List Expression} (each : ∀ e ∈ args, Nameless r old new e) (s : State) :
    arguments r (renameAll old new args) s = arguments r args s := by
  induction args generalizing s with
  | nil => rfl
  | cons e rest ih =>
      obtain ⟨own, others⟩ := List.forall_mem_cons.mp each
      rw [renameAll, arguments, arguments, own]
      exact congrArg _ (funext (ih others))

theorem following_rename {rest : List Expression} (each : ∀ e ∈ rest, Nameless r old new e) (s : State) :
    following r (renameAll old new rest) s = following r rest s := by
  induction rest generalizing s with
  | nil => rfl
  | cons e rest ih =>
      obtain ⟨own, others⟩ := List.forall_mem_cons.mp each
      rw [renameAll, following, following, position_rename]
      simp only [own _, ih others]

theorem sequence_rename {body : List Expression} (each : ∀ e ∈ body, Nameless r old new e) (p : Position)
    (s : State) : sequence r p (renameAll old new body) s = sequence r p body s := by
  cases body with
  | nil => rfl
  | cons e rest =>
      obtain ⟨own, others⟩ := List.forall_mem_cons.mp each
      rw [renameAll, sequence, sequence, own]
      exact congrArg _ (funext (following_rename others))

theorem conditional_rename {clauses : List (Expression × Expression)}
    (tests : ∀ clause ∈ clauses, Nameless r old new clause.1)
    (consequents : ∀ clause ∈ clauses, Nameless r old new clause.2) (p : Position) (base : Nat)
    (ends : List Nat) (s : State) :
    conditional r p base (renameClauses old new clauses) ends s = conditional r p base clauses ends s := by
  induction clauses generalizing ends s with
  | nil => rfl
  | cons clause rest ih =>
      obtain ⟨test, consequent⟩ := clause
      obtain ⟨tested, tests⟩ := List.forall_mem_cons.mp tests
      obtain ⟨chosen, consequents⟩ := List.forall_mem_cons.mp consequents
      rw [renameClauses, conditional, conditional, tested]
      simp only [chosen _, position_rename, ih tests consequents]

-- A name enters code only by what resolution says about its node.
theorem nameless_of_covers {e : Expression} (covered : Covers r e) : Nameless r old new e := by
  induction covered with
  | constant => exact fun s => rfl
  | @symbol name p b entry _ =>
      intro s
      rw [rename, visit, visit, entry]
      cases b <;> rfl
  | @define name value p b _ entry _ ih =>
      intro s
      rw [rename, visit, visit, entry, ih]
      cases b <;> rfl
  | bind _ entry _ _ bound body =>
      intro s
      rw [rename, visit, visit, entry, bound]
      simp only [body _]
  | branch _ _ _ condition yes no =>
      intro s
      rw [rename, visit, visit, condition]
      simp only [yes _, no _]
  | block _ body =>
      intro s
      rw [rename, visit, visit]
      exact sequence_rename body _ s
  | cond _ _ tests consequents =>
      intro s
      rw [rename, visit, visit]
      exact conditional_rename tests consequents _ _ [] s
  | call _ _ args =>
      intro s
      rw [rename, visit, visit, arguments_rename args, length_renameAll]
  | compose _ _ first =>
      intro s
      rw [rename, visit, visit, first]

theorem nameless_function {name : String} {params : List String} {body : Expression} {p : Position}
    {index : UInt16} (entry : r.bindings[p.offset]? = some (.function index))
    (own : Nameless r old new body) : Nameless r old new (.function name params body p) := by
  intro s
  rw [rename, visit, visit, entry, List.length_map, position_rename]
  simp only [own _]

theorem nameless_of_coversProgram {forms : List Expression} (covered : r.CoversProgram forms) :
    ∀ e ∈ forms, Nameless r old new e := by
  intro e listed
  cases defined : e.definition? with
  | none => exact nameless_of_covers (covered.plain e listed defined)
  | some d =>
      have member : d ∈ definitions forms := List.mem_filterMap.mpr ⟨e, listed, defined⟩
      obtain ⟨k, found⟩ := List.getElem?_of_mem member
      rw [definition?_eq_some defined]
      exact nameless_function (covered.numbers k d found) (nameless_of_covers (covered.bodies d member))

end Generator

theorem generate_rename {r : Resolution} {forms : List Expression} (covered : r.CoversProgram forms)
    (old new name : String) (p : Position) :
    generate r name (.block (renameAll old new forms) p) = generate r name (.block forms p) := by
  simp only [generate, Generator.visit, position,
    Generator.sequence_rename (Generator.nameless_of_coversProgram covered)]

/-- Where no symbol and no definition of the name `old` is resolved to a global or to a function, `old` can
be exchanged for any name that occurs nowhere in the program: the resolution is the same, and so is the unit
or the fault that generation ends with. -/
theorem compile_rename {text old new : String} {program : Expression} {r : Resolution}
    (parsed : parse text = .ok program) (resolved : resolve program = .ok r)
    (kept : ∀ id ∈ program.uses old, ∀ b, r.bindings[id]? = some b → ∃ index, b = .slot index)
    (fresh : new ∉ program.names) :
    ∃ r', resolve (program.rename old new) = .ok r' ∧
      ∀ name, generate r' name (program.rename old new) = generate r name program := by
  obtain ⟨forms, p, rfl, distinct⟩ := parse_block parsed
  have covered := Resolution.resolve_covers distinct resolved
  exact ⟨r, Resolution.resolve_rename distinct resolved kept fresh,
    fun name => generate_rename covered old new name p⟩

section Homonyms

def homonyms : Expression :=
  .block
    [.function "x" ["x"]
        (.bind "x" (.call "not" [.symbol "x" ⟨1, 25, 24⟩] ⟨1, 20, 19⟩) (.symbol "x" ⟨1, 28, 27⟩)
          ⟨1, 13, 12⟩) ⟨1, 1, 0⟩,
      .call "x" [.constant (.bool true) ⟨1, 35, 34⟩] ⟨1, 32, 31⟩] ⟨1, 1, 0⟩

theorem parse_homonyms : parse "(defn x [x] (let x (not x) x)) (x true)" = .ok homonyms := by
  with_unfolding_all rfl

theorem resolve_homonyms : ∃ r, resolve homonyms = .ok r ∧
    r.bindings[24]? = some (.slot 0) ∧ r.bindings[27]? = some (.slot 1) := by
  obtain ⟨forms, p, shape, distinct, admitted⟩ := parse_forms parse_homonyms
  cases shape
  obtain ⟨r, resolved⟩ := (Resolution.resolve_decides admitted ⟨1, 1, 0⟩).ok_iff.mpr (by decide)
  have recorded := Resolution.resolve_recorded distinct admitted resolved
  have held {k : Nat} {site : Site} (stands : (sitesAll homonyms.topLevel .top)[k]? = some site)
      {b : Binding} (means : site.binding? (definitions homonyms.topLevel) = some b) :
      r.bindings[site.expression.id]? = some b :=
    recorded site (List.mem_of_getElem? stands) b means
  exact ⟨r, resolved, held (k := 3) rfl rfl, held (k := 4) rfl rfl⟩

theorem homonyms_renamed : homonyms.uses "x" = [24, 27] ∧ "y" ∉ homonyms.names ∧
    ∃ r r', resolve homonyms = .ok r ∧ resolve (homonyms.rename "x" "y") = .ok r' ∧
      ∀ name, generate r' name (homonyms.rename "x" "y") = generate r name homonyms := by
  obtain ⟨r, resolved, first, second⟩ := resolve_homonyms
  have fresh : "y" ∉ homonyms.names := by decide
  have uses : homonyms.uses "x" = [24, 27] := by decide
  have kept : ∀ id ∈ homonyms.uses "x", ∀ b, r.bindings[id]? = some b → ∃ index, b = .slot index := by
    rw [uses]
    simp [first, second]
  obtain ⟨r', resolved', same⟩ := compile_rename parse_homonyms resolved kept fresh
  exact ⟨uses, fresh, r, r', resolved, resolved', same⟩

end Homonyms

end LispMachine
