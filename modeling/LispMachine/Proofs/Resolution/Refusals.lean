import LispMachine.Resolution
import LispMachine.Proofs.Except
import LispMachine.Proofs.Expression.Marks

set_option autoImplicit false

namespace LispMachine

open Expression

def Diagnostic.Marked (ms : List Mark) (d : Diagnostic) : Prop :=
  ∃ m ∈ ms, m.position = d.position ∧
    (d.cause.kind = .unresolved ∨ d.cause.kind = .arity →
      ∃ name, m.name = some name ∧ d.cause.identifier = some name)

abbrev Refusing {α : Type} (ms : List Mark) (x : Except Diagnostic α) : Prop :=
  FailsWith (Diagnostic.Marked ms) x

section Refusing

variable {α : Type} {ms more : List Mark} {x : Except Diagnostic α}

theorem Refusing.mono (refusing : Refusing ms x) (part : ms ⊆ more) : Refusing more x := by
  intro d failed
  obtain ⟨m, member, fits⟩ := refusing d failed
  exact ⟨m, part member, fits⟩

theorem Refusing.unnamed {name : Option String} {p : Position} {cause : Cause} (member : ⟨p, name⟩ ∈ ms)
    (kind : cause.kind ≠ .unresolved ∧ cause.kind ≠ .arity) :
    Refusing ms (.error ⟨cause, p⟩ : Except Diagnostic α) :=
  .error ⟨_, member, rfl, fun named => (named.elim kind.1 kind.2).elim⟩

theorem Refusing.named {name : String} {p : Position} {cause : Cause} (member : ⟨p, some name⟩ ∈ ms)
    (about : cause.identifier = some name) : Refusing ms (.error ⟨cause, p⟩ : Except Diagnostic α) :=
  .error ⟨_, member, rfl, fun _ => ⟨name, rfl, about⟩⟩

end Refusing

namespace Resolution

variable {table : Table} {ms : List Mark}

theorem State.declare_refusing (s : State) (defined : String) {name : Option String} {p : Position}
    (member : ⟨p, name⟩ ∈ ms) : Refusing ms (s.declare defined p) := by
  obtain ⟨env, bindings, callees⟩ := s
  simp only [State.declare]
  split
  · exact .ok _
  · exact .unnamed member (by simp [Cause.kind])

theorem State.define_refusing (s : State) (defined : String) {name : Option String} {p : Position}
    (member : ⟨p, name⟩ ∈ ms) : Refusing ms (s.define defined p) := by
  obtain ⟨env, bindings, callees⟩ := s
  simp only [State.define]
  split
  · exact .ok _
  · exact .unnamed member (by simp [Cause.kind])

theorem State.declareAll_refusing (s : State) (params : List String) {name : Option String} {p : Position}
    (member : ⟨p, name⟩ ∈ ms) : Refusing ms (s.declareAll p params) := by
  induction params generalizing s with
  | nil => exact .ok _
  | cons param rest ih => exact (s.declare_refusing param member).bind fun _ _ => ih _

theorem resolveCallee_refusing (env : Environment) (name : String) (argc : Nat) (p : Position) :
    Refusing [⟨p, some name⟩] (resolveCallee table env name argc p) := by
  have arity (expected : Nat) (callee : Callee) :
      Refusing [⟨p, some name⟩] (expectArity name expected argc p callee) := by
    unfold expectArity
    split
    · exact .ok _
    · exact .named (by simp) rfl
  unfold resolveCallee
  split
  · exact arity _ _
  · split
    · exact arity _ _
    · split <;> exact .named (by simp) rfl

theorem resolveStages_refusing (stages : List Stage) (s : State) :
    Refusing (stages.map Stage.mark) (resolveStages table stages s) := by
  induction stages generalizing s with
  | nil => exact .ok _
  | cons stage rest ih =>
      refine ((resolveCallee_refusing _ _ _ _).mono (by simp [Stage.mark])).bind fun _ _ => ?_
      exact (ih _).mono (by simp)

mutual

theorem visit_refusing (e : Expression) (s : State) : Refusing e.marks (visit table e s) := by
  cases e with
  | constant value p => exact .ok _
  | symbol name p =>
      rw [visit]
      split
      · exact .ok _
      · exact .named (by simp [marks]) rfl
  | define name value p =>
      rw [visit, marks]
      refine ((visit_refusing value s).mono (by simp)).bind fun s₁ _ => ?_
      exact (s₁.define_refusing name (.head _)).bind fun _ _ => .ok _
  | function name params body p =>
      rw [visit, marks]
      split
      · exact .unnamed (.head _) (by simp [Cause.kind])
      · refine (State.declareAll_refusing _ params (.head _)).bind fun s₁ _ => ?_
        exact ((visit_refusing body s₁).mono (by simp)).bind fun _ _ => .ok _
  | bind name bound body p =>
      rw [visit, marks]
      refine ((visit_refusing bound s).mono (by simp)).bind fun s₁ _ => ?_
      refine (State.declare_refusing _ name (.head _)).bind fun _ _ => ?_
      exact ((visit_refusing body _).mono (by simp)).bind fun _ _ => .ok _
  | branch condition yes no p =>
      rw [visit, marks]
      refine ((visit_refusing condition s).mono (by simp)).bind fun s₁ _ => ?_
      refine ((visit_refusing yes s₁).mono fun m member => by simp [member]).bind fun s₂ _ => ?_
      exact (visit_refusing no s₂).mono fun m member => by simp [member]
  | block body p =>
      rw [visit, marks]
      exact ((visitAll_refusing body _).mono (by simp)).bind fun _ _ => .ok _
  | cond clauses p =>
      rw [visit, marks]
      exact (visitClauses_refusing clauses s).mono (by simp)
  | call name args p =>
      rw [visit, marks]
      refine ((resolveCallee_refusing _ _ _ _).mono (by simp)).bind fun _ _ => ?_
      exact (visitAll_refusing args _).mono (by simp)
  | compose first stages p =>
      rw [visit, marks]
      refine ((visit_refusing first s).mono (by simp)).bind fun _ _ => ?_
      exact (resolveStages_refusing stages _).mono (by simp)

theorem visitAll_refusing (es : List Expression) (s : State) :
    Refusing (marksAll es) (visitAll table es s) := by
  cases es with
  | nil => exact .ok _
  | cons e rest =>
      rw [visitAll, marksAll]
      refine ((visit_refusing e s).mono (by simp)).bind fun s₁ _ => ?_
      exact (visitAll_refusing rest s₁).mono (by simp)

theorem visitClauses_refusing (clauses : List (Expression × Expression)) (s : State) :
    Refusing (marksClauses clauses) (visitClauses table clauses s) := by
  cases clauses with
  | nil => exact .ok _
  | cons clause rest =>
      obtain ⟨test, consequent⟩ := clause
      rw [visitClauses, marksClauses]
      refine ((visit_refusing test s).mono (by simp)).bind fun s₁ _ => ?_
      refine ((visit_refusing consequent _).mono (by simp)).bind fun s₂ _ => ?_
      exact (visitClauses_refusing rest _).mono (by simp)

end

theorem Table.add_refusing (table : Table) (e : Expression) : Refusing e.marks (table.add e) := by
  unfold Table.add
  split
  next =>
    unfold Table.addFunction
    split
    repeat' split
    all_goals first | exact .ok _ | exact .unnamed (.head _) (by simp [Cause.kind])
  next => exact .ok _

theorem Table.addAll_refusing (table : Table) (forms : List Expression) :
    Refusing (marksAll forms) (forms.foldlM Table.add table) := by
  induction forms generalizing table with
  | nil => exact .ok _
  | cons e rest ih =>
      rw [List.foldlM_cons, marksAll]
      refine ((table.add_refusing e).mono (by simp)).bind fun table' _ => ?_
      exact (ih table').mono (by simp)

end Resolution

theorem resolve_refusing (forms : List Expression) (p : Position) :
    Refusing (marksAll forms) (resolve (.block forms p)) := by
  refine (Resolution.Table.addAll_refusing _ forms).bind fun table _ => ?_
  exact (Resolution.visitAll_refusing forms _).bind fun _ _ => .ok _

end LispMachine
