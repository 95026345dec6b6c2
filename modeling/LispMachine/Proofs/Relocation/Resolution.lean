import LispMachine.Proofs.Relocation
import LispMachine.Resolution

set_option autoImplicit false

namespace LispMachine

structure Diagnostic.Akin (d d' : Diagnostic) : Prop where
  kind : d.cause.kind = d'.cause.kind
  identifier : d.cause.identifier = d'.cause.identifier

open Diagnostic (Akin)

theorem EndsAlike.fault {α β : Type} {R : α → β → Prop} (cause : Cause) (p q : Position) :
    EndsAlike Akin R (.error ⟨cause, p⟩) (.error ⟨cause, q⟩) :=
  (⟨rfl, rfl⟩ : Akin ⟨cause, p⟩ ⟨cause, q⟩)

namespace Relocation

variable {f : Relocation} {β : Type} {m m' : Std.HashMap Nat β}

def Carries (f : Relocation) (m m' : Std.HashMap Nat β) : Prop := ∀ n, m'[f.number n]? = m[n]?

theorem Carries.empty : f.Carries (∅ : Std.HashMap Nat β) ∅ := fun _ => by simp

theorem Carries.insert (carries : f.Carries m m') (n : Nat) (b : β) :
    f.Carries (m.insert n b) (m'.insert (f.number n) b) := by
  intro k
  have same : (f.number n == f.number k) = (n == k) := by
    rw [Bool.eq_iff_iff, beq_iff_eq, beq_iff_eq]
    exact ⟨f.injective, congrArg f.number⟩
  rw [Std.HashMap.getElem?_insert, Std.HashMap.getElem?_insert, same, carries k]

end Relocation

namespace Resolution

structure State.Relocated (f : Relocation) (s s' : State) : Prop where
  env : s.env = s'.env
  bindings : f.Carries s.bindings s'.bindings
  callees : f.Carries s.callees s'.callees

structure Table.Relocated (f : Relocation) (t t' : Table) : Prop where
  signatures : t.signatures = t'.signatures
  index : t.index = t'.index
  nodes : f.Carries t.nodes t'.nodes

abbrev Relocating (f : Relocation) (x x' : Except Diagnostic State) : Prop :=
  EndsAlike Akin (State.Relocated f) x x'

namespace State.Relocated

variable {f : Relocation} {s s' : State}

theorem initial : State.initial.Relocated f State.initial := ⟨rfl, .empty, .empty⟩

theorem push (moved : s.Relocated f s') (kind : ScopeKind) : (s.push kind).Relocated f (s'.push kind) :=
  ⟨by rw [State.push, State.push, moved.env], moved.bindings, moved.callees⟩

theorem pop (moved : s.Relocated f s') : s.pop.Relocated f s'.pop :=
  ⟨by rw [State.pop, State.pop, moved.env], moved.bindings, moved.callees⟩

theorem bind (moved : s.Relocated f s') (n : Nat) (binding : Binding) :
    (s.bind n binding).Relocated f (s'.bind (f.number n) binding) :=
  ⟨moved.env, moved.bindings.insert n binding, moved.callees⟩

theorem target (moved : s.Relocated f s') (n : Nat) (callee : Callee) :
    (s.target n callee).Relocated f (s'.target (f.number n) callee) :=
  ⟨moved.env, moved.bindings, moved.callees.insert n callee⟩

theorem declare (moved : s.Relocated f s') (name : String) (p q : Position) :
    EndsAlike Akin (fun a b => a.1 = b.1 ∧ a.2.Relocated f b.2) (s.declare name p) (s'.declare name q) := by
  obtain ⟨env, bindings, callees⟩ := s
  obtain ⟨env', bindings', callees'⟩ := s'
  obtain ⟨rfl, bound, called⟩ := moved
  simp only [State.declare]
  split
  · exact ⟨rfl, rfl, bound, called⟩
  · exact .fault _ _ _

theorem define (moved : s.Relocated f s') (name : String) (p q : Position) :
    EndsAlike Akin (fun a b => a.1 = b.1 ∧ a.2.Relocated f b.2) (s.define name p) (s'.define name q) := by
  obtain ⟨env, bindings, callees⟩ := s
  obtain ⟨env', bindings', callees'⟩ := s'
  obtain ⟨rfl, bound, called⟩ := moved
  simp only [State.define]
  split
  · exact ⟨rfl, rfl, bound, called⟩
  · exact .fault _ _ _

theorem declareAll (moved : s.Relocated f s') (p q : Position) (params : List String) :
    Relocating f (s.declareAll p params) (s'.declareAll q params) := by
  induction params generalizing s s' with
  | nil => exact moved
  | cons name rest ih => exact (moved.declare name p q).bind fun _ _ both => ih both.2

end State.Relocated

section Visits

variable {f : Relocation} {table table' : Table} {s s' : State}

theorem expectArity_alike (name : String) (expected got : Nat) (p q : Position) (callee : Callee) :
    EndsAlike Akin Eq (expectArity name expected got p callee) (expectArity name expected got q callee) := by
  unfold expectArity
  split
  · exact rfl
  · exact .fault _ _ _

theorem resolveCallee_alike (same : table.Relocated f table') (env : Environment) (name : String) (argc : Nat)
    (p q : Position) :
    EndsAlike Akin Eq (resolveCallee table env name argc p) (resolveCallee table' env name argc q) := by
  unfold resolveCallee
  rw [same.index, same.signatures]
  split
  · exact expectArity_alike _ _ _ _ _ _
  · split
    · exact expectArity_alike _ _ _ _ _ _
    · split <;> exact .fault _ _ _

theorem resolveStages_relocate (same : table.Relocated f table') (stages : List Stage)
    (moved : s.Relocated f s') :
    Relocating f (resolveStages table stages s)
      (resolveStages table' (stages.map (Stage.relocate f.move)) s') := by
  induction stages generalizing s s' with
  | nil => exact moved
  | cons stage rest ih =>
      rw [List.map_cons, resolveStages, resolveStages, Stage.id, Stage.id, Stage.relocate, f.offset_move,
        moved.env]
      refine (resolveCallee_alike same s'.env stage.callee 1 _ _).bind fun callee callee' found => ?_
      exact found ▸ ih (moved.target _ callee)

open Expression

mutual

theorem visit_relocate (same : table.Relocated f table') (e : Expression) {s s' : State}
    (moved : s.Relocated f s') :
    Relocating f (visit table e s) (visit table' (e.relocate f.move) s') := by
  cases e with
  | constant value p => exact moved
  | symbol name p =>
      rw [relocate, visit, visit, f.offset_move, resolveName, resolveName, moved.env, same.index]
      split
      · exact moved.bind _ _
      · exact .fault _ _ _
  | define name value p =>
      rw [relocate, visit, visit, f.offset_move]
      refine (visit_relocate same value moved).bind fun s₁ s₂ moved => ?_
      refine (moved.define name _ _).bind fun ⟨binding, s₃⟩ ⟨_, s₄⟩ ⟨found, moved⟩ => ?_
      cases found
      exact moved.bind _ binding
  | function name params body p =>
      rw [relocate, visit, visit, f.offset_move, same.nodes]
      split
      · exact .fault _ _ _
      · refine (((moved.bind _ _).push _).declareAll _ _ params).bind fun s₁ s₂ moved => ?_
        exact (visit_relocate same body moved).bind fun s₃ s₄ moved => moved.pop
  | bind name bound body p =>
      rw [relocate, visit, visit, f.offset_move]
      refine (visit_relocate same bound moved).bind fun s₁ s₂ moved => ?_
      refine ((moved.push .block).declare name _ _).bind fun ⟨index, s₃⟩ ⟨_, s₄⟩ ⟨found, moved⟩ => ?_
      cases found
      exact (visit_relocate same body (moved.bind _ _)).bind fun s₅ s₆ moved => moved.pop
  | branch condition yes no p =>
      rw [relocate, visit, visit]
      refine (visit_relocate same condition moved).bind fun s₁ s₂ moved => ?_
      refine (visit_relocate same yes moved).bind fun s₃ s₄ moved => ?_
      exact visit_relocate same no moved
  | block body p =>
      rw [relocate, visit, visit]
      exact (visitAll_relocate same body (moved.push .block)).bind fun s₁ s₂ moved => moved.pop
  | cond clauses p =>
      rw [relocate, visit, visit]
      exact visitClauses_relocate same clauses moved
  | call name args p =>
      rw [relocate, visit, visit, f.offset_move, moved.env, length_relocateAll]
      refine (resolveCallee_alike same s'.env name _ _ _).bind fun callee callee' found => ?_
      exact found ▸ visitAll_relocate same args (moved.target _ callee)
  | compose first stages p =>
      rw [relocate, visit, visit]
      refine (visit_relocate same first moved).bind fun s₁ s₂ moved => ?_
      exact resolveStages_relocate same stages moved

theorem visitAll_relocate (same : table.Relocated f table') (es : List Expression) {s s' : State}
    (moved : s.Relocated f s') :
    Relocating f (visitAll table es s) (visitAll table' (relocateAll f.move es) s') := by
  cases es with
  | nil => exact moved
  | cons e rest =>
      rw [relocateAll, visitAll, visitAll]
      refine (visit_relocate same e moved).bind fun s₁ s₂ moved => ?_
      exact visitAll_relocate same rest moved

theorem visitClauses_relocate (same : table.Relocated f table') (clauses : List (Expression × Expression))
    {s s' : State} (moved : s.Relocated f s') :
    Relocating f (visitClauses table clauses s) (visitClauses table' (relocateClauses f.move clauses) s') := by
  cases clauses with
  | nil => exact moved
  | cons clause rest =>
      obtain ⟨test, consequent⟩ := clause
      rw [relocateClauses, visitClauses, visitClauses]
      refine (visit_relocate same test moved).bind fun s₁ s₂ moved => ?_
      refine (visit_relocate same consequent (moved.push .block)).bind fun s₃ s₄ moved => ?_
      exact visitClauses_relocate same rest moved.pop

end

theorem Table.addFunction_relocate (same : table.Relocated f table') (name : String) (params : List String)
    (p : Position) :
    EndsAlike Akin (Table.Relocated f) (table.addFunction name params p)
      (table'.addFunction name params (f.move p)) := by
  obtain ⟨signatures, index, nodes⟩ := table
  obtain ⟨signatures', index', nodes'⟩ := table'
  obtain ⟨rfl, rfl, carries⟩ := same
  simp only [Table.addFunction, f.offset_move]
  split
  · exact .fault _ _ _
  · split
    · exact .fault _ _ _
    · split
      · exact .fault _ _ _
      · split
        · exact .fault _ _ _
        · exact ⟨rfl, rfl, carries.insert _ _⟩

theorem Table.add_relocate (same : table.Relocated f table') (e : Expression) :
    EndsAlike Akin (Table.Relocated f) (table.add e) (table'.add (e.relocate f.move)) := by
  cases e with
  | function name params body p => exact Table.addFunction_relocate same name params p
  | _ => exact same

theorem Table.addAll_relocate (same : table.Relocated f table') (forms : List Expression) :
    EndsAlike Akin (Table.Relocated f) (forms.foldlM Table.add table)
      ((relocateAll f.move forms).foldlM Table.add table') := by
  induction forms generalizing table table' with
  | nil => exact same
  | cons e rest ih =>
      rw [relocateAll, List.foldlM_cons, List.foldlM_cons]
      exact (Table.add_relocate same e).bind fun _ _ same => ih same

end Visits

structure Relocated (f : Relocation) (r r' : Resolution) : Prop where
  bindings : f.Carries r.bindings r'.bindings
  callees : f.Carries r.callees r'.callees
  functions : r.functions = r'.functions

end Resolution

open Expression Resolution

theorem resolve_relocate (f : Relocation) (forms : List Expression) (p q : Position) :
    EndsAlike Akin (Resolution.Relocated f) (resolve (.block forms p))
      (resolve (.block (relocateAll f.move forms) q)) := by
  have start : Table.empty.Relocated f Table.empty := ⟨rfl, rfl, .empty⟩
  refine (Table.addAll_relocate start forms).bind fun table table' same => ?_
  refine (visitAll_relocate same forms State.Relocated.initial).bind fun s s' moved => ?_
  exact ⟨moved.bindings, moved.callees, same.signatures⟩

end LispMachine
