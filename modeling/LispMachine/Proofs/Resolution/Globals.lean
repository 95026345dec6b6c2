import LispMachine.Resolution
import LispMachine.Proofs.Environment
import LispMachine.Proofs.Except
import LispMachine.Proofs.Expression.Texts
import LispMachine.Proofs.Resolution.Resolved

set_option autoImplicit false

namespace LispMachine

variable {Q : String → Prop}

def Binding.Named (Q : String → Prop) : Binding → Prop
  | .global g => Q g
  | _ => True

def Scope.Named (Q : String → Prop) (scope : Scope) : Prop :=
  ∀ (name : String) (b : Binding), scope.names[name]? = some b → b.Named Q

theorem Scope.Named.insert {scope : Scope} {b : Binding} (named : scope.Named Q) (name : String)
    (own : b.Named Q) : (scope.insert name b).Named Q := by
  intro other b' found
  rw [names_insert] at found
  split at found
  · cases found
    exact own
  · exact named other b' found

namespace Environment

def Named (Q : String → Prop) (env : Environment) : Prop := ∀ scope ∈ env.scopes, scope.Named Q

variable {env env' : Environment} {name : String} {b : Binding}

theorem named_global : global.Named Q := by
  refine List.forall_mem_singleton.mpr fun name b found => ?_
  simp [global] at found

namespace Named

theorem push (named : env.Named Q) (kind : ScopeKind) : (env.push kind).Named Q :=
  List.forall_mem_cons.mpr ⟨fun name b found => by simp [Environment.push] at found, named⟩

theorem pop (named : env.Named Q) : env.pop.Named Q := by
  obtain ⟨inner, outer, nextSlot⟩ := env
  cases outer with
  | nil => exact named
  | cons scope outer => exact (List.forall_mem_cons.mp named).2

theorem insert (named : env.Named Q) (name : String) (b : Binding) (own : b.Named Q) (nextSlot : Nat) :
    Named Q ⟨env.inner.insert name b, env.outer, nextSlot⟩ := by
  obtain ⟨inner, outer⟩ := List.forall_mem_cons.mp named
  exact List.forall_mem_cons.mpr ⟨inner.insert name own, outer⟩

theorem declare {index : UInt16} (named : env.Named Q) (declared : env.declare name = (some index, env')) :
    env'.Named Q := by
  rcases declare_cases declared with ⟨_, rfl⟩ | ⟨_, _, _, rfl⟩
  · exact named
  · exact named.insert name (.slot index) trivial _

theorem define (named : env.Named Q) (own : Q name) (defined : env.define name = (some b, env')) :
    b.Named Q ∧ env'.Named Q := by
  rcases define_cases defined with ⟨_, rfl, rfl⟩ | ⟨_, index, rfl, declared⟩
  · exact ⟨own, named.insert name (.global name) own _⟩
  · exact ⟨trivial, named.declare declared⟩

theorem lookup (named : env.Named Q) (found : env.lookup name = some b) : b.Named Q := by
  obtain ⟨scope, member, held⟩ := List.exists_of_findSome?_eq_some found
  exact named scope member name b held

end Named

end Environment

namespace Resolution

def Named (Q : String → Prop) (r : Resolution) : Prop :=
  ∀ (id : Nat) (b : Binding), r.bindings[id]? = some b → b.Named Q

structure State.Named (Q : String → Prop) (s : State) : Prop where
  env : s.env.Named Q
  bindings : ∀ (id : Nat) (b : Binding), s.bindings[id]? = some b → b.Named Q

abbrev Naming (Q : String → Prop) (x : Except Diagnostic State) : Prop := Yields (fun _ => True) (State.Named Q) x

namespace State.Named

variable {s : State}

theorem push (named : s.Named Q) (kind : ScopeKind) : (s.push kind).Named Q :=
  ⟨named.env.push kind, named.bindings⟩

theorem pop (named : s.Named Q) : s.pop.Named Q := ⟨named.env.pop, named.bindings⟩

theorem bind (named : s.Named Q) (id : Nat) (b : Binding) (own : b.Named Q) : (s.bind id b).Named Q := by
  refine ⟨named.env, fun other b' found => ?_⟩
  simp only [State.bind, Std.HashMap.getElem?_insert] at found
  split at found
  · cases found
    exact own
  · exact named.bindings other b' found

theorem target (named : s.Named Q) (id : Nat) (callee : Callee) : (s.target id callee).Named Q :=
  ⟨named.env, named.bindings⟩

theorem declare (named : s.Named Q) (name : String) (p : Position) :
    Yields (fun _ => True) (fun found => found.2.Named Q) (s.declare name p) := by
  cases declared : s.declare name p with
  | error d => trivial
  | ok found =>
      obtain ⟨inner, same, _⟩ := State.declare_ok declared
      exact ⟨named.env.declare inner, same ▸ named.bindings⟩

theorem define (named : s.Named Q) {name : String} (own : Q name) (p : Position) :
    Yields (fun _ => True) (fun found => found.1.Named Q ∧ found.2.Named Q) (s.define name p) := by
  cases defined : s.define name p with
  | error d => trivial
  | ok found =>
      obtain ⟨inner, same, _⟩ := State.define_ok defined
      obtain ⟨own, env⟩ := named.env.define own inner
      exact ⟨own, env, same ▸ named.bindings⟩

theorem declareAll (named : s.Named Q) (names : List String) (p : Position) :
    Naming Q (s.declareAll p names) := by
  induction names generalizing s with
  | nil => exact named
  | cons name rest ih => exact (named.declare name p).bind fun _ named => ih named

end State.Named

variable {table : Table} {s : State}

theorem resolveName_named {env : Environment} {name : String} {b : Binding} (named : env.Named Q)
    (resolved : resolveName table env name = some b) : b.Named Q := by
  unfold resolveName at resolved
  split at resolved
  next found =>
    cases resolved
    exact named.lookup found
  next =>
    obtain ⟨index, _, rfl⟩ := Option.map_eq_some_iff.mp resolved
    trivial

-- Callees are no names of variables.
theorem resolveStages_named (stages : List Stage) (named : s.Named Q) :
    Naming Q (resolveStages table stages s) := by
  induction stages generalizing s with
  | nil => exact named
  | cons stage rest ih =>
      rw [resolveStages]
      cases resolveCallee table s.env stage.callee 1 stage.position with
      | error d => trivial
      | ok callee => exact ih (named.target stage.id callee)

open Expression

mutual

theorem visit_named (e : Expression) {s : State} (named : s.Named Q) (texts : ∀ t ∈ e.texts, Q t) :
    Naming Q (visit table e s) := by
  cases e with
  | constant value p => exact named
  | symbol name p =>
      rw [visit]
      split
      next b found => exact named.bind p.offset b (resolveName_named named.env found)
      next => trivial
  | define name value p =>
      obtain ⟨own, texts⟩ := List.forall_mem_cons.mp texts
      rw [visit]
      refine (visit_named value named texts).bind fun s₁ named => ?_
      refine (named.define own p).bind fun ⟨b, s₂⟩ ⟨own, named⟩ => ?_
      exact named.bind p.offset b own
  | function name params body p =>
      rw [visit]
      split
      · trivial
      next index _ =>
        have inside := (named.bind p.offset (.function index) trivial).push .function
        refine (inside.declareAll params p).bind fun s₁ named => ?_
        refine (visit_named body named (List.forall_mem_cons.mp texts).2).bind fun s₂ named => ?_
        exact named.pop
  | bind name bound body p =>
      obtain ⟨first, second⟩ := List.forall_mem_append.mp texts
      rw [visit]
      refine (visit_named bound named first).bind fun s₁ named => ?_
      refine ((named.push .block).declare name p).bind fun ⟨index, s₂⟩ named => ?_
      exact (visit_named body (named.bind p.offset (.slot index) trivial) second).bind fun s₃ named => named.pop
  | branch condition yes no p =>
      obtain ⟨texts, third⟩ := List.forall_mem_append.mp texts
      obtain ⟨first, second⟩ := List.forall_mem_append.mp texts
      rw [visit]
      refine (visit_named condition named first).bind fun s₁ named => ?_
      exact (visit_named yes named second).bind fun s₂ named => visit_named no named third
  | block body p =>
      rw [visit]
      exact (visitAll_named body (named.push .block) texts).bind fun s₁ named => named.pop
  | cond clauses p => exact visitClauses_named clauses named texts
  | call name args p =>
      rw [visit]
      cases resolveCallee table s.env name args.length p with
      | error d => trivial
      | ok callee => exact visitAll_named args (named.target p.offset callee) texts
  | compose first stages p =>
      rw [visit]
      exact (visit_named first named texts).bind fun s₁ named => resolveStages_named stages named

theorem visitAll_named (es : List Expression) {s : State} (named : s.Named Q)
    (texts : ∀ t ∈ textsAll es, Q t) : Naming Q (visitAll table es s) := by
  cases es with
  | nil => exact named
  | cons e rest =>
      obtain ⟨head, tail⟩ := List.forall_mem_append.mp texts
      rw [visitAll]
      exact (visit_named e named head).bind fun s₁ named => visitAll_named rest named tail

theorem visitClauses_named (clauses : List (Expression × Expression)) {s : State} (named : s.Named Q)
    (texts : ∀ t ∈ textsClauses clauses, Q t) : Naming Q (visitClauses table clauses s) := by
  cases clauses with
  | nil => exact named
  | cons clause rest =>
      obtain ⟨test, consequent⟩ := clause
      obtain ⟨texts, others⟩ := List.forall_mem_append.mp texts
      obtain ⟨first, second⟩ := List.forall_mem_append.mp texts
      rw [visitClauses]
      refine (visit_named test named first).bind fun s₁ named => ?_
      refine (visit_named consequent (named.push .block) second).bind fun s₂ named => ?_
      exact visitClauses_named rest named.pop others

end

theorem resolve_named {forms : List Expression} {p : Position} {r : Resolution}
    (texts : ∀ t ∈ textsAll forms, Q t) (resolved : resolve (.block forms p) = .ok r) : r.Named Q := by
  obtain ⟨table, _, resolved⟩ := bind_ok.mp resolved
  obtain ⟨s, visited, done⟩ := bind_ok.mp resolved
  cases done
  have start : State.initial.Named Q := ⟨Environment.named_global, by simp [State.initial]⟩
  exact ((visitAll_named forms start texts).of_ok visited).bindings

end Resolution

end LispMachine
