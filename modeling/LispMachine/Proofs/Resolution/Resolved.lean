import LispMachine.Resolution
import LispMachine.Proofs.Expression.Nodes

set_option autoImplicit false

namespace LispMachine.Resolution

open Expression

def CalleeAt (r : Resolution) (table : Table) (env : Environment) (name : String) (argc : Nat)
    (p : Position) : Prop :=
  ∃ callee, resolveCallee table env name argc p = .ok callee ∧ r.callees[p.offset]? = some callee

theorem resolveCallee_ok {table : Table} {env : Environment} {name : String} {argc : Nat} {p : Position}
    {callee : Callee} (resolved : resolveCallee table env name argc p = .ok callee) (env' : Environment) :
    resolveCallee table env' name argc p = .ok callee := by
  unfold resolveCallee at resolved ⊢
  split at resolved
  · exact resolved
  · split at resolved
    · exact resolved
    · split at resolved <;> cases resolved

mutual

inductive Resolved (r : Resolution) (table : Table) :
    Expression → Environment → Environment → Prop
  | constant {value p env} : Resolved r table (.constant value p) env env
  | symbol {name p env binding} : resolveName table env name = some binding →
      r.bindings[p.offset]? = some binding → Resolved r table (.symbol name p) env env
  | define {name value p env inner after binding} : Resolved r table value env inner →
      inner.define name = (some binding, after) → r.bindings[p.offset]? = some binding →
      Resolved r table (.define name value p) env after
  | bind {name bound body p env inner inside after index} : Resolved r table bound env inner →
      (inner.push .block).declare name = (some index, inside) →
      r.bindings[p.offset]? = some (.slot index) → Resolved r table body inside after →
      Resolved r table (.bind name bound body p) env after.pop
  | branch {condition yes no p env tested chosen after} : Resolved r table condition env tested →
      Resolved r table yes tested chosen → Resolved r table no chosen after →
      Resolved r table (.branch condition yes no p) env after
  | block {body p env after} : ResolvedAll r table body (env.push .block) after →
      Resolved r table (.block body p) env after.pop
  | cond {clauses p env after} : ResolvedClauses r table clauses env after →
      Resolved r table (.cond clauses p) env after
  | call {name args p env after} : CalleeAt r table env name args.length p →
      ResolvedAll r table args env after → Resolved r table (.call name args p) env after
  | compose {first stages p env after} : Resolved r table first env after →
      (∀ stage ∈ stages, CalleeAt r table after stage.callee 1 stage.position) →
      Resolved r table (.compose first stages p) env after

inductive ResolvedAll (r : Resolution) (table : Table) :
    List Expression → Environment → Environment → Prop
  | nil {env} : ResolvedAll r table [] env env
  | cons {e rest env inner after} : Resolved r table e env inner →
      ResolvedAll r table rest inner after → ResolvedAll r table (e :: rest) env after

inductive ResolvedClauses (r : Resolution) (table : Table) :
    List (Expression × Expression) → Environment → Environment → Prop
  | nil {env} : ResolvedClauses r table [] env env
  | cons {test consequent rest env tested inside after} : Resolved r table test env tested →
      Resolved r table consequent (tested.push .block) inside →
      ResolvedClauses r table rest inside.pop after →
      ResolvedClauses r table ((test, consequent) :: rest) env after

end

inductive Declared : List String → Environment → Environment → Prop
  | nil {env} : Declared [] env env
  | cons {name rest env inner after index} : env.declare name = (some index, inner) →
      Declared rest inner after → Declared (name :: rest) env after

inductive ResolvedForms (r : Resolution) (table : Table) :
    List Expression → Environment → Environment → Prop
  | nil {env} : ResolvedForms r table [] env env
  | function {name params body p rest env inside inner after index} :
      table.nodes[p.offset]? = some index → r.bindings[p.offset]? = some (.function index) →
      Declared params (env.push .function) inside → Resolved r table body inside inner →
      ResolvedForms r table rest inner.pop after →
      ResolvedForms r table (.function name params body p :: rest) env after
  | form {e rest env inner after} : Resolved r table e env inner →
      ResolvedForms r table rest inner after → ResolvedForms r table (e :: rest) env after

namespace State

def Alike (s s' : State) : Prop := s'.bindings = s.bindings ∧ s'.callees = s.callees

theorem declare_ok {s s' : State} {name : String} {p : Position} {index : UInt16}
    (declared : s.declare name p = .ok (index, s')) :
    s.env.declare name = (some index, s'.env) ∧ Alike s s' := by
  obtain ⟨env, bindings, callees⟩ := s
  simp only [declare] at declared
  split at declared <;> cases declared
  exact ⟨by assumption, rfl, rfl⟩

theorem define_ok {s s' : State} {name : String} {p : Position} {binding : Binding}
    (defined : s.define name p = .ok (binding, s')) :
    s.env.define name = (some binding, s'.env) ∧ Alike s s' := by
  obtain ⟨env, bindings, callees⟩ := s
  simp only [define] at defined
  split at defined <;> cases defined
  exact ⟨by assumption, rfl, rfl⟩

theorem declareAll_ok {s s' : State} {names : List String} {p : Position}
    (declared : s.declareAll p names = .ok s') : Declared names s.env s'.env ∧ Alike s s' := by
  induction names generalizing s with
  | nil =>
      cases declared
      exact ⟨.nil, rfl, rfl⟩
  | cons name rest ih =>
      obtain ⟨⟨index, inner⟩, first, declared⟩ := bind_ok.mp declared
      obtain ⟨found, same⟩ := declare_ok first
      obtain ⟨others, alike⟩ := ih declared
      exact ⟨.cons found others, alike.1.trans same.1, alike.2.trans same.2⟩

end State

def Agrees (r : Resolution) (s : State) (ids : List Nat) : Prop :=
  ∀ id ∈ ids, r.bindings[id]? = s.bindings[id]? ∧ r.callees[id]? = s.callees[id]?

structure Settled (ids : List Nat) (s s' : State) (claim : Resolution → Prop) : Prop where
  outside : ∀ id ∉ ids, s'.bindings[id]? = s.bindings[id]? ∧ s'.callees[id]? = s.callees[id]?
  inside : ids.Nodup → ∀ r, Agrees r s' ids → claim r

namespace Settled

variable {ids more : List Nat} {s s₁ s₂ : State} {claim next : Resolution → Prop}

theorem alike (same : s.Alike s₁) (always : ∀ r, claim r) : Settled [] s s₁ claim where
  outside _ _ := by rw [same.1, same.2]; exact ⟨rfl, rfl⟩
  inside _ r _ := always r

theorem trans (first : Settled ids s s₁ claim) (second : Settled more s₁ s₂ next) :
    Settled (ids ++ more) s s₂ (fun r => claim r ∧ next r) where
  outside id fresh := by
    rw [List.mem_append, not_or] at fresh
    rw [(second.outside id fresh.2).1, (second.outside id fresh.2).2]
    exact first.outside id fresh.1
  inside distinct r agrees := by
    obtain ⟨one, two, apart⟩ := List.nodup_append.mp distinct
    constructor
    · apply first.inside one r
      intro id member
      have other : id ∉ more := fun h => apart id member id h rfl
      rw [← (second.outside id other).1, ← (second.outside id other).2]
      exact agrees id (List.mem_append_left _ member)
    · exact second.inside two r fun id member => agrees id (List.mem_append_right _ member)

theorem within {outer outer₁ : State} (settled : Settled ids s s₁ claim) (start : outer.Alike s)
    (stop : s₁.Alike outer₁) : Settled ids outer outer₁ claim where
  outside id fresh := by
    rw [stop.1, stop.2, ← start.1, ← start.2]
    exact settled.outside id fresh
  inside distinct r agrees := by
    apply settled.inside distinct r
    rw [Agrees, ← stop.1, ← stop.2]
    exact agrees

theorem imp (settled : Settled ids s s₁ claim) (weaker : ∀ r, claim r → next r) :
    Settled ids s s₁ next where
  outside := settled.outside
  inside distinct r agrees := weaker r (settled.inside distinct r agrees)

theorem perm (settled : Settled ids s s₁ claim) (same : ids.Perm more) :
    Settled more s s₁ claim where
  outside id fresh := settled.outside id fun h => fresh (same.mem_iff.mp h)
  inside distinct r agrees :=
    settled.inside (same.nodup_iff.mpr distinct) r fun id member => agrees id (same.mem_iff.mp member)

theorem cons (settled : Settled ids s s₁ claim) (id : Nat) : Settled (id :: ids) s s₁ claim where
  outside other fresh := settled.outside other fun h => fresh (List.mem_cons_of_mem _ h)
  inside distinct r agrees :=
    settled.inside distinct.of_cons r fun other member => agrees other (List.mem_cons_of_mem _ member)

theorem bind (s : State) (id : Nat) (binding : Binding) :
    Settled [id] s (s.bind id binding) (fun r => r.bindings[id]? = some binding) where
  outside other fresh := by
    have different : id ≠ other := fun h => fresh (h ▸ List.mem_singleton_self id)
    simp [State.bind, Std.HashMap.getElem?_insert, different]
  inside _ r agrees := by
    rw [(agrees id (List.mem_singleton_self id)).1]
    simp [State.bind]

theorem target (s : State) (id : Nat) (callee : Callee) :
    Settled [id] s (s.target id callee) (fun r => r.callees[id]? = some callee) where
  outside other fresh := by
    have different : id ≠ other := fun h => fresh (h ▸ List.mem_singleton_self id)
    simp [State.target, Std.HashMap.getElem?_insert, different]
  inside _ r agrees := by
    rw [(agrees id (List.mem_singleton_self id)).2]
    simp [State.target]

end Settled

theorem resolveStages_settled (table : Table) {stages : List Stage} {s s' : State}
    (visited : resolveStages table stages s = .ok s') :
    s'.env = s.env ∧ Settled (stages.map Stage.id) s s'
      (fun r => ∀ stage ∈ stages, CalleeAt r table s.env stage.callee 1 stage.position) := by
  induction stages generalizing s with
  | nil =>
      cases visited
      exact ⟨rfl, .alike ⟨rfl, rfl⟩ (by simp)⟩
  | cons stage rest ih =>
      obtain ⟨callee, found, visited⟩ := bind_ok.mp visited
      obtain ⟨same, others⟩ := ih visited
      refine ⟨same, ((Settled.target s stage.id callee).trans others).imp fun r claims => ?_⟩
      rintro other (_ | ⟨_, member⟩)
      · exact ⟨callee, found, claims.1⟩
      · exact claims.2 other member

mutual

-- No node of `e` is a function of the program, as functions stand in the global scope only.
theorem visit_settled (table : Table) (e : Expression) {s s' : State}
    (plain : ∀ id ∈ e.nodes, table.nodes[id]? = none) (visited : visit table e s = .ok s') :
    Settled e.nodes s s' (fun r => Resolved r table e s.env s'.env) := by
  cases e with
  | constant value p =>
      cases visited
      exact (Settled.alike ⟨rfl, rfl⟩ fun _ => .constant).cons _
  | symbol name p =>
      simp only [visit] at visited
      split at visited <;> cases visited
      next binding found => exact (Settled.bind s _ _).imp fun r bound => .symbol found bound
  | define name value p =>
      obtain ⟨s₁, first, visited⟩ := bind_ok.mp visited
      obtain ⟨⟨binding, s₂⟩, defined, visited⟩ := bind_ok.mp visited
      cases visited
      obtain ⟨found, same⟩ := State.define_ok defined
      have inner := visit_settled table value (fun id h => plain id (List.mem_cons_of_mem _ h)) first
      have whole := (inner.within ⟨rfl, rfl⟩ same).trans (.bind s₂ p.offset binding)
      exact (whole.perm (List.perm_append_singleton _ _)).imp fun r claims =>
        .define claims.1 found claims.2
  | function name params body p =>
      simp [visit, plain p.offset (List.mem_cons_self), Diagnostic.syntactic] at visited
  | bind name bound body p =>
      obtain ⟨s₁, first, visited⟩ := bind_ok.mp visited
      obtain ⟨⟨index, s₂⟩, declared, visited⟩ := bind_ok.mp visited
      obtain ⟨s₃, second, visited⟩ := bind_ok.mp visited
      cases visited
      obtain ⟨found, same⟩ := State.declare_ok declared
      have outer := visit_settled table bound (fun id h => plain id (by simp [nodes, h])) first
      have inner := visit_settled table body (fun id h => plain id (by simp [nodes, h])) second
      have head := (outer.within ⟨rfl, rfl⟩ same).trans (.bind s₂ p.offset (.slot index))
      have whole : Settled _ s s₃.pop _ := (head.trans inner).within ⟨rfl, rfl⟩ ⟨rfl, rfl⟩
      have order : (bound.nodes ++ [p.offset] ++ body.nodes).Perm
          (p.offset :: (bound.nodes ++ body.nodes)) := by simp
      exact (whole.perm order).imp fun r claims => .bind claims.1.1 found claims.1.2 claims.2
  | branch condition yes no p =>
      obtain ⟨s₁, first, visited⟩ := bind_ok.mp visited
      obtain ⟨s₂, second, visited⟩ := bind_ok.mp visited
      have tested := visit_settled table condition (fun id h => plain id (by simp [nodes, h])) first
      have chosen := visit_settled table yes (fun id h => plain id (by simp [nodes, h])) second
      have other := visit_settled table no (fun id h => plain id (by simp [nodes, h])) visited
      exact (((tested.trans chosen).trans other).cons p.offset).imp fun r claims =>
        .branch claims.1.1 claims.1.2 claims.2
  | block body p =>
      obtain ⟨s₁, inside, visited⟩ := bind_ok.mp visited
      cases visited
      have inner := visitAll_settled table body (fun id h => plain id (by simp [nodes, h])) inside
      have whole : Settled _ s s₁.pop _ := inner.within ⟨rfl, rfl⟩ ⟨rfl, rfl⟩
      exact (whole.cons p.offset).imp fun r claim => .block claim
  | cond clauses p =>
      have inner := visitClauses_settled table clauses (fun id h => plain id (by simp [nodes, h])) visited
      exact (inner.cons p.offset).imp fun r claim => .cond claim
  | call name args p =>
      obtain ⟨callee, found, visited⟩ := bind_ok.mp visited
      have inner := visitAll_settled table args (fun id h => plain id (by simp [nodes, h])) visited
      exact ((Settled.target s p.offset callee).trans inner).imp fun r claims =>
        .call ⟨callee, found, claims.1⟩ claims.2
  | compose first stages p =>
      obtain ⟨s₁, start, visited⟩ := bind_ok.mp visited
      have inner := visit_settled table first (fun id h => plain id (by simp [nodes, h])) start
      obtain ⟨same, others⟩ := resolveStages_settled table visited
      rw [same]
      exact ((inner.trans others).cons p.offset).imp fun r claims => .compose claims.1 claims.2

theorem visitAll_settled (table : Table) (es : List Expression) {s s' : State}
    (plain : ∀ id ∈ nodesAll es, table.nodes[id]? = none) (visited : visitAll table es s = .ok s') :
    Settled (nodesAll es) s s' (fun r => ResolvedAll r table es s.env s'.env) := by
  cases es with
  | nil =>
      cases visited
      exact .alike ⟨rfl, rfl⟩ fun _ => .nil
  | cons e rest =>
      obtain ⟨s₁, first, visited⟩ := bind_ok.mp visited
      have head := visit_settled table e (fun id h => plain id (by simp [nodesAll, h])) first
      have tail := visitAll_settled table rest (fun id h => plain id (by simp [nodesAll, h])) visited
      exact (head.trans tail).imp fun r claims => .cons claims.1 claims.2

theorem visitClauses_settled (table : Table) (clauses : List (Expression × Expression))
    {s s' : State} (plain : ∀ id ∈ nodesClauses clauses, table.nodes[id]? = none)
    (visited : visitClauses table clauses s = .ok s') :
    Settled (nodesClauses clauses) s s' (fun r => ResolvedClauses r table clauses s.env s'.env) := by
  cases clauses with
  | nil =>
      cases visited
      exact .alike ⟨rfl, rfl⟩ fun _ => .nil
  | cons clause rest =>
      obtain ⟨test, consequent⟩ := clause
      obtain ⟨s₁, first, visited⟩ := bind_ok.mp visited
      obtain ⟨s₂, second, visited⟩ := bind_ok.mp visited
      have tested := visit_settled table test (fun id h => plain id (by simp [nodesClauses, h])) first
      have chosen := visit_settled table consequent
        (fun id h => plain id (by simp [nodesClauses, h])) second
      have others := visitClauses_settled table rest
        (fun id h => plain id (by simp [nodesClauses, h])) visited
      have apart : Settled _ s₁ s₂.pop _ := chosen.within ⟨rfl, rfl⟩ ⟨rfl, rfl⟩
      exact ((tested.trans apart).trans others).imp fun r claims =>
        .cons claims.1.1 claims.1.2 claims.2

end

end LispMachine.Resolution
