import LispMachine.Proofs.Resolution.Functions

set_option autoImplicit false

namespace LispMachine

namespace Expression

def calls (e : Expression) (stages : List Stage) : Expression :=
  stages.foldl (fun inner stage => .call stage.callee [inner] stage.position) e

mutual

def unthread (chosen : Nat → Bool) : Expression → Expression
  | .constant value p => .constant value p
  | .symbol name p => .symbol name p
  | .define name value p => .define name (value.unthread chosen) p
  | .function name params body p => .function name params (body.unthread chosen) p
  | .bind name bound body p => .bind name (bound.unthread chosen) (body.unthread chosen) p
  | .branch condition yes no p =>
      .branch (condition.unthread chosen) (yes.unthread chosen) (no.unthread chosen) p
  | .block body p => .block (unthreadAll chosen body) p
  | .cond clauses p => .cond (unthreadClauses chosen clauses) p
  | .call callee args p => .call callee (unthreadAll chosen args) p
  | .compose first stages p =>
      if chosen p.offset then (first.unthread chosen).calls stages
      else .compose (first.unthread chosen) stages p

def unthreadAll (chosen : Nat → Bool) : List Expression → List Expression
  | [] => []
  | e :: rest => e.unthread chosen :: unthreadAll chosen rest

def unthreadClauses (chosen : Nat → Bool) : List (Expression × Expression) → List (Expression × Expression)
  | [] => []
  | (test, consequent) :: rest =>
      (test.unthread chosen, consequent.unthread chosen) :: unthreadClauses chosen rest

end

variable (chosen : Nat → Bool)

@[simp] theorem length_unthreadAll (es : List Expression) : (unthreadAll chosen es).length = es.length := by
  induction es with
  | nil => rfl
  | cons e rest ih => simp [unthreadAll, ih]

section Nothing

mutual

theorem unthread_none (e : Expression) : e.unthread (fun _ => false) = e := by
  cases e with
  | constant | symbol => rfl
  | define name value p => rw [unthread, unthread_none value]
  | function name params body p => rw [unthread, unthread_none body]
  | bind name bound body p => rw [unthread, unthread_none bound, unthread_none body]
  | branch condition yes no p =>
      rw [unthread, unthread_none condition, unthread_none yes, unthread_none no]
  | block body p => rw [unthread, unthreadAll_none body]
  | cond clauses p => rw [unthread, unthreadClauses_none clauses]
  | call callee args p => rw [unthread, unthreadAll_none args]
  | compose first stages p => rw [unthread, if_neg nofun, unthread_none first]

theorem unthreadAll_none (es : List Expression) : unthreadAll (fun _ => false) es = es := by
  cases es with
  | nil => rfl
  | cons e rest => rw [unthreadAll, unthread_none e, unthreadAll_none rest]

theorem unthreadClauses_none (clauses : List (Expression × Expression)) :
    unthreadClauses (fun _ => false) clauses = clauses := by
  cases clauses with
  | nil => rfl
  | cons clause rest =>
      rw [unthreadClauses, unthread_none clause.1, unthread_none clause.2, unthreadClauses_none rest]

end

end Nothing

section Nodes

theorem count_calls (a : Nat) (e : Expression) (stages : List Stage) :
    (e.calls stages).nodes.count a = e.nodes.count a + (stages.map Stage.id).count a := by
  induction stages generalizing e with
  | nil => rfl
  | cons stage rest ih =>
      rw [calls, List.foldl_cons, ← calls, ih]
      simp only [nodes, nodesAll, List.append_nil, List.map_cons, List.count_cons, Stage.id]
      omega

-- No node is added, only those of the compositions go.
mutual

theorem count_unthread (a : Nat) (e : Expression) : (e.unthread chosen).nodes.count a ≤ e.nodes.count a := by
  cases e with
  | constant | symbol => exact Nat.le_refl _
  | define name value p =>
      have inside := count_unthread a value
      simp only [unthread, nodes, List.count_cons]
      omega
  | function name params body p =>
      have inside := count_unthread a body
      simp only [unthread, nodes, List.count_cons]
      omega
  | bind name bound body p =>
      have first := count_unthread a bound
      have second := count_unthread a body
      simp only [unthread, nodes, List.count_cons, List.count_append]
      omega
  | branch condition yes no p =>
      have first := count_unthread a condition
      have second := count_unthread a yes
      have third := count_unthread a no
      simp only [unthread, nodes, List.count_cons, List.count_append]
      omega
  | block body p =>
      have inside := count_unthreadAll a body
      simp only [unthread, nodes, List.count_cons]
      omega
  | cond clauses p =>
      have inside := count_unthreadClauses a clauses
      simp only [unthread, nodes, List.count_cons]
      omega
  | call callee args p =>
      have inside := count_unthreadAll a args
      simp only [unthread, nodes, List.count_cons]
      omega
  | compose first stages p =>
      have inside := count_unthread a first
      rw [unthread]
      split
      · simp only [count_calls, nodes, List.count_cons, List.count_append]
        omega
      · simp only [nodes, List.count_cons, List.count_append]
        omega

theorem count_unthreadAll (a : Nat) (es : List Expression) :
    (nodesAll (unthreadAll chosen es)).count a ≤ (nodesAll es).count a := by
  cases es with
  | nil => exact Nat.le_refl _
  | cons e rest =>
      have own := count_unthread a e
      have others := count_unthreadAll a rest
      simp only [unthreadAll, nodesAll, List.count_append]
      omega

theorem count_unthreadClauses (a : Nat) (clauses : List (Expression × Expression)) :
    (nodesClauses (unthreadClauses chosen clauses)).count a ≤ (nodesClauses clauses).count a := by
  cases clauses with
  | nil => exact Nat.le_refl _
  | cons clause rest =>
      obtain ⟨test, consequent⟩ := clause
      have tested := count_unthread a test
      have own := count_unthread a consequent
      have others := count_unthreadClauses a rest
      simp only [unthreadClauses, nodesClauses, List.count_append]
      omega

end

theorem nodup_unthreadAll {es : List Expression} (distinct : (nodesAll es).Nodup) :
    (nodesAll (unthreadAll chosen es)).Nodup := by
  rw [List.nodup_iff_count] at distinct ⊢
  exact fun a => Nat.le_trans (count_unthreadAll chosen a es) (distinct a)

end Nodes

section Definitions

theorem definition?_calls {e : Expression} (plain : e.definition? = none) (stages : List Stage) :
    (e.calls stages).definition? = none := by
  induction stages generalizing e with
  | nil => exact plain
  | cons stage rest ih => exact ih rfl

theorem definition?_unthread_inside {e : Expression} {depth : Nat} (admitted : e.Admitted (depth + 1)) :
    (e.unthread chosen).definition? = none := by
  cases admitted with
  | @compose first stages p _ _ admitted =>
      have inside := definition?_unthread_inside admitted
      rw [unthread]
      split
      · exact definition?_calls inside stages
      · rfl
  | _ => rfl

theorem definition?_unthread {e : Expression} (admitted : e.Admitted 0) :
    (e.unthread chosen).definition? = e.definition?.map fun d => { d with body := d.body.unthread chosen } := by
  cases admitted with
  | @compose first stages p _ _ admitted =>
      have inside := definition?_unthread_inside chosen admitted
      rw [unthread]
      split
      · exact definition?_calls inside stages
      · rfl
  | _ => rfl

end Definitions

end Expression

namespace Resolution

open Expression

variable (table : Table) (chosen : Nat → Bool)

theorem Table.add_unthread {e : Expression} (admitted : e.Admitted 0) :
    table.add (e.unthread chosen) = table.add e := by
  have same := definition?_unthread chosen admitted
  cases defined : e.definition? with
  | none =>
      rw [defined] at same
      rw [Table.Lists.add_of_none same, Table.Lists.add_of_none defined]
  | some d =>
      rw [definition?_eq_some defined]
      rfl

theorem Table.addAll_unthread {forms : List Expression} (admitted : ∀ e ∈ forms, e.Admitted 0) :
    (unthreadAll chosen forms).foldlM Table.add table = forms.foldlM Table.add table := by
  induction forms generalizing table with
  | nil => rfl
  | cons e rest ih =>
      obtain ⟨own, others⟩ := List.forall_mem_cons.mp admitted
      rw [unthreadAll, List.foldlM_cons, List.foldlM_cons, Table.add_unthread table chosen own]
      exact congrArg _ (funext fun table => ih table others)

abbrev ScopedAlike (x x' : Except Diagnostic State) : Prop :=
  EndsAlike (fun _ _ => True) (fun s s' => s.env = s'.env) x x'

section Steps

variable {s s' : State}

theorem declare_scoped (same : s.env = s'.env) (name : String) (p : Position) :
    EndsAlike (fun _ _ => True) (fun a b => a.1 = b.1 ∧ a.2.env = b.2.env) (s.declare name p)
      (s'.declare name p) := by
  simp only [State.declare, ← same]
  split
  · exact ⟨rfl, rfl⟩
  · trivial

theorem define_scoped (same : s.env = s'.env) (name : String) (p : Position) :
    EndsAlike (fun _ _ => True) (fun a b => a.1 = b.1 ∧ a.2.env = b.2.env) (s.define name p)
      (s'.define name p) := by
  simp only [State.define, ← same]
  split
  · exact ⟨rfl, rfl⟩
  · trivial

theorem declareAll_scoped (same : s.env = s'.env) (names : List String) (p : Position) :
    ScopedAlike (s.declareAll p names) (s'.declareAll p names) := by
  induction names generalizing s s' with
  | nil => exact same
  | cons name rest ih => exact (declare_scoped same name p).bind fun _ _ found => ih found.2

theorem resolveStages_scoped (same : s.env = s'.env) (stages : List Stage) :
    ScopedAlike (resolveStages table stages s) (resolveStages table stages s') := by
  induction stages generalizing s s' with
  | nil => exact same
  | cons stage rest ih =>
      rw [resolveStages, resolveStages, same]
      cases resolveCallee table s'.env stage.callee 1 stage.position with
      | error d => trivial
      | ok callee => exact ih same

end Steps

theorem resolveStages_cons (stage : Stage) (rest : List Stage) (s : State) :
    resolveStages table (stage :: rest) s = resolveStages table [stage] s >>= resolveStages table rest := by
  rw [resolveStages, resolveStages]
  cases resolveCallee table s.env stage.callee 1 stage.position <;> rfl

-- A call is resolved before what it is applied to, a stage behind it.
theorem call_scoped (stage : Stage) {first : State → Except Diagnostic State} {e : Expression}
    (alike : ∀ s s', s.env = s'.env → ScopedAlike (first s) (visit table e s')) (s s' : State)
    (same : s.env = s'.env) :
    ScopedAlike (first s >>= resolveStages table [stage])
      (visit table (.call stage.callee [e] stage.position) s') := by
  rw [visit]
  rw [List.length_singleton]
  cases accepted : resolveCallee table s'.env stage.callee 1 stage.position with
  | ok callee =>
      refine (alike s (s'.target stage.id callee) same).bind fun t t' same => ?_
      rw [resolveStages, resolveCallee_ok accepted]
      exact same
  | error d =>
      cases first s with
      | error d' => trivial
      | ok t =>
          show ScopedAlike (resolveStages table [stage] t) (.error d)
          rw [resolveStages]
          cases again : resolveCallee table t.env stage.callee 1 stage.position with
          | error d' => trivial
          | ok callee => cases accepted.symm.trans (resolveCallee_ok again s'.env)

theorem calls_scoped (stages : List Stage) {first : State → Except Diagnostic State} {e : Expression}
    (alike : ∀ s s', s.env = s'.env → ScopedAlike (first s) (visit table e s')) (s s' : State)
    (same : s.env = s'.env) :
    ScopedAlike (first s >>= resolveStages table stages) (visit table (e.calls stages) s') := by
  induction stages generalizing first e with
  | nil =>
      have ended : (first s >>= resolveStages table []) = first s := by
        cases first s <;> rfl
      rw [ended]
      exact alike s s' same
  | cons stage rest ih =>
      have later := ih (call_scoped table stage alike)
      simp only [bind_assoc, ← resolveStages_cons] at later
      exact later

mutual

theorem visit_unthread (e : Expression) (s s' : State) (same : s.env = s'.env) :
    ScopedAlike (visit table e s) (visit table (e.unthread chosen) s') := by
  cases e with
  | constant value p => exact same
  | symbol name p =>
      rw [unthread, visit, visit, same]
      split
      · exact same
      · trivial
  | define name value p =>
      rw [unthread, visit, visit]
      refine (visit_unthread value s s' same).bind fun s s' same => ?_
      exact (define_scoped same name p).bind fun _ _ found => found.2
  | function name params body p =>
      rw [unthread, visit, visit]
      split
      · trivial
      · refine (declareAll_scoped (congrArg (·.push .function) same) params p).bind fun s s' same => ?_
        refine (visit_unthread body s s' same).bind fun s s' same => ?_
        exact congrArg Environment.pop same
  | bind name bound body p =>
      rw [unthread, visit, visit]
      refine (visit_unthread bound s s' same).bind fun s s' same => ?_
      refine (declare_scoped (congrArg (·.push .block) same) name p).bind ?_
      rintro ⟨index, s⟩ ⟨_, s'⟩ ⟨rfl, same⟩
      refine (visit_unthread body (s.bind p.offset (.slot index)) (s'.bind p.offset (.slot index)) same).bind ?_
      intro s s' same
      exact congrArg Environment.pop same
  | branch condition yes no p =>
      rw [unthread, visit, visit]
      refine (visit_unthread condition s s' same).bind fun s s' same => ?_
      refine (visit_unthread yes s s' same).bind fun s s' same => ?_
      exact visit_unthread no s s' same
  | block body p =>
      rw [unthread, visit, visit]
      refine (visitAll_unthread body _ _ (congrArg (·.push .block) same)).bind fun s s' same => ?_
      exact congrArg Environment.pop same
  | cond clauses p =>
      rw [unthread, visit, visit]
      exact visitClauses_unthread clauses s s' same
  | call callee args p =>
      rw [unthread, visit, visit, same, length_unthreadAll]
      cases resolveCallee table s'.env callee args.length p with
      | error d => trivial
      | ok target => exact visitAll_unthread args _ _ same
  | compose first stages p =>
      rw [unthread, visit]
      split
      · exact calls_scoped table stages (visit_unthread first) s s' same
      · rw [visit]
        exact (visit_unthread first s s' same).bind fun _ _ same => resolveStages_scoped table same stages

theorem visitAll_unthread (es : List Expression) (s s' : State) (same : s.env = s'.env) :
    ScopedAlike (visitAll table es s) (visitAll table (unthreadAll chosen es) s') := by
  cases es with
  | nil => exact same
  | cons e rest =>
      rw [unthreadAll, visitAll, visitAll]
      exact (visit_unthread e s s' same).bind fun s s' same => visitAll_unthread rest s s' same

theorem visitClauses_unthread (clauses : List (Expression × Expression)) (s s' : State)
    (same : s.env = s'.env) :
    ScopedAlike (visitClauses table clauses s) (visitClauses table (unthreadClauses chosen clauses) s') := by
  cases clauses with
  | nil => exact same
  | cons clause rest =>
      obtain ⟨test, consequent⟩ := clause
      rw [unthreadClauses, visitClauses, visitClauses]
      refine (visit_unthread test s s' same).bind fun s s' same => ?_
      refine (visit_unthread consequent _ _ (congrArg (·.push .block) same)).bind fun s s' same => ?_
      exact visitClauses_unthread rest _ _ (congrArg Environment.pop same)

end

theorem resolve_unthread {forms : List Expression} (admitted : ∀ e ∈ forms, e.Admitted 0) (p : Position) :
    EndsAlike (fun _ _ => True) (fun _ _ => True) (resolve (.block forms p))
      (resolve (.block (unthreadAll chosen forms) p)) := by
  have tables : Table.ofForms (unthreadAll chosen forms) = Table.ofForms forms :=
    Table.addAll_unthread .empty chosen admitted
  simp only [resolve, topLevel, tables]
  cases Table.ofForms forms with
  | error d => trivial
  | ok table =>
      refine (visitAll_unthread table chosen forms .initial .initial rfl).bind fun _ _ _ => ?_
      trivial

end Resolution

end LispMachine
