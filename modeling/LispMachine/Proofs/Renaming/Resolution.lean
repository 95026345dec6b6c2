import LispMachine.Proofs.Renaming
import LispMachine.Proofs.Resolution.Functions

set_option autoImplicit false

namespace LispMachine

namespace Resolution

open Expression

structure State.Beside (old new : String) (env : Environment) (s s' : State) : Prop where
  here : s.env = env
  env : env.Renamed old new s'.env
  bindings : s'.bindings = s.bindings
  callees : s'.callees = s.callees

abbrev Abreast (old new : String) (after : Environment) (x x' : Except Diagnostic State) : Prop :=
  EndsAlike (fun _ _ => False) (State.Beside old new after) x x'

section Lockstep

variable {old new : String} {env after : Environment} {s s' : State}

namespace State.Beside

theorem push (beside : Beside old new env s s') (kind : ScopeKind) :
    Beside old new (env.push kind) (s.push kind) (s'.push kind) :=
  ⟨congrArg (·.push kind) beside.here, beside.env.push kind, beside.bindings, beside.callees⟩

theorem pop (beside : Beside old new env s s') : Beside old new env.pop s.pop s'.pop :=
  ⟨congrArg Environment.pop beside.here, beside.env.pop, beside.bindings, beside.callees⟩

theorem bind (beside : Beside old new env s s') (id : Nat) (b : Binding) :
    Beside old new env (s.bind id b) (s'.bind id b) :=
  ⟨beside.here, beside.env, congrArg (·.insert id b) beside.bindings, beside.callees⟩

theorem target (beside : Beside old new env s s') (id : Nat) (callee : Callee) :
    Beside old new env (s.target id callee) (s'.target id callee) :=
  ⟨beside.here, beside.env, beside.bindings, congrArg (·.insert id callee) beside.callees⟩

theorem declare (beside : Beside old new env s s') {name : String} (fresh : name ≠ new) {index : UInt16}
    (declared : env.declare name = (some index, after)) (p : Position) :
    EndsAlike (fun _ _ => False) (fun a b => a.1 = index ∧ b.1 = index ∧ Beside old new after a.2 b.2)
      (s.declare name p) (s'.declare (replaced old new name) p) := by
  obtain ⟨after', declared', renamed⟩ := beside.env.declare fresh declared
  rw [← beside.here] at declared
  simp only [State.declare, declared, declared']
  exact ⟨rfl, rfl, rfl, renamed, beside.bindings, beside.callees⟩

theorem define (beside : Beside old new env s s') {name : String} (fresh : name ≠ new) {b : Binding}
    (defined : env.define name = (some b, after)) (kept : name = old → ∃ index, b = .slot index)
    (p : Position) :
    EndsAlike (fun _ _ => False) (fun x y => x.1 = b ∧ y.1 = b ∧ Beside old new after x.2 y.2)
      (s.define name p) (s'.define (replaced old new name) p) := by
  obtain ⟨after', defined', renamed⟩ := beside.env.define fresh defined kept
  rw [← beside.here] at defined
  simp only [State.define, defined, defined']
  exact ⟨rfl, rfl, rfl, renamed, beside.bindings, beside.callees⟩

theorem declareAll (beside : Beside old new env s s') {names : List String} (fresh : new ∉ names)
    (declared : Declared names env after) (p : Position) :
    Abreast old new after (s.declareAll p names) (s'.declareAll p (names.map (replaced old new))) := by
  induction declared generalizing s s' with
  | nil => exact beside
  | cons first _ ih =>
      obtain ⟨own, others⟩ := not_or.mp (mt List.mem_cons.mpr fresh)
      exact (beside.declare (Ne.symm own) first p).bind fun _ _ ⟨_, _, beside⟩ => ih beside others

end State.Beside

end Lockstep

theorem resolveName_replaced {old new : String} {table : Table} {env env' : Environment}
    (renamed : env.Renamed old new env') {name : String} (fresh : name ≠ new) {b : Binding}
    (found : resolveName table env name = some b) (kept : name = old → ∃ index, b = .slot index) :
    resolveName table env' (replaced old new name) = some b := by
  rw [resolveName, renamed.lookup fresh]
  unfold resolveName at found
  split at found
  · exact found
  · have other : name ≠ old := by
      intro same
      obtain ⟨index, rfl⟩ := kept same
      obtain ⟨number, _, impossible⟩ := Option.map_eq_some_iff.mp found
      cases impossible
    rw [replaced_of_ne other]
    exact found

def Local (r : Resolution) (ids : List Nat) : Prop :=
  ∀ id ∈ ids, ∀ b, r.bindings[id]? = some b → ∃ index, b = .slot index

section Visits

variable {r : Resolution} {table : Table} {old new : String} {env after : Environment} {s s' : State}

theorem resolveStages_rename (beside : State.Beside old new env s s') {stages : List Stage}
    (resolved : ∀ stage ∈ stages, CalleeAt r table env stage.callee 1 stage.position) :
    Abreast old new env (resolveStages table stages s) (resolveStages table stages s') := by
  induction stages generalizing s s' with
  | nil => exact beside
  | cons stage rest ih =>
      obtain ⟨⟨callee, found, _⟩, others⟩ := List.forall_mem_cons.mp resolved
      rw [resolveStages, resolveStages, beside.here, found, resolveCallee_ok found]
      exact ih (beside.target stage.id callee) others

mutual

theorem Resolved.rename {e : Expression} {env after : Environment} (resolved : Resolved r table e env after)
    (kept : r.Local (e.uses old)) (fresh : new ∉ e.names) {s s' : State}
    (beside : State.Beside old new env s s') :
    Abreast old new after (visit table e s) (visit table (e.rename old new) s') := by
  cases resolved with
  | constant => exact beside
  | @symbol name p _ b found entry =>
      have own : name ≠ new := by simpa [names, eq_comm] using fresh
      have same (h : name = old) : ∃ index, b = .slot index :=
        kept p.offset (by simp [uses, h]) b entry
      rw [Expression.rename, visit, visit, beside.here, found,
        resolveName_replaced beside.env own found same]
      exact beside.bind p.offset b
  | @define name value p _ inner _ b resolved defined entry =>
      obtain ⟨own, others⟩ := not_or.mp (mt List.mem_cons.mpr fresh)
      have same (h : name = old) : ∃ index, b = .slot index :=
        kept p.offset (by simp [uses, h]) b entry
      rw [Expression.rename, visit, visit]
      refine (resolved.rename (fun id h => kept id (by simp [uses, h])) others beside).bind ?_
      intro s s' beside
      refine (beside.define (Ne.symm own) defined same p).bind ?_
      rintro ⟨_, s⟩ ⟨_, s'⟩ ⟨rfl, rfl, beside⟩
      exact beside.bind p.offset _
  | @bind name bound body p _ inner inside after index outer declared entry resolved =>
      simp only [names, List.mem_cons, List.mem_append, not_or] at fresh
      obtain ⟨own, first, second⟩ := fresh
      rw [Expression.rename, visit, visit]
      refine (outer.rename (fun id h => kept id (by simp [uses, h])) first beside).bind ?_
      intro s s' beside
      refine ((beside.push .block).declare (Ne.symm own) declared p).bind ?_
      rintro ⟨_, s⟩ ⟨_, s'⟩ ⟨rfl, rfl, beside⟩
      refine (resolved.rename (fun id h => kept id (by simp [uses, h])) second
        (beside.bind p.offset _)).bind ?_
      exact fun s s' beside => beside.pop
  | branch condition yes no =>
      simp only [names, List.mem_append, not_or] at fresh
      obtain ⟨⟨first, second⟩, third⟩ := fresh
      rw [Expression.rename, visit, visit]
      refine (condition.rename (fun id h => kept id (by simp [uses, h])) first beside).bind ?_
      intro s s' beside
      refine (yes.rename (fun id h => kept id (by simp [uses, h])) second beside).bind ?_
      intro s s' beside
      exact no.rename (fun id h => kept id (by simp [uses, h])) third beside
  | block body =>
      rw [Expression.rename, visit, visit]
      refine (body.rename kept fresh (beside.push .block)).bind ?_
      exact fun s s' beside => beside.pop
  | cond clauses =>
      rw [Expression.rename, visit, visit]
      exact clauses.rename kept fresh beside
  | @call name args p _ _ callee resolved =>
      obtain ⟨_, others⟩ := not_or.mp (mt List.mem_cons.mpr fresh)
      obtain ⟨target, found, _⟩ := callee
      rw [Expression.rename, visit, visit, length_renameAll, beside.here, found, resolveCallee_ok found]
      exact resolved.rename kept others (beside.target p.offset target)
  | compose first stages =>
      obtain ⟨own, _⟩ := not_or.mp (mt List.mem_append.mpr fresh)
      rw [Expression.rename, visit, visit]
      refine (first.rename kept own beside).bind ?_
      exact fun s s' beside => resolveStages_rename beside stages

theorem ResolvedAll.rename {es : List Expression} {env after : Environment}
    (resolved : ResolvedAll r table es env after) (kept : r.Local (usesAll old es))
    (fresh : new ∉ namesAll es) {s s' : State} (beside : State.Beside old new env s s') :
    Abreast old new after (visitAll table es s) (visitAll table (renameAll old new es) s') := by
  cases resolved with
  | nil => exact beside
  | cons head rest =>
      obtain ⟨own, others⟩ := not_or.mp (mt List.mem_append.mpr fresh)
      rw [renameAll, visitAll, visitAll]
      refine (head.rename (fun id h => kept id (by simp [usesAll, h])) own beside).bind ?_
      intro s s' beside
      exact rest.rename (fun id h => kept id (by simp [usesAll, h])) others beside

theorem ResolvedClauses.rename {clauses : List (Expression × Expression)} {env after : Environment}
    (resolved : ResolvedClauses r table clauses env after) (kept : r.Local (usesClauses old clauses))
    (fresh : new ∉ namesClauses clauses) {s s' : State} (beside : State.Beside old new env s s') :
    Abreast old new after (visitClauses table clauses s)
      (visitClauses table (renameClauses old new clauses) s') := by
  cases resolved with
  | nil => exact beside
  | cons test consequent rest =>
      simp only [namesClauses, List.mem_append, not_or] at fresh
      obtain ⟨⟨first, second⟩, others⟩ := fresh
      rw [renameClauses, visitClauses, visitClauses]
      refine (test.rename (fun id h => kept id (by simp [usesClauses, h])) first beside).bind ?_
      intro s s' beside
      refine (consequent.rename (fun id h => kept id (by simp [usesClauses, h])) second
        (beside.push .block)).bind ?_
      intro s s' beside
      exact rest.rename (fun id h => kept id (by simp [usesClauses, h])) others beside.pop

end

theorem ResolvedForms.rename {forms : List Expression} (resolved : ResolvedForms r table forms env after)
    (kept : r.Local (usesAll old forms)) (fresh : new ∉ namesAll forms)
    (beside : State.Beside old new env s s') :
    Abreast old new after (visitAll table forms s) (visitAll table (renameAll old new forms) s') := by
  induction resolved generalizing s s' with
  | nil => exact beside
  | @function name params body p rest env inside inner _ index numbered entry declared resolved _ ih =>
      simp only [namesAll, names, List.mem_append, List.mem_cons, not_or] at fresh
      obtain ⟨⟨_, parameters, own⟩, others⟩ := fresh
      have entered := (beside.bind p.offset (.function index)).push .function
      have head : Abreast old new inner.pop (visit table (.function name params body p) s)
          (visit table (.function name (params.map (replaced old new)) (body.rename old new) p) s') := by
        rw [visit, visit, numbered]
        refine (entered.declareAll parameters declared p).bind fun s s' beside => ?_
        refine (resolved.rename (fun id h => kept id (by simp [usesAll, uses, h])) own beside).bind ?_
        exact fun s s' beside => beside.pop
      rw [renameAll, visitAll, visitAll, Expression.rename]
      refine head.bind fun s s' beside => ?_
      exact ih (fun id h => kept id (by simp [usesAll, h])) others beside
  | form head _ ih =>
      obtain ⟨own, others⟩ := not_or.mp (mt List.mem_append.mpr fresh)
      rw [renameAll, visitAll, visitAll]
      refine (head.rename (fun id h => kept id (by simp [usesAll, h])) own beside).bind ?_
      exact fun s s' beside => ih (fun id h => kept id (by simp [usesAll, h])) others beside

end Visits

theorem Table.ofForms_rename (old new : String) (forms : List Expression) :
    Table.ofForms (renameAll old new forms) = Table.ofForms forms := by
  unfold Table.ofForms
  generalize Table.empty = table
  induction forms generalizing table with
  | nil => rfl
  | cons e rest ih =>
      have own : table.add (e.rename old new) = table.add e := by
        cases e <;> simp [Table.add, Expression.rename, Table.addFunction]
      rw [renameAll, List.foldlM_cons, List.foldlM_cons, own]
      exact congrArg _ (funext fun table => ih table)

theorem resolve_rename {old new : String} {forms : List Expression} {p : Position} {r : Resolution}
    (distinct : (nodesAll forms).Nodup) (resolved : resolve (.block forms p) = .ok r)
    (kept : r.Local (usesAll old forms)) (fresh : new ∉ namesAll forms) :
    resolve (.block (renameAll old new forms) p) = .ok r := by
  obtain ⟨table, read, resolved⟩ := bind_ok.mp resolved
  obtain ⟨s, visited, resolved⟩ := bind_ok.mp resolved
  cases resolved
  have found := visitAll_forms distinct (Table.Lists.empty.ofForms read) visited
  have start : State.Beside old new .global .initial .initial := ⟨rfl, .global, rfl, rfl⟩
  have abreast := found.rename kept fresh start
  rw [show visitAll table forms .initial = .ok s from visited] at abreast
  cases visited' : visitAll table (renameAll old new forms) .initial with
  | error d =>
      rw [visited'] at abreast
      exact abreast.elim
  | ok s' =>
      rw [visited'] at abreast
      refine bind_ok.mpr ⟨table, (Table.ofForms_rename old new forms).trans read, ?_⟩
      refine bind_ok.mpr ⟨s', visited', ?_⟩
      rw [abreast.bindings, abreast.callees]
      rfl

end Resolution

end LispMachine
