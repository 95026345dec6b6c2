import LispMachine.Proofs.Resolution.Covers
import LispMachine.Proofs.Threading

set_option autoImplicit false

namespace LispMachine

inductive Binding.Like (numbers : UInt16 → UInt16 → Prop) : Binding → Binding → Prop
  | slot (index : UInt16) : Like numbers (.slot index) (.slot index)
  | global (name : String) : Like numbers (.global name) (.global name)
  | function {i j} : numbers i j → Like numbers (.function i) (.function j)

inductive Callee.Like (numbers : UInt16 → UInt16 → Prop) : Callee → Callee → Prop
  | builtin (builtin : Builtin) : Like numbers (.builtin builtin) (.builtin builtin)
  | function {i j} : numbers i j → Like numbers (.function i) (.function j)

namespace Resolution

open Expression

variable {numbers : UInt16 → UInt16 → Prop} {r r' : Resolution} {table table' : Table}

def BoundAlike (numbers : UInt16 → UInt16 → Prop) (r r' : Resolution) (id : Nat) : Prop :=
  ∃ b b', r.bindings[id]? = some b ∧ r'.bindings[id]? = some b' ∧ b.Like numbers b'

def CalledAlike (numbers : UInt16 → UInt16 → Prop) (r r' : Resolution) (id : Nat) : Prop :=
  ∃ callee callee', r.callees[id]? = some callee ∧ r'.callees[id]? = some callee' ∧
    callee.Like numbers callee'

inductive Parallel (numbers : UInt16 → UInt16 → Prop) (r r' : Resolution) : Expression → Prop
  | constant {value p} : Parallel numbers r r' (.constant value p)
  | symbol {name p} : BoundAlike numbers r r' p.offset → Parallel numbers r r' (.symbol name p)
  | define {name value p} : Parallel numbers r r' value → BoundAlike numbers r r' p.offset →
      Parallel numbers r r' (.define name value p)
  | bind {name bound body p index} : Parallel numbers r r' bound →
      r.bindings[p.offset]? = some (.slot index) → r'.bindings[p.offset]? = some (.slot index) →
      Parallel numbers r r' body → Parallel numbers r r' (.bind name bound body p)
  | branch {condition yes no p} : Parallel numbers r r' condition → Parallel numbers r r' yes →
      Parallel numbers r r' no → Parallel numbers r r' (.branch condition yes no p)
  | block {body p} : (∀ e ∈ body, Parallel numbers r r' e) → Parallel numbers r r' (.block body p)
  | cond {clauses p} : (∀ clause ∈ clauses, Parallel numbers r r' clause.1) →
      (∀ clause ∈ clauses, Parallel numbers r r' clause.2) → Parallel numbers r r' (.cond clauses p)
  | call {name args p} : CalledAlike numbers r r' p.offset → (∀ e ∈ args, Parallel numbers r r' e) →
      Parallel numbers r r' (.call name args p)
  | compose {first stages p} : Parallel numbers r r' first →
      (∀ stage ∈ stages, CalledAlike numbers r r' stage.id) →
      Parallel numbers r r' (.compose first stages p)

inductive ParallelForm (numbers : UInt16 → UInt16 → Prop) (r r' : Resolution) : Expression → Prop
  | function {name params body p i j} : r.bindings[p.offset]? = some (.function i) →
      r'.bindings[p.offset]? = some (.function j) → numbers i j → Parallel numbers r r' body →
      ParallelForm numbers r r' (.function name params body p)
  | plain {e} : Parallel numbers r r' e → ParallelForm numbers r r' e

structure Table.Parallel (numbers : UInt16 → UInt16 → Prop) (table table' : Table) : Prop where
  index : ∀ {name : String} {i j : UInt16}, table.index[name]? = some i → table'.index[name]? = some j →
    numbers i j
  nodes : ∀ {id : Nat} {i j : UInt16}, table.nodes[id]? = some i → table'.nodes[id]? = some j →
    numbers i j

theorem Table.Parallel.refl (table : Table) : Table.Parallel Eq table table where
  index one two := Option.some.inj (one.symm.trans two)
  nodes one two := Option.some.inj (one.symm.trans two)

-- Scopes hold no functions, so what is in scope is the same for both.
theorem resolveName_alike (tables : table.Parallel numbers table') {env : Environment} (sound : env.Sound)
    {name : String} {b b' : Binding} (found : resolveName table env name = some b)
    (found' : resolveName table' env name = some b') : b.Like numbers b' := by
  unfold resolveName at found found'
  split at found
  next held =>
    rw [held] at found'
    cases found
    cases found'
    have within := sound.lookup held
    cases b with
    | slot index => exact .slot index
    | global name => exact .global name
    | function index => exact within.elim
  next missing =>
    rw [missing] at found'
    obtain ⟨i, at_i, rfl⟩ := Option.map_eq_some_iff.mp found
    obtain ⟨j, at_j, rfl⟩ := Option.map_eq_some_iff.mp found'
    exact .function (tables.index at_i at_j)

theorem define_alike {env after : Environment} {name : String} {b : Binding} (sound : env.Sound)
    (defined : env.define name = (some b, after)) : b.Like numbers b := by
  have within := Environment.define_within sound defined
  cases b with
  | slot index => exact .slot index
  | global name => exact .global name
  | function index => exact within.elim

theorem CalleeAt.alike (tables : table.Parallel numbers table') {env env' : Environment} {name : String}
    {argc : Nat} {p : Position} (called : CalleeAt r table env name argc p)
    (called' : CalleeAt r' table' env' name argc p) : CalledAlike numbers r r' p.offset := by
  obtain ⟨callee, found, entry⟩ := called
  obtain ⟨callee', found', entry'⟩ := called'
  refine ⟨callee, callee', entry, entry', ?_⟩
  have accepted {expected : Nat} {target result : Callee}
      (same : expectArity name expected argc p target = .ok result) : result = target := by
    unfold expectArity at same
    split at same <;> cases same
    rfl
  unfold resolveCallee at found found'
  split at found
  next builtin named =>
    rw [named] at found'
    rw [accepted found, accepted found']
    exact .builtin builtin
  next unnamed =>
    rw [unnamed] at found'
    split at found
    next i at_i =>
      dsimp only at found'
      split at found'
      next j at_j =>
        rw [accepted found, accepted found']
        exact .function (tables.index at_i at_j)
      next => split at found' <;> cases found'
    next => split at found <;> cases found

theorem Resolved.of_calls {e : Expression} {stages : List Stage} {env after : Environment}
    (resolved : Resolved r table (e.calls stages) env after) :
    Resolved r table e env after ∧
      ∀ stage ∈ stages, CalleeAt r table env stage.callee 1 stage.position := by
  induction stages generalizing e with
  | nil => exact ⟨resolved, List.forall_mem_nil _⟩
  | cons stage rest ih =>
      obtain ⟨inner, others⟩ := ih resolved
      cases inner with
      | call callee args =>
      cases args with
      | cons head rest =>
      cases rest
      exact ⟨head, List.forall_mem_cons.mpr ⟨callee, others⟩⟩

section Determined

variable {defs : List Definition} {chosen : Nat → Bool}

mutual

theorem Resolved.parallel (tables : table.Parallel numbers table') (known : r.Knows table defs)
    {e : Expression} {env after after' : Environment} (sound : env.Sound)
    (resolved : Resolved r table e env after)
    (resolved' : Resolved r' table' (e.unthread chosen) env after') :
    after' = after ∧ Parallel numbers r r' e := by
  cases resolved with
  | constant =>
      cases resolved'
      exact ⟨rfl, .constant⟩
  | symbol found entry =>
      cases resolved' with
      | symbol found' entry' =>
      exact ⟨rfl, .symbol ⟨_, _, entry, entry', resolveName_alike tables sound found found'⟩⟩
  | define value defined entry =>
      cases resolved' with
      | define value' defined' entry' =>
      obtain ⟨rfl, inside⟩ := value.parallel tables known sound value'
      have like : Binding.Like numbers _ _ := define_alike (value.covers known sound).2 defined
      cases defined.symm.trans defined'
      exact ⟨rfl, .define inside ⟨_, _, entry, entry', like⟩⟩
  | bind bound declared entry body =>
      cases resolved' with
      | bind bound' declared' entry' body' =>
      obtain ⟨rfl, outside⟩ := bound.parallel tables known sound bound'
      have sound := (bound.covers known sound).2
      cases declared.symm.trans declared'
      obtain ⟨rfl, inside⟩ := body.parallel tables known ((sound.push .block).declare declared) body'
      exact ⟨rfl, .bind outside entry entry' inside⟩
  | branch condition yes no =>
      cases resolved' with
      | branch condition' yes' no' =>
      obtain ⟨rfl, tested⟩ := condition.parallel tables known sound condition'
      have sound := (condition.covers known sound).2
      obtain ⟨rfl, first⟩ := yes.parallel tables known sound yes'
      have sound := (yes.covers known sound).2
      obtain ⟨rfl, second⟩ := no.parallel tables known sound no'
      exact ⟨rfl, .branch tested first second⟩
  | block body =>
      cases resolved' with
      | block body' =>
      obtain ⟨rfl, inside⟩ := body.parallel tables known (sound.push .block) body'
      exact ⟨rfl, .block inside⟩
  | cond clauses =>
      cases resolved' with
      | cond clauses' =>
      obtain ⟨rfl, tests, consequents⟩ := clauses.parallel tables known sound clauses'
      exact ⟨rfl, .cond tests consequents⟩
  | call callee args =>
      cases resolved' with
      | call callee' args' =>
      rw [length_unthreadAll] at callee'
      obtain ⟨rfl, inside⟩ := args.parallel tables known sound args'
      exact ⟨rfl, .call (callee.alike tables callee') inside⟩
  | @compose first stages p _ _ start steps =>
      have parts : Resolved r' table' (first.unthread chosen) env after' ∧
          ∀ stage ∈ stages, ∃ env', CalleeAt r' table' env' stage.callee 1 stage.position := by
        rw [unthread] at resolved'
        split at resolved'
        · obtain ⟨start', steps'⟩ := resolved'.of_calls
          exact ⟨start', fun stage member => ⟨_, steps' stage member⟩⟩
        · cases resolved' with
          | compose start' steps' => exact ⟨start', fun stage member => ⟨_, steps' stage member⟩⟩
      obtain ⟨start', steps'⟩ := parts
      obtain ⟨rfl, inside⟩ := start.parallel tables known sound start'
      refine ⟨rfl, .compose inside fun stage member => ?_⟩
      obtain ⟨_, callee'⟩ := steps' stage member
      exact (steps stage member).alike tables callee'

theorem ResolvedAll.parallel (tables : table.Parallel numbers table') (known : r.Knows table defs)
    {es : List Expression} {env after after' : Environment} (sound : env.Sound)
    (resolved : ResolvedAll r table es env after)
    (resolved' : ResolvedAll r' table' (unthreadAll chosen es) env after') :
    after' = after ∧ ∀ e ∈ es, Parallel numbers r r' e := by
  cases resolved with
  | nil =>
      cases resolved'
      exact ⟨rfl, List.forall_mem_nil _⟩
  | cons head rest =>
      cases resolved' with
      | cons head' rest' =>
      obtain ⟨rfl, own⟩ := head.parallel tables known sound head'
      obtain ⟨rfl, others⟩ := rest.parallel tables known (head.covers known sound).2 rest'
      exact ⟨rfl, List.forall_mem_cons.mpr ⟨own, others⟩⟩

theorem ResolvedClauses.parallel (tables : table.Parallel numbers table') (known : r.Knows table defs)
    {clauses : List (Expression × Expression)} {env after after' : Environment} (sound : env.Sound)
    (resolved : ResolvedClauses r table clauses env after)
    (resolved' : ResolvedClauses r' table' (unthreadClauses chosen clauses) env after') :
    after' = after ∧ (∀ clause ∈ clauses, Parallel numbers r r' clause.1) ∧
      ∀ clause ∈ clauses, Parallel numbers r r' clause.2 := by
  cases resolved with
  | nil =>
      cases resolved'
      exact ⟨rfl, List.forall_mem_nil _, List.forall_mem_nil _⟩
  | cons test consequent rest =>
      cases resolved' with
      | cons test' consequent' rest' =>
      obtain ⟨rfl, tested⟩ := test.parallel tables known sound test'
      have sound := (test.covers known sound).2
      obtain ⟨rfl, chosen⟩ := consequent.parallel tables known (sound.push .block) consequent'
      have sound := (consequent.covers known (sound.push .block)).2.pop
      obtain ⟨rfl, tests, consequents⟩ := rest.parallel tables known sound rest'
      exact ⟨rfl, List.forall_mem_cons.mpr ⟨tested, tests⟩, List.forall_mem_cons.mpr ⟨chosen, consequents⟩⟩

end

theorem Declared.unique {names : List String} {env after after' : Environment}
    (declared : Declared names env after) (declared' : Declared names env after') : after' = after := by
  induction declared with
  | nil =>
      cases declared'
      rfl
  | cons first _ ih =>
      cases declared' with
      | cons first' rest' =>
      cases first.symm.trans first'
      exact ih rest'

theorem ResolvedForms.of_plain {e : Expression} {rest : List Expression} {env after : Environment}
    (resolved : ResolvedForms r table (e :: rest) env after) (plain : e.definition? = none) :
    ∃ inner, Resolved r table e env inner ∧ ResolvedForms r table rest inner after := by
  cases resolved with
  | function => cases plain
  | form head rest => exact ⟨_, head, rest⟩

theorem ResolvedForms.parallel (tables : table.Parallel numbers table') (known : r.Knows table defs)
    {forms : List Expression} (admitted : ∀ e ∈ forms, e.Admitted 0) {env after after' : Environment}
    (sound : env.Sound) (resolved : ResolvedForms r table forms env after)
    (resolved' : ResolvedForms r' table' (unthreadAll chosen forms) env after') :
    after' = after ∧ ∀ e ∈ forms, ParallelForm numbers r r' e := by
  induction resolved with
  | nil =>
      cases resolved'
      exact ⟨rfl, List.forall_mem_nil _⟩
  | function numbered entry declared body _ ih =>
      cases resolved' with
      | form head' => cases head'
      | function numbered' entry' declared' body' rest' =>
      obtain rfl := declared.unique declared'
      have sound := declared.sound (sound.push .function)
      obtain ⟨rfl, inside⟩ := body.parallel tables known sound body'
      have sound := (body.covers known sound).2.pop
      obtain ⟨rfl, others⟩ := ih (List.forall_mem_cons.mp admitted).2 sound rest'
      refine ⟨rfl, List.forall_mem_cons.mpr ⟨?_, others⟩⟩
      exact .function entry entry' (tables.nodes numbered numbered') inside
  | @form e rest _ _ _ head _ ih =>
      obtain ⟨first, admitted⟩ := List.forall_mem_cons.mp admitted
      have plain : e.definition? = none := by cases head <;> rfl
      have plain' : (e.unthread chosen).definition? = none := by
        rw [definition?_unthread chosen first, plain]
        rfl
      obtain ⟨_, head', rest'⟩ := resolved'.of_plain plain'
      obtain ⟨rfl, own⟩ := head.parallel tables known sound head'
      obtain ⟨rfl, others⟩ := ih admitted (head.covers known sound).2 rest'
      exact ⟨rfl, List.forall_mem_cons.mpr ⟨.plain own, others⟩⟩

end Determined

theorem resolve_unthread_parallel {forms : List Expression} {p : Position} (chosen : Nat → Bool)
    (distinct : (nodesAll forms).Nodup) (admitted : ∀ e ∈ forms, e.Admitted 0)
    (resolved : resolve (.block forms p) = .ok r)
    (resolved' : resolve (.block (unthreadAll chosen forms) p) = .ok r') :
    r'.functions = r.functions ∧ ∀ e ∈ forms, ParallelForm Eq r r' e := by
  obtain ⟨table, read, resolved⟩ := bind_ok.mp resolved
  obtain ⟨s, visited, resolved⟩ := bind_ok.mp resolved
  cases resolved
  obtain ⟨table', read', resolved'⟩ := bind_ok.mp resolved'
  obtain ⟨s', visited', resolved'⟩ := bind_ok.mp resolved'
  cases resolved'
  have tables : Table.ofForms (unthreadAll chosen forms) = Table.ofForms forms :=
    Table.addAll_unthread .empty chosen admitted
  cases (tables.symm.trans read').symm.trans read
  have lists : table.Lists (definitions forms) := Table.Lists.empty.ofForms read
  have found := visitAll_forms distinct lists visited
  have found' := visitAll_forms (nodup_unthreadAll chosen distinct) (Table.Lists.empty.ofForms read') visited'
  exact ⟨rfl, (found.parallel (.refl table) ⟨lists, rfl⟩ admitted Environment.sound_global found').2⟩

end Resolution

end LispMachine
