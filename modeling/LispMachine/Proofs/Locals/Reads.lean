import LispMachine.Proofs.Locals.Declarations
import LispMachine.Proofs.Resolution.Covers

set_option autoImplicit false

namespace LispMachine

variable {σ α β : Type}

structure Trail.Tidy (env : Environment) (opened : List Opened) (t : Trail σ) : Prop where
  kept : Kept env opened t.past
  locals : ∀ slot, t.activation.locals slot =
    ((t.past.stores.find? (·.slot = slot)).map Store.value).getD .nil

-- What `x` does to the activation is what `y` does. A trail with `P` becomes one with `Q`, and a
-- fault leaves no read unexplained.
def Follows (P : Trail σ → Prop) (x : Tracing σ α) (y : Evaluation σ α) (Q : Trail σ → Prop) : Prop :=
  ∀ t, P t → match x t with
    | (.ok v, t') => y t.activation = (.ok v, t'.activation) ∧ Q t'
    | (.error fault, t') => y t.activation = (.error fault, t'.activation) ∧
        ∀ read ∈ t'.past.reads, read.Explained

@[simp] theorem Tracing.pure_apply (v : α) (t : Trail σ) : (Pure.pure v : Tracing σ α) t = (.ok v, t) := rfl

theorem Tracing.bind_apply (x : Tracing σ α) (f : α → Tracing σ β) (t : Trail σ) :
    (x >>= f) t = match x t with
      | (.ok v, t') => f v t'
      | (.error fault, t') => (.error fault, t') := by
  simp only [Bind.bind, ExceptT.bind, ExceptT.mk, StateT.bind]
  rcases x t with ⟨_ | _, t'⟩ <;> rfl

namespace Follows

variable {P Q R : Trail σ → Prop}

theorem pure (v : α) : Follows P (Pure.pure v : Tracing σ α) (Pure.pure v) P :=
  fun _ start => ⟨rfl, start⟩

theorem bindOf {V : α → Prop} {x : Tracing σ α} {y : Evaluation σ α} {f : α → Tracing σ β}
    {g : α → Evaluation σ β} (first : Follows P x y Q)
    (possible : ∀ a v a', y a = (.ok v, a') → V v)
    (second : ∀ v, V v → Follows Q (f v) (g v) R) : Follows P (x >>= f) (y >>= g) R := by
  intro t start
  have before := first t start
  rw [Tracing.bind_apply]
  simp only [Bind.bind]
  split at before
  next v t₁ found =>
    rw [before.1]
    exact second v (possible _ _ _ before.1) t₁ before.2
  next fault t₁ found =>
    rw [before.1]
    exact ⟨rfl, before.2⟩

theorem bind {x : Tracing σ α} {y : Evaluation σ α} {f : α → Tracing σ β} {g : α → Evaluation σ β}
    (first : Follows P x y Q) (second : ∀ v, Follows Q (f v) (g v) R) :
    Follows P (x >>= f) (y >>= g) R :=
  bindOf first (fun _ _ _ _ => trivial) fun v _ => second v

theorem imp {x : Tracing σ α} {y : Evaluation σ α} (follows : Follows P x y Q)
    (weaker : ∀ t, Q t → R t) : Follows P x y R := by
  intro t start
  have done := follows t start
  split at done
  next => exact ⟨done.1, weaker _ done.2⟩
  next => exact done

theorem of {x : Tracing σ α} {y : Evaluation σ α} (follows : Follows Q x y R)
    (stronger : ∀ t, P t → Q t) : Follows P x y R :=
  fun t start => follows t (stronger t start)

variable {env : Environment} {opened : List Opened}

theorem result {x : Tracing σ α} {y : Evaluation σ α} (follows : Follows P x y (Trail.Tidy env opened))
    {t : Trail σ} (start : P t) :
    match x t with
    | (result, t') => y t.activation = (result, t'.activation) ∧
        ∀ read ∈ t'.past.reads, read.Explained := by
  have done := follows t start
  rcases found : x t with ⟨_ | v, t'⟩
  · rw [found] at done
    exact done
  · rw [found] at done
    exact ⟨done.1, done.2.kept.explained⟩

theorem enter {f : Nat → Tracing σ α} {y : Evaluation σ α}
    (inside : ∀ number, Follows (Trail.Tidy (env.push .block) (⟨number, []⟩ :: opened)) (f number) y Q) :
    Follows (Trail.Tidy env opened) (Tracing.enter >>= f) y Q := by
  intro t tidy
  exact inside t.past.entered _ ⟨tidy.kept.push, tidy.locals⟩

theorem lift {y : Evaluation σ α} (quiet : ∀ a, (y a).2.locals = a.locals) :
    Follows (Trail.Tidy env opened) (Tracing.lift y) y (Trail.Tidy env opened) := by
  intro t tidy
  have same := quiet t.activation
  simp only [Tracing.lift]
  rcases found : y t.activation with ⟨_ | v, a⟩
  · exact ⟨rfl, tidy.kept.explained⟩
  · rw [found] at same
    exact ⟨rfl, tidy.kept, fun slot => (congrFun same slot).trans (tidy.locals slot)⟩

end Follows

namespace Resolution

variable {r : Resolution} {table : Table} {env env' : Environment} {opened : List Opened} {id : Nat}
  {name : String}

theorem load_quiet {b : Binding} (bound : r.bindings[id]? = some b) (a : Activation σ) :
    ((r.load id : Evaluation σ Value) a).2.locals = a.locals := by
  simp only [load, bound]
  cases b with
  | slot index => rfl
  | function index => rfl
  | global name =>
      simp only [Evaluation.readGlobal]
      split <;> rfl

theorem lookup_of_resolveName {slot : UInt16} (resolved : resolveName table env name = some (.slot slot)) :
    env.lookup name = some (.slot slot) := by
  unfold resolveName at resolved
  split at resolved
  next found => rw [found, resolved]
  next =>
    obtain ⟨index, _, other⟩ := Option.map_eq_some_iff.mp resolved
    cases other

theorem traceLoad_follows {b : Binding} (resolved : resolveName table env name = some b)
    (bound : r.bindings[id]? = some b) :
    Follows (Trail.Tidy env opened) (r.traceLoad id name opened : Tracing σ Value) (r.load id)
      (Trail.Tidy env opened) := by
  by_cases slotted : ∃ slot, b = .slot slot
  · obtain ⟨slot, rfl⟩ := slotted
    intro t tidy
    have explained := tidy.kept.explain (lookup_of_resolveName resolved) (tidy.locals slot)
    simp only [traceLoad, Tracing.bind_apply, Tracing.lift, load, bound, Evaluation.load, Tracing.note,
      noteRead]
    exact ⟨rfl, tidy.kept.addReads [_] (by simpa using explained), tidy.locals⟩
  · have unnoted (v : Value) : r.noteRead id name opened v = fun past => past := by
      funext past
      cases b with
      | slot slot => exact absurd ⟨slot, rfl⟩ slotted
      | global | function => simp only [noteRead, bound]
    have plain : (r.traceLoad id name opened : Tracing σ Value) = Tracing.lift (r.load id) := by
      funext t
      simp only [traceLoad, Tracing.bind_apply, unnoted]
      rcases Tracing.lift (r.load id) t with ⟨_ | v, t'⟩ <;> rfl
    rw [plain]
    exact .lift (load_quiet bound)

theorem traceStore_follows {first : Opened} {slot : UInt16} (bound : r.bindings[id]? = some (.slot slot))
    (found : env.inner.names[name]? = some (.slot slot)) (names : List String) (outer : List Opened)
    (v : Value) :
    Follows (Trail.Tidy env (first :: opened))
      (r.traceStore id name (⟨first.number, names⟩ :: outer) v : Tracing σ Unit) (r.store id v)
      (Trail.Tidy env (first :: opened)) := by
  intro t tidy
  simp only [traceStore, Tracing.bind_apply, Tracing.lift, store, bound, Evaluation.store, Tracing.note,
    noteStore]
  refine ⟨trivial, tidy.kept.store found v, fun other => ?_⟩
  simp only [Activation.store, List.find?_cons]
  by_cases same : other = slot
  · simp [same]
  · simp [same, Ne.symm same, tidy.locals other]

theorem traceStore_global_follows {global : String} (bound : r.bindings[id]? = some (.global global))
    (v : Value) :
    Follows (Trail.Tidy env opened) (r.traceStore id name [] v : Tracing σ Unit) (r.store id v)
      (Trail.Tidy env opened) := by
  intro t tidy
  simp only [traceStore, Tracing.bind_apply, Tracing.lift, store, bound, Evaluation.writeGlobal,
    Tracing.note, noteStore]
  exact ⟨trivial, tidy.kept, tidy.locals⟩

theorem traceDefine_follows {b : Binding} (defined : env.define name = (some b, env'))
    (bound : r.bindings[id]? = some b) (names : List String) (v : Value) :
    Follows (Trail.Tidy env (Opened.extend opened names)) (r.traceStore id name opened v : Tracing σ Unit)
      (r.store id v) (Trail.Tidy env' (Opened.extend opened (names ++ [name]))) := by
  intro t tidy
  have declared : t.Tidy env' (Opened.extend opened (names ++ [name])) := by
    rw [← Opened.extend_extend]
    exact ⟨tidy.kept.define defined, tidy.locals⟩
  cases opened with
  | nil =>
      obtain rfl := tidy.kept.defined_global defined
      exact traceStore_global_follows bound v t declared
  | cons first opened =>
      obtain ⟨slot, rfl, found⟩ := tidy.kept.defined_slot defined
      exact traceStore_follows bound found first.names opened v t declared

theorem traceBind_follows {slot : UInt16} (declared : env.declare name = (some slot, env'))
    (bound : r.bindings[id]? = some (.slot slot)) (number : Nat) (v : Value) :
    Follows (Trail.Tidy env (⟨number, []⟩ :: opened))
      (r.traceStore id name [⟨number, [name]⟩] v : Tracing σ Unit) (r.store id v)
      (Trail.Tidy env' (⟨number, [name]⟩ :: opened)) := by
  intro t tidy
  have inside : t.Tidy env' (⟨number, [name]⟩ :: opened) := ⟨tidy.kept.declare declared, tidy.locals⟩
  exact traceStore_follows bound (Environment.names_of_declare declared) [name] [] v t inside

variable [LineSink σ] {defs : List Definition}

def Answers (defs : List Definition) (traced : TracedCalls σ) (call : Calls σ) : Prop :=
  ∀ (index : UInt16) (args : List Value) (world : World σ) (d : Definition),
    defs[index.toNat]? = some d → args.length = d.params.length →
      match traced index args world with
      | (result, world', reads) => call index args world = (result, world') ∧
          ∀ read ∈ reads, read.Explained

theorem evaluate_quiet (builtin : Builtin) (args : List Value) (p : Position) (a : Activation σ) :
    ((builtin.evaluate args p : Evaluation σ Value) a).2.locals = a.locals := by
  unfold Builtin.evaluate
  split
  next v =>
    simp only [Bind.bind, Evaluation.printLine]
    rcases LineSink.writeLine a.world.output v.text with ⟨output, _ | reason⟩ <;> rfl
  next => rfl

theorem traceApply_follows (known : r.Knows table defs) {traced : TracedCalls σ} {call : Calls σ}
    (answers : Answers defs traced call) {args : List Value} (entry : r.CalleeEntry id args.length)
    (p : Position) :
    Follows (Trail.Tidy env opened) (r.traceApply traced id args p) (r.apply call id args p)
      (Trail.Tidy env opened) := by
  obtain ⟨callee, found, takes⟩ := entry
  simp only [traceApply, apply, found]
  cases callee with
  | builtin b => exact .lift (evaluate_quiet b args p)
  | function index =>
      obtain ⟨signature, listed, arity⟩ := takes
      rw [known.getElem?] at listed
      obtain ⟨d, at_index, rfl⟩ := Option.map_eq_some_iff.mp listed
      have enough : args.length = d.params.length := by
        have small := known.lists.arity d (List.mem_of_getElem? at_index)
        rw [← arity]
        exact UInt8.toNat_ofNat_of_lt' (Nat.lt_succ_of_le small)
      intro t tidy
      have answered := answers index args t.activation.world d at_index enough
      simp only [Evaluation.onWorld]
      rcases found : traced index args t.activation.world with ⟨_ | v, world, reads⟩
      · rw [found] at answered
        rw [answered.1]
        exact ⟨rfl, (tidy.kept.addReads reads answered.2).explained⟩
      · rw [found] at answered
        rw [answered.1]
        exact ⟨rfl, tidy.kept.addReads reads answered.2, tidy.locals⟩

section Expressions

open Expression

variable {traced : TracedCalls σ} {call : Calls σ}

theorem traceStages_follows (known : r.Knows table defs) (answers : Answers defs traced call)
    {stages : List Stage} (resolved : ∀ stage ∈ stages, CalleeAt r table env stage.callee 1 stage.position)
    (v : Value) :
    Follows (Trail.Tidy env opened) (traceStages r traced stages v) (evaluateStages r call stages v)
      (Trail.Tidy env opened) := by
  induction stages generalizing v with
  | nil => exact .pure v
  | cons stage rest ih =>
      obtain ⟨first, others⟩ := List.forall_mem_cons.mp resolved
      have entry : r.CalleeEntry stage.id [v].length := first.entry known
      exact (traceApply_follows known answers entry stage.position).bind fun w => ih others w

mutual

theorem trace_follows (known : r.Knows table defs) (answers : Answers defs traced call) {e : Expression}
    {env after : Environment} (opened : List Opened) (resolved : Resolved r table e env after) :
    Follows (Trail.Tidy env opened) (trace r traced e opened) (evaluate r call e)
      (Trail.Tidy after (Opened.extend opened e.declares)) := by
  cases resolved with
  | constant =>
      rw [trace, evaluate, declares, Opened.extend_nil]
      exact .pure _
  | symbol found bound =>
      rw [trace, evaluate, declares, Opened.extend_nil]
      exact traceLoad_follows found bound
  | define value defined bound =>
      rw [trace, evaluate, declares]
      refine (trace_follows known answers opened value).bind fun v => ?_
      exact (traceDefine_follows defined bound _ v).bind fun _ => .pure v
  | bind before declared bound body =>
      rw [trace, evaluate, declares]
      refine (trace_follows known answers opened before).bind fun v => .enter fun number => ?_
      refine (traceBind_follows declared bound number v).bind fun _ => ?_
      exact (trace_follows known answers _ body).imp fun t tidy => ⟨tidy.kept.pop, tidy.locals⟩
  | branch condition yes no =>
      rw [trace, evaluate, declares]
      refine (trace_follows known answers opened condition).bind fun v => ?_
      split
      · refine (trace_follows known answers _ yes).imp fun t tidy => ⟨?_, tidy.locals⟩
        simpa using tidy.kept.skip no
      · refine ((trace_follows known answers _ no).of fun t tidy => ⟨?_, tidy.locals⟩).imp fun t tidy => ?_
        · simpa using tidy.kept.skip yes
        · simpa using tidy
  | block body =>
      rw [trace, evaluate, declares, Opened.extend_nil]
      refine .enter fun number => ?_
      exact (traceSequence_follows known answers _ body .nil).imp
        fun t tidy => ⟨tidy.kept.pop, tidy.locals⟩
  | cond clauses =>
      rw [trace, evaluate, declares]
      exact traceClauses_follows known answers opened clauses
  | call callee args =>
      rw [trace, evaluate, declares]
      refine (traceArguments_follows known answers opened args).bindOf
        (fun a values a' done => length_of_evaluateArguments done) fun values length => ?_
      exact traceApply_follows known answers (length ▸ callee.entry known) _
  | compose first stages =>
      rw [trace, evaluate, declares]
      refine (trace_follows known answers opened first).bind fun v => ?_
      exact traceStages_follows known answers stages v

theorem traceArguments_follows (known : r.Knows table defs) (answers : Answers defs traced call)
    {es : List Expression} {env after : Environment} (opened : List Opened)
    (resolved : ResolvedAll r table es env after) :
    Follows (Trail.Tidy env opened) (traceArguments r traced es opened) (evaluateArguments r call es)
      (Trail.Tidy after (Opened.extend opened (declaresAll es))) := by
  cases resolved with
  | nil =>
      rw [traceArguments, evaluateArguments, declaresAll, Opened.extend_nil]
      exact .pure _
  | cons head rest =>
      rw [traceArguments, evaluateArguments, declaresAll, ← Opened.extend_extend]
      refine (trace_follows known answers opened head).bind fun v => ?_
      exact (traceArguments_follows known answers _ rest).bind fun values => .pure (v :: values)

theorem traceSequence_follows (known : r.Knows table defs) (answers : Answers defs traced call)
    {es : List Expression} {env after : Environment} (opened : List Opened)
    (resolved : ResolvedAll r table es env after) (last : Value) :
    Follows (Trail.Tidy env opened) (traceSequence r traced es opened last)
      (evaluateSequence r call es last) (Trail.Tidy after (Opened.extend opened (declaresAll es))) := by
  cases resolved with
  | nil =>
      rw [traceSequence, evaluateSequence, declaresAll, Opened.extend_nil]
      exact .pure _
  | cons head rest =>
      rw [traceSequence, evaluateSequence, declaresAll, ← Opened.extend_extend]
      refine (trace_follows known answers opened head).bind fun v => ?_
      exact traceSequence_follows known answers _ rest v

theorem traceClauses_follows (known : r.Knows table defs) (answers : Answers defs traced call)
    {clauses : List (Expression × Expression)} {env after : Environment} (opened : List Opened)
    (resolved : ResolvedClauses r table clauses env after) :
    Follows (Trail.Tidy env opened) (traceClauses r traced clauses opened) (evaluateClauses r call clauses)
      (Trail.Tidy after (Opened.extend opened (declaresTests clauses))) := by
  cases resolved with
  | nil =>
      rw [traceClauses, evaluateClauses, declaresTests, Opened.extend_nil]
      exact .pure _
  | cons test consequent rest =>
      rw [traceClauses, evaluateClauses, declaresTests, ← Opened.extend_extend]
      refine (trace_follows known answers opened test).bind fun v => ?_
      split
      · refine .enter fun number => ?_
        refine (trace_follows known answers _ consequent).imp fun t tidy => ⟨?_, tidy.locals⟩
        exact tidy.kept.pop.skipClauses rest
      · rw [consequent.within.pop] at rest
        exact traceClauses_follows known answers _ rest

end

end Expressions

end Resolution

end LispMachine
