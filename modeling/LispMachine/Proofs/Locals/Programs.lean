import LispMachine.Proofs.Compiler
import LispMachine.Proofs.Expression.Nodes
import LispMachine.Proofs.Locals.Reads

set_option autoImplicit false

namespace LispMachine

variable {σ : Type}

theorem Past.find_parameters {names : List String} {values : List Value} {first : Nat} {stores : List Store}
    (same : values.length = names.length) (room : first + names.length ≤ UInt16.size) (slot : UInt16) :
    (((parameters names values first stores).find? (·.slot = slot)).map Store.value).getD .nil =
      if first ≤ slot.toNat ∧ slot.toNat < first + values.length then (values[slot.toNat - first]?).getD .nil
      else ((stores.find? (·.slot = slot)).map Store.value).getD .nil := by
  induction names generalizing values first stores with
  | nil =>
      cases values with
      | cons => cases same
      | nil =>
          rw [if_neg (by simp only [List.length_nil]; omega)]
          rfl
  | cons name names ih =>
      cases values with
      | nil => cases same
      | cons v values =>
          simp only [List.length_cons] at same room ⊢
          rw [parameters, ih (by omega) (by omega), List.find?_cons]
          have number : (UInt16.ofNat first).toNat = first := UInt16.toNat_ofNat_of_lt' (by omega)
          by_cases here : UInt16.ofNat first = slot
          · rw [← here, number, if_neg (by omega), if_pos (by omega)]
            simp
          · have apart : first ≠ slot.toNat := fun equal => here (UInt16.toNat_inj.mp (number.trans equal))
            simp only [here, decide_false]
            by_cases later : first + 1 ≤ slot.toNat ∧ slot.toNat < first + 1 + values.length
            · rw [if_pos later, if_pos (by omega)]
              rw [show slot.toNat - first = slot.toNat - (first + 1) + 1 by omega]
              simp
            · rw [if_neg later, if_neg (by omega)]

namespace Kept

open Resolution

theorem parameters (before : List String) {names : List String} {values : List Value}
    {env inside : Environment} {stores : List Store} (declared : Declared names env inside)
    (kept : Kept env [⟨0, before⟩] ⟨1, stores, []⟩) (next : env.nextSlot = before.length)
    (distinct : (before ++ names).Nodup) (same : values.length = names.length) :
    Kept inside [⟨0, before ++ names⟩] ⟨1, Past.parameters names values before.length stores, []⟩ := by
  induction declared generalizing before values stores with
  | nil =>
      cases values with
      | cons => cases same
      | nil => simpa [Past.parameters] using kept
  | @cons name rest env inner after slot first _ ih =>
      cases values with
      | nil => cases same
      | cons v values =>
          have new : name ∉ before := fun again =>
            (List.nodup_append.mp distinct).2.2 name again name List.mem_cons_self rfl
          have absent := kept.aligned.names.only name new
          obtain ⟨found, _⟩ | ⟨_, _, number, shape⟩ := Environment.declare_cases first
          · rw [absent] at found
            cases found
          · have stored := (kept.declare first).store (Environment.names_of_declare first) v
            have place : slot = UInt16.ofNat before.length := by
              rw [← next, ← number, UInt16.ofNat_toNat]
            rw [place] at stored
            have rest := ih (before ++ [name]) stored (by simp [shape, next])
              (by simpa using distinct) (by simpa using same)
            simpa [Past.parameters] using rest

end Kept

namespace Resolution

open Expression

variable {r : Resolution} {table : Table} {past : Past}

theorem Resolved.not_definition {e : Expression} {env after : Environment}
    (resolved : Resolved r table e env after) : e.definition? = none := by
  cases resolved <;> rfl

def Prepared (r : Resolution) (table : Table) (d : Definition) : Prop :=
  ∃ env inside inner past, Kept env [] past ∧ Declared d.params (env.push .function) inside ∧
    Resolved r table d.body inside inner

theorem ResolvedForms.prepared {forms : List Expression} {env after : Environment}
    (resolved : ResolvedForms r table forms env after) (kept : Kept env [] past) :
    ∀ d ∈ definitions forms, Prepared r table d := by
  induction resolved with
  | nil => simp [definitions]
  | @function name params body p rest env inside inner after index _ _ declared resolved _ ih =>
      rw [definitions_of_some rfl, List.forall_mem_cons]
      rw [(declared.within.trans resolved.within).pop] at ih
      exact ⟨⟨env, inside, inner, past, kept, declared, resolved⟩, ih kept⟩
  | form resolved _ ih =>
      have plain : Expression.definition? _ = none := resolved.not_definition
      rw [definitions_of_none plain]
      exact ih (kept.skip resolved)

theorem enter_tidy {d : Definition} {env inside : Environment} (kept : Kept env [] past)
    (declared : Declared d.params (env.push .function) inside) (distinct : d.params.Nodup)
    (small : d.params.length ≤ maxArity) {args : List Value} (same : args.length = d.params.length)
    (world : World σ) : (Trail.enter d.params args world).Tidy inside [⟨0, d.params⟩] where
  kept := Kept.parameters [] declared kept.call rfl distinct same
  locals slot := by
    have room : 0 + d.params.length ≤ UInt16.size := by
      simp only [maxArity] at small
      simp only [UInt16.size]
      omega
    simp only [Trail.enter, Activation.enter, Past.find_parameters same room]
    split
    next => simp
    next beyond =>
      rw [List.getElem?_eq_none (by omega)]
      rfl

variable [LineSink σ] {defs : List Definition}

theorem invoke_answers (known : r.Knows table defs) (prepared : ∀ d ∈ defs, Prepared r table d)
    (distinct : ∀ d ∈ defs, d.params.Nodup) (limit room : Nat) :
    Answers defs (traceInvoke r defs limit room : TracedCalls σ) (invoke r defs limit room) := by
  induction room with
  | zero =>
      intro index args world d _ _
      exact ⟨rfl, by simp⟩
  | succ room ih =>
      intro index args world d listed same
      have member := List.mem_of_getElem? listed
      obtain ⟨env, inside, inner, past, kept, declared, body⟩ := prepared d member
      have start := enter_tidy kept declared (distinct d member) (known.lists.arity d member) same world
      have done := (trace_follows known ih [⟨0, d.params⟩] body).result start
      simp only [traceInvoke, invoke, listed]
      rcases found : trace r (traceInvoke r defs limit room) d.body [⟨0, d.params⟩]
        (.enter d.params args world) with ⟨result, t⟩
      rw [found] at done
      have evaluated : evaluate r (invoke r defs limit room) d.body (.enter args world) = _ := done.1
      rw [evaluated]
      exact ⟨rfl, done.2⟩

theorem traceForms_follows (known : r.Knows table defs) {traced : TracedCalls σ} {call : Calls σ}
    (answers : Answers defs traced call) {forms : List Expression} {env after : Environment}
    (resolved : ResolvedForms r table forms env after) (last : Value) :
    Follows (Trail.Tidy env []) (traceSequence r traced forms [] last) (evaluateSequence r call forms last)
      (Trail.Tidy after []) := by
  induction resolved generalizing last with
  | nil =>
      rw [traceSequence, evaluateSequence]
      exact .pure last
  | function _ _ declared resolved _ ih =>
      rw [(declared.within.trans resolved.within).pop] at ih
      rw [traceSequence, evaluateSequence, trace, evaluate]
      exact (Follows.pure _).bind fun v => ih v
  | form resolved _ ih =>
      rw [traceSequence, evaluateSequence]
      exact (trace_follows known answers [] resolved).bind fun v => ih v

end Resolution

namespace Expression

variable [LineSink σ]

theorem traceProgram_spec {text : String} {forms : List Expression} {p : Position} {r : Resolution}
    (parsed : parse text = .ok (.block forms p)) (resolved : resolve (.block forms p) = .ok r)
    (limit : Nat) (output : σ) :
    match traceProgram r limit (.block forms p) output with
    | (result, world, reads) => evaluateProgram r limit (.block forms p) output = (result, world) ∧
        ∀ read ∈ reads, read.Explained := by
  obtain ⟨forms', p', same, distinct⟩ := parse_block parsed
  cases same
  obtain ⟨table, after, lists, functions, resolved⟩ := Resolution.resolve_forms distinct resolved
  have known : r.Knows table (definitions forms) := ⟨lists, functions⟩
  have kept : Kept .global [] ⟨1, [], []⟩ := by
    constructor
    case sound => exact Environment.sound_global
    case aligned => exact .global ⟨rfl, by simp [Environment.global]⟩
    case held =>
      intro owner slot live
      cases live
    all_goals simp
  have names : ∀ d ∈ definitions forms, d.params.Nodup := by
    intro d member
    obtain ⟨e, listed, defined⟩ := List.mem_filterMap.mp member
    have unique := parse_distinct parsed e listed
    rw [definition?_eq_some defined] at unique
    exact unique
  have answers : Resolution.Answers (definitions forms)
      (traceInvoke r (definitions forms) limit (limit - 1) : TracedCalls σ) _ :=
    Resolution.invoke_answers known (resolved.prepared kept) names limit (limit - 1)
  have start : (Trail.enter [] [] ⟨∅, output⟩ : Trail σ).Tidy .global [] := ⟨kept, fun slot => by
    simp [Trail.enter, Activation.enter, Past.parameters]⟩
  have done := (Resolution.traceForms_follows known answers resolved .nil).result start
  simp only [traceProgram, evaluateProgram, evaluate, topLevel]
  rcases found : traceSequence r (traceInvoke r (definitions forms) limit (limit - 1)) forms [] .nil
    (.enter [] [] ⟨∅, output⟩) with ⟨result, t⟩
  rw [found] at done
  have evaluated : evaluateSequence r (invoke r (definitions forms) limit (limit - 1)) forms .nil
    (.enter [] ⟨∅, output⟩) = _ := done.1
  rw [evaluated]
  exact ⟨rfl, done.2⟩

end Expression

theorem Read.Explained.value_eq_own_iff {read : Read} (explained : read.Explained) :
    read.value = read.own?.getD .nil ↔ read.own?.isSome ∨ read.leftover = .nil := by
  cases stored : read.own? with
  | some v => simp [explained.own v stored]
  | none => simp [explained.leftover stored]

/-- The reads of a compiled program. One gives what its local does not have exactly if nothing was
stored in the local, and a local that is gone left something in the slot. -/
theorem run_reads {name text : String} {unit : CompiledUnit} (compiled : compile name text = .ok unit) :
    ∃ program r, parse text = .ok program ∧ resolve program = .ok r ∧
      generate r name program = .ok unit ∧
      ∀ (σ : Type) [LineSink σ] (m : Machine σ),
        match program.traceProgram r m.limit m.world.output with
        | (result, world, reads) =>
            (∃ least, ∀ fuel, least ≤ fuel → m.run fuel unit = some (result, { m with world })) ∧
              ∀ read ∈ reads, (∃ owner, read.owner? = some owner) ∧
                (read.value = read.own?.getD .nil ↔ read.own?.isSome ∨ read.leftover = .nil) ∧
                (read.own? = none → read.value = read.leftover ∧
                  ∀ store, read.last? = some store →
                    ∀ scope ∈ read.opened, scope.number ≠ store.owner.scope) := by
  obtain ⟨forms, p, r, parsed, resolved, generated, implements⟩ := compile_implements compiled
  refine ⟨.block forms p, r, parsed, resolved, generated, fun σ _ m => ?_⟩
  have traced := Expression.traceProgram_spec parsed resolved m.limit m.world.output
  have halts := Machine.halts_of_implements implements m.limit m.world.output
  rcases found : Expression.traceProgram r m.limit (.block forms p) m.world.output with
    ⟨result, world, reads⟩
  rw [found] at traced
  rw [traced.1] at halts
  refine ⟨Machine.run_of_halts halts, fun read member => ?_⟩
  have explained := traced.2 read member
  exact ⟨explained.owner, explained.value_eq_own_iff,
    fun unstored => ⟨explained.leftover unstored, explained.retired unstored⟩⟩

theorem trace_skipped [LineSink σ] (limit : Nat) (output : σ) :
    skipped.traceProgram skippedResolution limit output =
      (.ok (.long 1), ⟨∅, output⟩, [⟨"b", 0, .long 1, [⟨2, ["b"]⟩], [⟨⟨1, "a"⟩, 0, .long 1⟩]⟩]) := by
  obtain ⟨first, _, third⟩ := skipped_bindings
  simp [Expression.traceProgram, skipped, Expression.topLevel, Expression.trace, Expression.traceSequence,
    Expression.declares, Resolution.traceLoad, Resolution.traceStore, Resolution.load, Resolution.store,
    Resolution.noteRead, Resolution.noteStore, Tracing.bind_apply, Tracing.lift, Tracing.note,
    Tracing.enter, Evaluation.load, Evaluation.store, Activation.enter, Activation.store, Trail.enter,
    Past.parameters, Opened.extend, Literal.value, Value.isTruthy, first, third, -bind_pure_comp]

theorem reads_skipped : ∃ unit,
    compile "skipped" "(do (def a 1)) (do (if false (def b 2) 0) b)" = .ok unit ∧
      ∃ read ∈ (skipped.traceProgram skippedResolution (Machine.new Buffer.unbounded).limit
          Buffer.unbounded).2.2,
        read.own? = none ∧ read.leftover = .long 1 ∧ read.value = read.leftover ∧
          read.value ≠ read.own?.getD .nil := by
  obtain ⟨unit, compiled⟩ := compile_skipped
  obtain ⟨program, r, parsed, resolved, _, traced⟩ := run_reads compiled
  rw [parse_skipped] at parsed
  cases parsed
  rw [resolve_skipped] at resolved
  cases resolved
  have traced := traced Buffer (Machine.new Buffer.unbounded)
  rw [trace_skipped] at traced ⊢
  obtain ⟨_, explained⟩ := traced
  obtain ⟨_, fresh, stale⟩ := explained _ (List.mem_singleton_self _)
  refine ⟨unit, compiled, _, List.mem_singleton_self _, rfl, rfl, (stale rfl).1, fun same => ?_⟩
  rcases fresh.mp same with own | clear
  · cases own
  · cases clear

end LispMachine
