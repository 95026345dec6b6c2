import LispMachine.Proofs.Evaluation
import LispMachine.Proofs.Layout
import LispMachine.Proofs.Machine.Instructions

set_option autoImplicit false

namespace LispMachine.Machine

namespace Context

variable {σ α β : Type} [LineSink σ] {c : Context} {i : Nat} {stack : List Value}

def method (c : Context) : Method := ⟨c.unit.constants, c.chunk⟩

def Holds (c : Context) (locals : Array Value) (slots : UInt16 → Value) : Prop :=
  ∀ slot : UInt16, slot.toNat < c.chunk.maxLocals.toNat → locals[slot.toNat]? = some (slots slot)

-- From instruction `i` the machine does what `x` does and goes on where `resume` says.
def Simulates (c : Context) (i : Nat) (stack : List Value) (x : Evaluation σ α)
    (resume : α → Nat × List Value) : Prop :=
  ∀ (a : Activation σ) (locals : Array Value), c.Holds locals a.locals →
    match x a with
    | (.ok v, a') => ∃ locals', c.Holds locals' a'.locals ∧
        Reaches c.unit c.limit (c.state a.world locals i stack)
          (c.state a'.world locals' (resume v).1 (resume v).2)
    | (.error fault, a') => Halts c.unit c.limit (c.state a.world locals i stack) (.error fault) a'.world

namespace Simulates

theorem pure {v : α} {resume : α → Nat × List Value} (here : resume v = (i, stack)) :
    c.Simulates i stack (Pure.pure v : Evaluation σ α) resume := by
  intro a locals holds
  refine ⟨locals, holds, ?_⟩
  rw [here]
  exact .refl

theorem bindOf {P : α → Prop} {x : Evaluation σ α} {f : α → Evaluation σ β}
    {middle : α → Nat × List Value} {resume : β → Nat × List Value} (first : c.Simulates i stack x middle)
    (possible : ∀ a v a', x a = (.ok v, a') → P v)
    (second : ∀ v, P v → c.Simulates (middle v).1 (middle v).2 (f v) resume) :
    c.Simulates i stack (x >>= f) resume := by
  intro a locals holds
  have start := first a locals holds
  simp only [Bind.bind]
  rcases found : x a with ⟨fault | v, a₁⟩
  · rw [found] at start
    exact start
  · rw [found] at start
    obtain ⟨locals₁, holds₁, reaches₁⟩ := start
    have later := second v (possible a v a₁ found) a₁ locals₁ holds₁
    split at later
    next w a₂ found =>
      obtain ⟨locals₂, holds₂, reaches₂⟩ := later
      simp only [found]
      exact ⟨locals₂, holds₂, reaches₁.trans reaches₂⟩
    next fault a₂ found =>
      simp only [found]
      exact reaches₁.halts later

theorem bind {x : Evaluation σ α} {f : α → Evaluation σ β} {middle : α → Nat × List Value}
    {resume : β → Nat × List Value} (first : c.Simulates i stack x middle)
    (second : ∀ v, c.Simulates (middle v).1 (middle v).2 (f v) resume) :
    c.Simulates i stack (x >>= f) resume :=
  bindOf first (fun _ _ _ _ => trivial) fun v _ => second v

theorem after {x : Evaluation σ α} {resume : α → Nat × List Value} {j : Nat} {stack' : List Value}
    (stepped : ∀ (world : World σ) locals, step c.unit c.limit (c.state world locals i stack) =
      .next (c.state world locals j stack'))
    (rest : c.Simulates j stack' x resume) : c.Simulates i stack x resume := by
  intro a locals holds
  have later := rest a locals holds
  split at later
  next v a' _ =>
    obtain ⟨locals', holds', reaches⟩ := later
    exact ⟨locals', holds', .head (stepped _ _) reaches⟩
  next fault a' _ =>
    exact .next (stepped _ _) later

theorem before {x : Evaluation σ α} {middle resume : α → Nat × List Value}
    (rest : c.Simulates i stack x middle)
    (stepped : ∀ v (world : World σ) locals,
      step c.unit c.limit (c.state world locals (middle v).1 (middle v).2) =
        .next (c.state world locals (resume v).1 (resume v).2)) :
    c.Simulates i stack x resume := by
  intro a locals holds
  have first := rest a locals holds
  split at first
  next v a' _ =>
    obtain ⟨locals', holds', reaches⟩ := first
    exact ⟨locals', holds', reaches.trans (.single (stepped v _ _))⟩
  next => exact first

theorem single {x : Evaluation σ α} {resume : α → Nat × List Value}
    (stepped : ∀ (a : Activation σ) locals, c.Holds locals a.locals →
      match x a with
      | (.ok v, a') => ∃ locals', c.Holds locals' a'.locals ∧
          step c.unit c.limit (c.state a.world locals i stack) =
            .next (c.state a'.world locals' (resume v).1 (resume v).2)
      | (.error fault, a') =>
          step c.unit c.limit (c.state a.world locals i stack) = .stop (.error fault) a'.world) :
    c.Simulates i stack x resume := by
  intro a locals holds
  have once := stepped a locals holds
  split at once
  next =>
    obtain ⟨locals', holds', stepped⟩ := once
    exact ⟨locals', holds', .single stepped⟩
  next => exact .stop once

end Simulates

theorem Holds.set {locals : Array Value} {slots : UInt16 → Value} (holds : c.Holds locals slots)
    (slot : UInt16) (v : Value) :
    c.Holds (locals.set! slot.toNat v) (fun other => if other = slot then v else slots other) := by
  intro other small
  have old := holds other small
  have inside := (Array.getElem?_eq_some_iff.mp old).1
  by_cases same : other = slot
  · subst same
    simp [inside]
  · have apart : slot.toNat ≠ other.toNat := fun equal => same (UInt16.toNat_inj.mp equal.symm)
    simp [same, apart, old]

omit [LineSink σ] in
theorem Holds.enter (c : Context) (args : List Value) (world : World σ) :
    c.Holds (Frame.enter c.chunk args).locals (Activation.enter args world).locals := by
  intro slot small
  simp only [Frame.enter, Activation.enter]
  by_cases given : slot.toNat < args.length
  · simp [Array.getElem?_append, given]
  · have rest : slot.toNat - args.length < c.chunk.maxLocals.toNat - args.length := by omega
    simp [Array.getElem?_append, given, rest]

section Primitives

variable {r : Resolution} {defs : List Definition} {id depth : Nat} {p : Position} {op : Opcode} {b : Binding}

theorem step_literal {value : Literal} {world : World σ} {locals : Array Value}
    (pushes : Pushes c.unit.constants value op) (placed : Placed c.method depth i op p) :
    step c.unit c.limit (c.state world locals i stack) =
      .next (c.state world locals (i + 1) (value.value :: stack)) := by
  cases pushes with
  | nil => exact step_pushNil placed.code
  | yes => exact step_pushTrue placed.code
  | no => exact step_pushFalse placed.code
  | @short n low high =>
      have same : n.toInt16.toInt64 = n := by
        apply Int64.toInt_inj.mp
        rw [Int16.toInt_toInt64, Int64.toInt_toInt16]
        rw [Int16.toInt_minValue] at low
        rw [Int16.toInt_maxValue] at high
        apply Int.bmod_eq_of_le <;> omega
      rw [step_pushShort placed.code, same]
      rfl
  | pooled found =>
      rw [Literal.value_datum]
      exact step_loadConst placed.code found

theorem simulates_load (linked : c.unit.Linked r defs) (entry : r.bindings[id]? = some b) (fits : r.Fits b)
    (loads : Loads c.unit.constants b op) (placed : Placed c.method depth i op p) :
    c.Simulates i stack (r.load id : Evaluation σ Value) fun v => (i + 1, v :: stack) := by
  apply Simulates.single
  intro a locals holds
  cases loads with
  | @slot index =>
      simp only [Resolution.load, entry, Evaluation.load]
      exact ⟨locals, holds, step_loadLocal placed.code (holds index (placed.slot index rfl))⟩
  | @global name index found =>
      simp only [Resolution.load, entry, Evaluation.readGlobal]
      cases set : a.world.globals[name]? with
      | some v => exact ⟨locals, holds, step_loadGlobal placed.code found set⟩
      | none => exact step_loadGlobal_unset placed.code found set
  | @function index =>
      obtain ⟨d, chunk, _, same, found, implements, _⟩ :=
        linked.method (Array.getElem?_eq_getElem fits)
      have name : r.functionName index = chunk.name := by
        rw [Resolution.functionName, Array.getElem?_eq_getElem fits, ← same, implements.name]
        rfl
      simp only [Resolution.load, entry, Pure.pure, name]
      exact ⟨locals, holds, step_loadFunction placed.code found⟩

theorem simulates_store {v : Value} (entry : r.bindings[id]? = some b)
    (stores : Stores c.unit.constants b op) (placed : Placed c.method depth i op p) :
    c.Simulates i (v :: stack) (r.store id v : Evaluation σ Unit) fun _ => (i + 1, stack) := by
  apply Simulates.single
  intro a locals holds
  cases stores with
  | @slot index =>
      simp only [Resolution.store, entry, Evaluation.store]
      have inside := (Array.getElem?_eq_some_iff.mp (holds index (placed.slot index rfl))).1
      exact ⟨_, holds.set index v, step_storeLocal placed.code inside⟩
  | @global name index found =>
      simp only [Resolution.store, entry, Evaluation.writeGlobal]
      exact ⟨locals, holds, step_storeGlobal placed.code found⟩

theorem simulates_builtin {builtin : Builtin} {args : List Value} {argc : UInt8}
    (few : args.length = argc.toNat) (arity : builtin.arity = args.length)
    (code : c.chunk.code[i]? = some ⟨.callBuiltin builtin argc, some p⟩) :
    c.Simulates i (args.reverse ++ stack) (builtin.evaluate args p : Evaluation σ Value)
      fun v => (i + 1, v :: stack) := by
  apply Simulates.single
  intro a locals holds
  by_cases prints : builtin = .println
  · subst prints
    obtain ⟨v, rfl⟩ := List.length_eq_one_iff.mp arity.symm
    have stepped : step c.unit c.limit (c.state a.world locals i (v :: stack)) = _ :=
      step_println code few.symm
    simp only [Builtin.evaluate, Evaluation.printLine, bind, pure]
    rcases written : LineSink.writeLine a.world.output v.text with ⟨output, _ | reason⟩ <;>
      simp only [written] at stepped ⊢
    · exact ⟨locals, holds, stepped⟩
    · exact stepped
  · have stepped : step c.unit c.limit (c.state a.world locals i (args.reverse ++ stack)) = _ :=
      step_callBuiltin prints code few
    rw [Builtin.evaluate_of_ne prints arity]
    cases applied : builtin.apply args with
    | ok v =>
        simp only [Evaluation.ofExcept, applied] at stepped ⊢
        exact ⟨locals, holds, stepped⟩
    | error fault =>
        simp only [Evaluation.ofExcept, applied] at stepped ⊢
        exact stepped

end Primitives

def Answers (c : Context) (r : Resolution) (call : Calls σ) : Prop :=
  ∀ (i : Nat) (args stack : List Value) (index : UInt16) (argc : UInt8) (q : Option Position),
    c.chunk.code[i]? = some ⟨.invoke index argc, q⟩ → args.length = argc.toNat →
    r.Takes args.length (.function index) →
    c.Simulates i (args.reverse ++ stack) (Evaluation.onWorld (call index args))
      fun v => (i + 1, v :: stack)

section Expressions

variable {r : Resolution} {defs : List Definition} {call : Calls σ}

theorem simulates_apply {id depth : Nat} {p : Position} {callee : Callee}
    (answers : c.Answers r call) (args : List Value)
    (called : Called r c.method depth i id args.length p callee) :
    c.Simulates i (args.reverse ++ stack) (r.apply call id args p) fun v => (i + 1, v :: stack) := by
  have few : args.length = (UInt8.ofNat args.length).toNat :=
    (UInt8.toNat_ofNat_of_lt' (Nat.lt_succ_of_le called.few)).symm
  have code := called.placed.code
  have takes := called.takes
  rw [Resolution.apply, called.entry]
  cases callee with
  | builtin builtin => exact simulates_builtin few takes code
  | function index => exact answers i args stack index _ _ code few takes

theorem simulates_stages {stages : List Stage} {depth stop : Nat} {v : Value}
    (answers : c.Answers r call)
    (laid : LaidStages r c.method stages depth i stop) :
    c.Simulates i (v :: stack) (Expression.evaluateStages r call stages v)
      fun v => (stop, v :: stack) := by
  induction stages generalizing i v with
  | nil =>
      cases laid
      exact .pure rfl
  | cons stage rest ih =>
      cases laid with
      | cons called laid => exact .bind (simulates_apply answers [v] called) fun v => ih laid

theorem simulates_arms {x y : Evaluation σ Value} {depth j k stop : Nat} {p : Position}
    {toElse toEnd : UInt32} {v : Value} (skip : Placed c.method (depth + 1) j (.jumpIfFalse toElse) p)
    (leave : Placed c.method (depth + 1) k (.jump toEnd) p) (behind : toElse.toNat = k + 1)
    (ending : toEnd.toNat = stop) (inside : stop ≤ c.chunk.code.size)
    (yes : c.Simulates (j + 1) stack x fun w => (k, w :: stack))
    (no : c.Simulates (k + 1) stack y fun w => (stop, w :: stack)) :
    c.Simulates j (v :: stack) (if v.isTruthy then x else y) fun w => (stop, w :: stack) := by
  have target : toElse.toNat ≤ c.chunk.code.size := behind ▸ leave.inside
  cases truth : v.isTruthy with
  | true =>
      refine .after (fun world locals => ?_) (yes.before fun w _ _ => ?_)
      · rw [step_jumpIfFalse skip.code target, truth]
        rfl
      · rw [← ending]
        exact step_jump leave.code (ending ▸ inside)
  | false =>
      refine .after (fun world locals => ?_) no
      rw [step_jumpIfFalse skip.code target, truth, behind]
      rfl

mutual

theorem simulates (linked : c.unit.Linked r defs) (answers : c.Answers r call)
    (e : Expression) {depth i stop : Nat} {stack : List Value} (laid : Laid r c.method e depth i stop) :
    c.Simulates i stack (e.evaluate r call) fun v => (stop, v :: stack) := by
  cases laid with
  | constant pushes placed =>
      exact .after (fun _ _ => step_literal pushes placed) (.pure rfl)
  | symbol entry fits loads placed => exact simulates_load linked entry fits loads placed
  | define value dup entry stores store =>
      refine .bind (simulates linked answers _ value) fun v => .after (fun _ _ => step_dup dup.code) ?_
      exact .bind (simulates_store entry stores store) fun _ => .pure rfl
  | function entry listed placed =>
      obtain ⟨d, chunk, _, same, found, implements, _⟩ := linked.method listed
      refine .after (fun _ _ => step_loadFunction placed.code found) (.pure ?_)
      have name : d.name = _ := congrArg Signature.name same
      rw [implements.name, name]
  | bind entry bound store body =>
      refine .bind (simulates linked answers _ bound) fun v => ?_
      exact .bind (simulates_store entry .slot store) fun _ => simulates linked answers _ body
  | branch condition skip yes leave behind no ending =>
      refine .bind (simulates linked answers _ condition) fun v => ?_
      exact simulates_arms skip leave behind ending no.inside (simulates linked answers _ yes)
        (simulates linked answers _ no)
  | block body => exact simulates_sequence linked answers _ body
  | cond clauses => exact simulates_clauses linked answers _ clauses
  | call args called =>
      refine .bindOf (simulates_arguments linked answers _ args)
        (fun _ _ _ done => Expression.length_of_evaluateArguments done) fun values many => ?_
      exact simulates_apply answers values (many ▸ called)
  | compose first stages =>
      exact .bind (simulates linked answers _ first) fun v => simulates_stages answers stages

theorem simulates_arguments (linked : c.unit.Linked r defs)
    (answers : c.Answers r call) (es : List Expression) {depth i stop : Nat}
    {stack : List Value} (laid : LaidArguments r c.method es depth i stop) :
    c.Simulates i stack (Expression.evaluateArguments r call es)
      fun values => (stop, values.reverse ++ stack) := by
  cases laid with
  | nil => exact .pure rfl
  | cons first rest =>
      refine .bind (simulates linked answers _ first) fun v => ?_
      refine .bind (simulates_arguments linked answers _ rest) fun values => .pure ?_
      simp

theorem simulates_sequence (linked : c.unit.Linked r defs)
    (answers : c.Answers r call) (es : List Expression) {p : Position}
    {depth i stop : Nat} {stack : List Value} (laid : LaidSequence r c.method p es depth i stop) :
    c.Simulates i stack (Expression.evaluateSequence r call es .nil) fun v => (stop, v :: stack) := by
  cases laid with
  | nil placed => exact .after (fun _ _ => step_pushNil placed.code) (.pure rfl)
  | cons first rest =>
      exact .bind (simulates linked answers _ first) fun v => simulates_following linked answers _ rest

theorem simulates_following (linked : c.unit.Linked r defs)
    (answers : c.Answers r call) (es : List Expression) {depth i stop : Nat}
    {stack : List Value} {last : Value} (laid : LaidFollowing r c.method es depth i stop) :
    c.Simulates i (last :: stack) (Expression.evaluateSequence r call es last)
      fun v => (stop, v :: stack) := by
  cases laid with
  | nil => exact .pure rfl
  | cons drop first rest =>
      refine .after (fun _ _ => step_pop drop.code) ?_
      exact .bind (simulates linked answers _ first) fun v => simulates_following linked answers _ rest

theorem simulates_clauses (linked : c.unit.Linked r defs)
    (answers : c.Answers r call) (clauses : List (Expression × Expression))
    {p : Position} {depth i stop : Nat} {stack : List Value}
    (laid : LaidClauses r c.method p clauses depth i stop) :
    c.Simulates i stack (Expression.evaluateClauses r call clauses) fun v => (stop, v :: stack) := by
  cases laid with
  | nil placed => exact .after (fun _ _ => step_pushNil placed.code) (.pure rfl)
  | cons test skip consequent leave behind rest ending =>
      refine .bind (simulates linked answers _ test) fun v => ?_
      exact simulates_arms skip leave behind ending rest.inside (simulates linked answers _ consequent)
        (simulates_clauses linked answers _ rest)

end

theorem simulates_method {e : Expression} (answers : c.Answers r call) (linked : c.unit.Linked r defs)
    (runs : Runs r c.method e) : ∃ stop q, c.chunk.code[stop]? = some ⟨.ret, q⟩ ∧
      c.Simulates 0 [] (e.evaluate r call) fun v => (stop, [v]) := by
  obtain ⟨stop, p, laid, ret, _⟩ := runs
  exact ⟨stop, some p, ret.code, simulates linked answers e laid⟩

end Expressions

-- Functions answer in frames of their own, as long as there is room for one more.
theorem invoke_answers {r : Resolution} {defs : List Definition} {room : Nat}
    (linked : c.unit.Linked r defs) (free : c.limit - c.depth = room) :
    c.Answers r (Expression.invoke r defs c.limit room : Calls σ) := by
  induction room generalizing c with
  | zero =>
      intro i args stack index argc q code few ⟨signature, listed, arity⟩ a locals _
      obtain ⟨d, callee, _, _, found, _, same⟩ := linked.method listed
      have takes : callee.arity = argc := same.trans (UInt8.toNat_inj.mp (arity.trans few))
      apply Halts.stop
      rw [step_invoke code found takes few, if_pos (Nat.le_of_sub_eq_zero free)]
  | succ room ih =>
      intro i args stack index argc q code few ⟨signature, listed, arity⟩ a locals holds
      obtain ⟨d, callee, at_index, _, found, implements, same⟩ := linked.method listed
      have takes : callee.arity = argc := same.trans (UInt8.toNat_inj.mp (arity.trans few))
      have entered : step c.unit c.limit (c.state a.world locals i (args.reverse ++ stack)) = _ :=
        step_invoke code found takes few
      rw [if_neg (by omega)] at entered
      have answers : (c.calling callee locals (i + 1) stack).Answers r
          (Expression.invoke r defs c.limit room : Calls σ) :=
        ih linked (by simp only [calling]; omega)
      obtain ⟨stop, q, ret, body⟩ := simulates_method answers linked implements.runs
      have ran := body (.enter args a.world) _ (Holds.enter _ args a.world)
      simp only [Evaluation.onWorld, Expression.invoke, at_index]
      split at ran
      next v a' found =>
        simp only [found]
        obtain ⟨locals', _, reaches⟩ := ran
        refine ⟨locals, holds, .head entered (reaches.trans (.single ?_))⟩
        exact step_ret_caller ret rfl
      next fault a' found =>
        simp only [found]
        exact .next entered ran

end Context

theorem halts_of_implements {σ : Type} [LineSink σ] {r : Resolution} {forms : List Expression} {p : Position}
    {unit : CompiledUnit} (implements : unit.Implements r forms p) (limit : Nat) (output : σ) :
    Halts unit limit (start unit ⟨∅, output⟩)
      (Expression.evaluateProgram r limit (.block forms p) output).1
      (Expression.evaluateProgram r limit (.block forms p) output).2 := by
  let entry : Context := ⟨unit, limit, unit.entry, [], 1⟩
  have answers : entry.Answers r
      (Expression.invoke r (Expression.definitions forms) limit (limit - 1) : Calls σ) :=
    Context.invoke_answers implements.linked rfl
  obtain ⟨stop, q, ret, body⟩ := Context.simulates_method answers implements.linked implements.entry
  have ran := body (.enter [] ⟨∅, output⟩) _ (Context.Holds.enter _ [] ⟨∅, output⟩)
  simp only [Expression.evaluateProgram, Expression.topLevel]
  split at ran
  next v a found =>
    simp only [found]
    obtain ⟨locals, _, reaches⟩ := ran
    exact reaches.halts (.stop (Context.step_ret ret rfl))
  next fault a found =>
    simp only [found]
    exact ran

end LispMachine.Machine
