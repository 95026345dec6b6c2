import LispMachine.Proofs.Compiler

set_option autoImplicit false

namespace LispMachine

def CompiledUnit.Provides (unit : CompiledUnit) : Opcode → Prop
  | .loadConst index => ∃ d, unit.constants.get? index = some d
  | .loadGlobal index | .storeGlobal index => ∃ name, unit.constants.get? index = some (.str name)
  | .loadFunction index => ∃ chunk, unit.methods[index.toNat]? = some chunk
  | .invoke index argc => ∃ chunk, unit.methods[index.toNat]? = some chunk ∧ chunk.arity = argc
  | .callBuiltin builtin argc => builtin.arity = argc.toNat
  | _ => True

inductive Safe (unit : CompiledUnit) (chunk : Chunk) : Nat → Nat → Prop
  | ret {i p} : Placed ⟨unit.constants, chunk⟩ 1 i .ret p → Safe unit chunk i 1
  | next {i depth op p} : Placed ⟨unit.constants, chunk⟩ depth i op p → op.isTerminator = false →
      unit.Provides op → Safe unit chunk (i + 1) (depth - op.stackEffect.1 + op.stackEffect.2) →
      Safe unit chunk i depth
  | jump {i depth p} {target : UInt32} : Placed ⟨unit.constants, chunk⟩ depth i (.jump target) p →
      Safe unit chunk target.toNat depth → Safe unit chunk i depth
  | jumpIfFalse {i depth p} {target : UInt32} :
      Placed ⟨unit.constants, chunk⟩ (depth + 1) i (.jumpIfFalse target) p →
      Safe unit chunk (i + 1) depth → Safe unit chunk target.toNat depth → Safe unit chunk i (depth + 1)

theorem Safe.inside {unit : CompiledUnit} {chunk : Chunk} {i depth : Nat} (safe : Safe unit chunk i depth) :
    i < chunk.code.size := by
  cases safe with
  | ret placed => exact placed.inside
  | next placed => exact placed.inside
  | jump placed => exact placed.inside
  | jumpIfFalse placed => exact placed.inside

section Static

variable {r : Resolution} {defs : List Definition} {unit : CompiledUnit} {chunk : Chunk}

theorem Called.safe {depth i id argc : Nat} {p : Position} {callee : Callee}
    (linked : unit.Linked r defs) (called : Called r ⟨unit.constants, chunk⟩ depth i id argc p callee)
    (rest : Safe unit chunk (i + 1) (depth + 1)) : Safe unit chunk i (depth + argc) := by
  have count : (UInt8.ofNat argc).toNat = argc := UInt8.toNat_ofNat_of_lt' (Nat.lt_succ_of_le called.few)
  have takes := called.takes
  have placed := called.placed
  cases callee with
  | builtin builtin =>
      refine .next placed rfl (takes.trans count.symm) ?_
      simpa [Generator.callOpcode, Opcode.stackEffect, count] using rest
  | function index =>
      obtain ⟨signature, listed, arity⟩ := takes
      obtain ⟨d, callee, _, _, found, _, same⟩ := linked.method listed
      have equal : signature.arity = UInt8.ofNat argc := UInt8.toNat_inj.mp (arity.trans count.symm)
      refine .next placed rfl ⟨callee, found, same.trans equal⟩ ?_
      simpa [Generator.callOpcode, Opcode.stackEffect, count] using rest

theorem LaidStages.safe {stages : List Stage} {depth i stop : Nat} (linked : unit.Linked r defs)
    (laid : LaidStages r ⟨unit.constants, chunk⟩ stages depth i stop)
    (rest : Safe unit chunk stop (depth + 1)) : Safe unit chunk i (depth + 1) := by
  induction laid with
  | nil => exact rest
  | cons called _ ih => exact called.safe linked (ih rest)

theorem Placed.pushes {depth i : Nat} {op : Opcode} {p : Position}
    (placed : Placed ⟨unit.constants, chunk⟩ depth i op p) (effect : op.stackEffect = (0, 1))
    (plain : op.isTerminator = false) (provides : unit.Provides op)
    (rest : Safe unit chunk (i + 1) (depth + 1)) : Safe unit chunk i depth := by
  refine .next placed plain provides ?_
  rw [effect]
  exact rest

mutual

-- What the code of an expression needs is that the code behind it is safe.
theorem Laid.safe (linked : unit.Linked r defs) : ∀ {e : Expression} {depth i stop : Nat},
    Laid r ⟨unit.constants, chunk⟩ e depth i stop → Safe unit chunk stop (depth + 1) →
    Safe unit chunk i depth
  | _, _, _, _, .constant pushes placed, rest => by
      cases pushes with
      | nil => exact placed.pushes rfl rfl trivial rest
      | yes => exact placed.pushes rfl rfl trivial rest
      | no => exact placed.pushes rfl rfl trivial rest
      | short => exact placed.pushes rfl rfl trivial rest
      | pooled found => exact placed.pushes rfl rfl ⟨_, found⟩ rest
  | _, _, _, _, .symbol entry fits loads placed, rest => by
      cases loads with
      | slot => exact placed.pushes rfl rfl trivial rest
      | global found => exact placed.pushes rfl rfl ⟨_, found⟩ rest
      | function =>
          obtain ⟨_, callee, _, _, found, _⟩ := linked.method (Array.getElem?_eq_getElem fits)
          exact placed.pushes rfl rfl ⟨callee, found⟩ rest
  | _, _, _, _, .define value dup entry stores store, rest => by
      apply value.safe linked
      apply Safe.next dup rfl trivial
      cases stores with
      | slot => exact .next store rfl trivial rest
      | global found => exact .next store rfl ⟨_, found⟩ rest
  | _, _, _, _, .function entry listed placed, rest => by
      obtain ⟨_, callee, _, _, found, _⟩ := linked.method listed
      exact placed.pushes rfl rfl ⟨callee, found⟩ rest
  | _, _, _, _, .bind entry bound store body, rest =>
      bound.safe linked (.next store rfl trivial (body.safe linked rest))
  | _, _, _, _, .branch condition skip yes leave behind no ending, rest => by
      have last : Safe unit chunk _ _ := .jump leave (ending ▸ rest)
      exact condition.safe linked
        (.jumpIfFalse skip (yes.safe linked last) (behind ▸ no.safe linked rest))
  | _, _, _, _, .block body, rest => body.safe linked rest
  | _, _, _, _, .cond clauses, rest => clauses.safe linked rest
  | _, _, _, _, .call args called, rest => args.safe linked (called.safe linked rest)
  | _, _, _, _, .compose first stages, rest => first.safe linked (stages.safe linked rest)

theorem LaidArguments.safe (linked : unit.Linked r defs) : ∀ {es : List Expression} {depth i stop : Nat},
    LaidArguments r ⟨unit.constants, chunk⟩ es depth i stop →
    Safe unit chunk stop (depth + es.length) → Safe unit chunk i depth
  | _, _, _, _, .nil, rest => rest
  | _, depth, _, _, .cons first others, rest => by
      apply first.safe linked
      apply others.safe linked
      simpa [Nat.add_assoc, Nat.add_comm 1] using rest

theorem LaidSequence.safe (linked : unit.Linked r defs) :
    ∀ {p : Position} {es : List Expression} {depth i stop : Nat},
    LaidSequence r ⟨unit.constants, chunk⟩ p es depth i stop → Safe unit chunk stop (depth + 1) →
    Safe unit chunk i depth
  | _, _, _, _, _, .nil placed, rest => placed.pushes rfl rfl trivial rest
  | _, _, _, _, _, .cons first others, rest => first.safe linked (others.safe linked rest)

theorem LaidFollowing.safe (linked : unit.Linked r defs) :
    ∀ {es : List Expression} {depth i stop : Nat},
    LaidFollowing r ⟨unit.constants, chunk⟩ es depth i stop → Safe unit chunk stop (depth + 1) →
    Safe unit chunk i (depth + 1)
  | _, _, _, _, .nil, rest => rest
  | _, _, _, _, .cons drop first others, rest =>
      .next drop rfl trivial (first.safe linked (others.safe linked rest))

theorem LaidClauses.safe (linked : unit.Linked r defs) :
    ∀ {p : Position} {clauses : List (Expression × Expression)} {depth i stop : Nat},
    LaidClauses r ⟨unit.constants, chunk⟩ p clauses depth i stop → Safe unit chunk stop (depth + 1) →
    Safe unit chunk i depth
  | _, _, _, _, _, .nil placed, rest => placed.pushes rfl rfl trivial rest
  | _, _, _, _, _, .cons test skip consequent leave behind others ending, rest => by
      have last : Safe unit chunk _ _ := .jump leave (ending ▸ rest)
      exact test.safe linked
        (.jumpIfFalse skip (consequent.safe linked last) (behind ▸ others.safe linked rest))

end

theorem Runs.safe {e : Expression} (linked : unit.Linked r defs)
    (runs : Runs r ⟨unit.constants, chunk⟩ e) : Safe unit chunk 0 0 := by
  obtain ⟨stop, p, laid, ret, _⟩ := runs
  exact laid.safe linked (.ret ret)

structure CompiledUnit.Safe (unit : CompiledUnit) : Prop where
  entry : LispMachine.Safe unit unit.entry 0 0
  methods : ∀ (k : Nat) (chunk : Chunk), unit.methods[k]? = some chunk → LispMachine.Safe unit chunk 0 0

theorem CompiledUnit.Implements.safe {forms : List Expression} {p : Position}
    (implements : unit.Implements r forms p) : unit.Safe where
  entry := implements.entry.safe implements.linked
  methods k chunk found := by
    have linked := implements.linked
    have inside : k < (Expression.definitions forms).length :=
      linked.size ▸ (Array.getElem?_eq_some_iff.mp found).1
    obtain ⟨chunk', found', body⟩ := linked.methods k _ (List.getElem?_eq_getElem inside)
    rw [found] at found'
    cases found'
    exact body.runs.safe linked

end Static

theorem Fault.Refusal.atPosition_ne_corrupt {fault : Fault} (refusal : fault.Refusal) (q : Option Position)
    (corruption : Corruption) : fault.atPosition q ≠ .corrupt corruption := by
  cases fault with
  | mismatch | divisionByZero => exact nofun
  | _ => exact refusal.elim

namespace Machine

variable {σ : Type} {unit : CompiledUnit}

/-- A frame that has safe code ahead, where `expected` values of calls are still to come. -/
structure Frame.Safe (unit : CompiledUnit) (expected : Nat) (f : Frame) : Prop where
  code : LispMachine.Safe unit f.chunk f.pointer (f.stack.length + expected)
  stack : f.stack.length + expected ≤ f.chunk.maxStack.toNat
  locals : f.chunk.maxLocals.toNat ≤ f.locals.size

structure State.Safe (unit : CompiledUnit) (s : State σ) : Prop where
  active : Frame.Safe unit 0 s.frame
  callers : ∀ f ∈ s.callers, Frame.Safe unit 1 f

def Step.Safe (unit : CompiledUnit) : Step σ → Prop
  | .next s => s.Safe unit
  | .stop result _ => ∀ corruption, result ≠ .error (.corrupt corruption)

theorem Frame.Safe.enter {chunk : Chunk} {args : List Value} (safe : LispMachine.Safe unit chunk 0 0) :
    Frame.Safe unit 0 (Frame.enter chunk args) where
  code := safe
  stack := Nat.zero_le _
  locals := by simp [Frame.enter]; omega

theorem Frame.Safe.push {f : Frame} (safe : Frame.Safe unit 1 f) (v : Value) :
    Frame.Safe unit 0 (f.push v) :=
  ⟨safe.code, safe.stack, safe.locals⟩

namespace Context

variable [LineSink σ] {c : Context} {world : World σ} {locals locals' : Array Value} {i : Nat} {p : Position}
  {stack stack' : List Value} {op : Opcode}

omit [LineSink σ] in
theorem exists_args {argc : UInt8} (many : argc.toNat ≤ stack.length) :
    ∃ args rest : List Value, stack = args.reverse ++ rest ∧ args.length = argc.toNat :=
  ⟨(stack.take argc.toNat).reverse, stack.drop argc.toNat, by simp, by simp [Nat.min_eq_left many]⟩

omit [LineSink σ] in
theorem safe_advance (callers : ∀ f ∈ c.callers, Frame.Safe c.unit 1 f)
    (placed : Placed ⟨c.unit.constants, c.chunk⟩ stack.length i op p)
    (rest : LispMachine.Safe c.unit c.chunk (i + 1) (stack.length - op.stackEffect.1 + op.stackEffect.2))
    (length : stack'.length = stack.length - op.stackEffect.1 + op.stackEffect.2)
    (slots : c.chunk.maxLocals.toNat ≤ locals'.size) :
    (c.state world locals' (i + 1) stack').Safe c.unit :=
  ⟨⟨length.symm ▸ rest, length.symm ▸ placed.room, slots⟩, callers⟩

theorem step_safe_plain (sound : c.unit.Safe) (callers : ∀ f ∈ c.callers, Frame.Safe c.unit 1 f)
    (slots : c.chunk.maxLocals.toNat ≤ locals.size)
    (placed : Placed ⟨c.unit.constants, c.chunk⟩ stack.length i op p) (plain : op.isTerminator = false)
    (provides : c.unit.Provides op)
    (rest : LispMachine.Safe c.unit c.chunk (i + 1) (stack.length - op.stackEffect.1 + op.stackEffect.2)) :
    (step c.unit c.limit (c.state world locals i stack)).Safe c.unit := by
  have code := placed.code
  have pops := placed.pops
  cases op with
  | pushNil =>
      rw [step_pushNil code]
      exact safe_advance callers placed rest rfl slots
  | pushTrue =>
      rw [step_pushTrue code]
      exact safe_advance callers placed rest rfl slots
  | pushFalse =>
      rw [step_pushFalse code]
      exact safe_advance callers placed rest rfl slots
  | pushShort n =>
      rw [step_pushShort code]
      exact safe_advance callers placed rest rfl slots
  | loadConst index =>
      obtain ⟨d, found⟩ := provides
      rw [step_loadConst code found]
      exact safe_advance callers placed rest rfl slots
  | loadLocal slot =>
      have inside := Nat.lt_of_lt_of_le (placed.slot slot rfl) slots
      rw [step_loadLocal code (Array.getElem?_eq_getElem inside)]
      exact safe_advance callers placed rest rfl slots
  | storeLocal slot =>
      have inside := Nat.lt_of_lt_of_le (placed.slot slot rfl) slots
      obtain ⟨v, stack, rfl⟩ := List.exists_cons_of_length_pos pops
      rw [step_storeLocal code inside]
      exact safe_advance callers placed rest rfl (by simpa using slots)
  | loadGlobal index =>
      obtain ⟨name, found⟩ := provides
      cases set : world.globals[name]? with
      | none =>
          rw [step_loadGlobal_unset code found set]
          intro corruption same
          cases same
      | some v =>
          rw [step_loadGlobal code found set]
          exact safe_advance callers placed rest rfl slots
  | storeGlobal index =>
      obtain ⟨name, found⟩ := provides
      obtain ⟨v, stack, rfl⟩ := List.exists_cons_of_length_pos pops
      rw [step_storeGlobal code found]
      exact safe_advance callers placed rest rfl slots
  | loadFunction index =>
      obtain ⟨callee, found⟩ := provides
      rw [step_loadFunction code found]
      exact safe_advance callers placed rest rfl slots
  | dup =>
      obtain ⟨v, stack, rfl⟩ := List.exists_cons_of_length_pos pops
      rw [step_dup code]
      exact safe_advance callers placed rest rfl slots
  | pop =>
      obtain ⟨v, stack, rfl⟩ := List.exists_cons_of_length_pos pops
      rw [step_pop code]
      exact safe_advance callers placed rest rfl slots
  | jump target => cases plain
  | jumpIfFalse target => cases plain
  | ret => cases plain
  | invoke index argc =>
      obtain ⟨callee, found, arity⟩ := provides
      obtain ⟨args, stack, rfl, few⟩ := exists_args pops
      rw [step_invoke code found arity few]
      split
      · intro corruption same
        cases same
      · have length : (args.reverse ++ stack).length - argc.toNat + 1 = stack.length + 1 := by simp [few]
        have room := placed.room
        simp only [Opcode.stackEffect, length] at rest room
        exact ⟨.enter (sound.methods _ callee found), List.forall_mem_cons.mpr ⟨⟨rest, room, slots⟩, callers⟩⟩
  | callBuiltin builtin argc =>
      obtain ⟨args, stack, rfl, few⟩ := exists_args pops
      have length (v : Value) : (v :: stack).length = (args.reverse ++ stack).length - argc.toNat + 1 := by
        simp [few]
      by_cases prints : builtin = .println
      · subst prints
        obtain ⟨v, rfl⟩ := List.length_eq_one_iff.mp (few.trans provides.symm)
        have stepped : step c.unit c.limit (c.state world locals i (v :: stack)) = _ :=
          step_println code few.symm
        rw [List.reverse_singleton, List.singleton_append, stepped]
        split
        · exact safe_advance callers placed rest (length _) slots
        · intro corruption same
          cases same
      · rw [step_callBuiltin prints code few]
        split
        next v _ => exact safe_advance callers placed rest (length v) slots
        next fault applied =>
          intro corruption same
          have refused := Builtin.apply_refuses prints (provides.trans few.symm) fault applied
          exact refused.atPosition_ne_corrupt _ corruption (Except.error.inj same)

theorem step_safe (sound : c.unit.Safe) (safe : (c.state world locals i stack).Safe c.unit) :
    (step c.unit c.limit (c.state world locals i stack)).Safe c.unit := by
  obtain ⟨⟨code, room, slots⟩, callers⟩ := safe
  have code : LispMachine.Safe c.unit c.chunk i stack.length := code
  generalize deep : stack.length = depth at code
  cases code with
  | ret placed =>
      obtain ⟨v, rfl⟩ := List.length_eq_one_iff.mp deep
      cases called : c.callers with
      | nil =>
          rw [step_ret placed.code called]
          exact nofun
      | cons caller others =>
          rw [step_ret_caller placed.code called]
          have outer : ∀ f ∈ caller :: others, Frame.Safe c.unit 1 f := called ▸ callers
          exact ⟨(outer caller List.mem_cons_self).push v,
            fun f listed => outer f (List.mem_cons_of_mem _ listed)⟩
  | next placed plain provides rest =>
      subst deep
      exact step_safe_plain sound callers slots placed plain provides rest
  | jump placed rest =>
      rw [step_jump placed.code (Nat.le_of_lt rest.inside)]
      exact ⟨⟨deep ▸ rest, room, slots⟩, callers⟩
  | jumpIfFalse placed yes no =>
      obtain ⟨v, stack, rfl⟩ := List.exists_cons_of_length_eq_add_one deep
      have deep := Nat.succ.inj deep
      rw [step_jumpIfFalse placed.code (Nat.le_of_lt no.inside)]
      refine ⟨⟨?_, Nat.le_of_succ_le room, slots⟩, callers⟩
      rw [← deep] at yes no
      cases truth : v.isTruthy with
      | true => exact yes
      | false => exact no

end Context

def State.instruction? (s : State σ) : Option Instruction := s.frame.chunk.code[s.frame.pointer]?

structure State.Proper (s : State σ) : Prop where
  depths : ∀ f ∈ s.frame :: s.callers, f.stack.length ≤ f.chunk.maxStack.toNat
  slots : ∀ instruction slot, s.instruction? = some instruction →
    instruction.opcode.localSlot? = some slot → slot.toNat < s.frame.locals.size
  jumps : ∀ instruction target, s.instruction? = some instruction →
    instruction.opcode.jumpTarget? = some target → target.toNat < s.frame.chunk.code.size
  returns : ∀ instruction, s.instruction? = some instruction → instruction.opcode = .ret →
    s.frame.stack.length = 1

theorem Safe.instruction {chunk : Chunk} {i depth : Nat} (safe : LispMachine.Safe unit chunk i depth) :
    ∃ op p, Placed ⟨unit.constants, chunk⟩ depth i op p ∧
      (∀ target, op.jumpTarget? = some target → target.toNat < chunk.code.size) ∧
      (op = .ret → depth = 1) := by
  cases safe with
  | ret placed => exact ⟨_, _, placed, nofun, fun _ => rfl⟩
  | @next _ _ op _ placed plain =>
      refine ⟨op, _, placed, fun target jumps => ?_, fun same => ?_⟩
      · cases op <;> cases jumps <;> cases plain
      · subst same
        cases plain
  | jump placed rest =>
      refine ⟨_, _, placed, fun target same => ?_, nofun⟩
      cases same
      exact rest.inside
  | jumpIfFalse placed _ no =>
      refine ⟨_, _, placed, fun target same => ?_, nofun⟩
      cases same
      exact no.inside

theorem State.Safe.proper {s : State σ} (safe : s.Safe unit) : s.Proper := by
  obtain ⟨op, p, placed, jumps, returns⟩ := Safe.instruction safe.active.code
  have only (instruction : Instruction) (found : s.instruction? = some instruction) :
      instruction = ⟨op, some p⟩ := Option.some.inj (found.symm.trans placed.code)
  constructor
  case depths =>
    refine List.forall_mem_cons.mpr ⟨safe.active.stack, fun f listed => ?_⟩
    exact Nat.le_of_succ_le (safe.callers f listed).stack
  case slots =>
    intro instruction slot found uses
    cases only instruction found
    exact Nat.lt_of_lt_of_le (placed.slot slot uses) safe.active.locals
  case jumps =>
    intro instruction target found uses
    cases only instruction found
    exact jumps target uses
  case returns =>
    intro instruction found same
    cases only instruction found
    exact returns same

theorem start_safe (sound : unit.Safe) (world : World σ) : (start unit world).Safe unit :=
  ⟨.enter sound.entry, by simp [start]⟩

section Runs

variable [LineSink σ] {limit : Nat}

theorem step_keeps_safe (sound : unit.Safe) {s : State σ} {step : Step σ} (safe : s.Safe unit)
    (stepped : Machine.step unit limit s = step) : step.Safe unit :=
  stepped ▸ Context.step_safe (c := ⟨unit, limit, s.frame.chunk, s.callers, s.depth⟩) sound safe

theorem reaches_safe (sound : unit.Safe) {world : World σ} {s : State σ}
    (reaches : Reaches unit limit (start unit world) s) : s.Safe unit :=
  reaches.invariant (P := State.Safe unit) (fun _ _ safe stepped => step_keeps_safe sound safe stepped)
    (start_safe sound world)

theorem run_ne_corrupt (sound : unit.Safe) {m m' : Machine σ} {fuel : Nat} {result : Except Fault Value}
    (ran : m.run fuel unit = some (result, m')) (corruption : Corruption) :
    result ≠ .error (.corrupt corruption) := by
  simp only [run] at ran
  split at ran
  next found =>
    cases ran
    obtain ⟨s, reaches, stopped⟩ := reaches_of_runFor found
    exact step_keeps_safe sound (reaches_safe sound reaches) stopped corruption
  next => cases ran

end Runs

end Machine

/-- A compiled program is never found corrupt, and all states that it reaches are proper ones. -/
theorem compile_safe {name text : String} {unit : CompiledUnit} (compiled : compile name text = .ok unit)
    {σ : Type} [LineSink σ] (m : Machine σ) :
    (∀ fuel result m', m.run fuel unit = some (result, m') →
      ∀ corruption, result ≠ .error (.corrupt corruption)) ∧
      ∀ s, Machine.Reaches unit m.limit (Machine.start unit ⟨∅, m.world.output⟩) s → s.Proper := by
  obtain ⟨forms, p, r, _, _, _, implements⟩ := compile_implements compiled
  have sound := implements.safe
  exact ⟨fun fuel result m' ran => Machine.run_ne_corrupt sound ran,
    fun s reaches => (Machine.reaches_safe sound reaches).proper⟩

theorem compile_safe_skipped : ∃ unit,
    compile "skipped" "(do (def a 1)) (do (if false (def b 2) 0) b)" = .ok unit ∧
      (∀ fuel result m', ((Machine.new Buffer.unbounded).withLimit 1).run fuel unit = some (result, m') →
        ∀ corruption, result ≠ .error (.corrupt corruption)) ∧
      ∀ s, Machine.Reaches unit 1 (Machine.start unit ⟨∅, Buffer.unbounded⟩) s → s.Proper := by
  obtain ⟨unit, compiled⟩ := compile_skipped
  exact ⟨unit, compiled, compile_safe compiled ((Machine.new Buffer.unbounded).withLimit 1)⟩

end LispMachine
