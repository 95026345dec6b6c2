import LispMachine.Proofs.Machine.Run

set_option autoImplicit false

namespace LispMachine.Machine

structure Context where
  unit : CompiledUnit
  limit : Nat
  chunk : Chunk
  callers : List Frame
  depth : Nat

namespace Context

def state {σ : Type} (c : Context) (world : World σ) (locals : Array Value) (i : Nat)
    (stack : List Value) : State σ :=
  ⟨⟨c.chunk, i, stack, locals⟩, c.callers, c.depth, world⟩

def calling (c : Context) (chunk : Chunk) (locals : Array Value) (i : Nat) (stack : List Value) : Context :=
  { c with chunk, callers := ⟨c.chunk, i, stack, locals⟩ :: c.callers, depth := c.depth + 1 }

variable {σ : Type} [LineSink σ] {c : Context} {world : World σ} {locals : Array Value} {i : Nat}
  {stack : List Value} {q : Option Position} {v : Value}

attribute [local simp] state calling step onFrame constant globalName readGlobal storeGlobal storeLocal method
  jumpIfFalse returnValue callBuiltin printLine invoke CompiledUnit.method? Frame.fetch Frame.push Frame.pop
  Frame.peek Frame.slot Frame.setSlot Frame.jump Frame.enter Bind.bind Except.bind pure Except.pure Except.map
  throw throwThe MonadExceptOf.throw

theorem step_pushNil (code : c.chunk.code[i]? = some ⟨.pushNil, q⟩) :
    step c.unit c.limit (c.state world locals i stack) =
      .next (c.state world locals (i + 1) (.nil :: stack)) := by
  simp [code]

theorem step_pushTrue (code : c.chunk.code[i]? = some ⟨.pushTrue, q⟩) :
    step c.unit c.limit (c.state world locals i stack) =
      .next (c.state world locals (i + 1) (.bool true :: stack)) := by
  simp [code]

theorem step_pushFalse (code : c.chunk.code[i]? = some ⟨.pushFalse, q⟩) :
    step c.unit c.limit (c.state world locals i stack) =
      .next (c.state world locals (i + 1) (.bool false :: stack)) := by
  simp [code]

theorem step_pushShort {n : Int16} (code : c.chunk.code[i]? = some ⟨.pushShort n, q⟩) :
    step c.unit c.limit (c.state world locals i stack) =
      .next (c.state world locals (i + 1) (.long n.toInt64 :: stack)) := by
  simp [code]

theorem step_loadConst {index : UInt16} {d : Datum} (code : c.chunk.code[i]? = some ⟨.loadConst index, q⟩)
    (found : c.unit.constants.get? index = some d) :
    step c.unit c.limit (c.state world locals i stack) =
      .next (c.state world locals (i + 1) (.ofDatum d :: stack)) := by
  simp [code, found]

theorem step_loadLocal {slot : UInt16} (code : c.chunk.code[i]? = some ⟨.loadLocal slot, q⟩)
    (found : locals[slot.toNat]? = some v) :
    step c.unit c.limit (c.state world locals i stack) =
      .next (c.state world locals (i + 1) (v :: stack)) := by
  simp [code, found]

theorem step_storeLocal {slot : UInt16} (code : c.chunk.code[i]? = some ⟨.storeLocal slot, q⟩)
    (inside : slot.toNat < locals.size) :
    step c.unit c.limit (c.state world locals i (v :: stack)) =
      .next (c.state world (locals.set! slot.toNat v) (i + 1) stack) := by
  simp [code, inside]

theorem str?_of_get? {pool : ConstantPool} {index : UInt16} {name : String}
    (found : pool.get? index = some (.str name)) : pool.str? index = some name := by
  simp only [ConstantPool.str?, found]

theorem step_loadGlobal {index : UInt16} {name : String}
    (code : c.chunk.code[i]? = some ⟨.loadGlobal index, q⟩)
    (found : c.unit.constants.get? index = some (.str name)) (set : world.globals[name]? = some v) :
    step c.unit c.limit (c.state world locals i stack) =
      .next (c.state world locals (i + 1) (v :: stack)) := by
  simp [code, str?_of_get? found, set]

theorem step_loadGlobal_unset {index : UInt16} {name : String}
    (code : c.chunk.code[i]? = some ⟨.loadGlobal index, q⟩)
    (found : c.unit.constants.get? index = some (.str name)) (unset : world.globals[name]? = none) :
    step c.unit c.limit (c.state world locals i stack) = .stop (.error (.undefinedGlobal name)) world := by
  simp [code, str?_of_get? found, unset]

theorem step_storeGlobal {index : UInt16} {name : String}
    (code : c.chunk.code[i]? = some ⟨.storeGlobal index, q⟩)
    (found : c.unit.constants.get? index = some (.str name)) :
    step c.unit c.limit (c.state world locals i (v :: stack)) =
      .next (c.state ⟨world.globals.insert name v, world.output⟩ locals (i + 1) stack) := by
  simp [code, str?_of_get? found]

theorem step_loadFunction {index : UInt16} {chunk : Chunk}
    (code : c.chunk.code[i]? = some ⟨.loadFunction index, q⟩)
    (found : c.unit.methods[index.toNat]? = some chunk) :
    step c.unit c.limit (c.state world locals i stack) =
      .next (c.state world locals (i + 1) (.function chunk.name :: stack)) := by
  simp [code, found]

theorem step_dup (code : c.chunk.code[i]? = some ⟨.dup, q⟩) :
    step c.unit c.limit (c.state world locals i (v :: stack)) =
      .next (c.state world locals (i + 1) (v :: v :: stack)) := by
  simp [code]

theorem step_pop (code : c.chunk.code[i]? = some ⟨.pop, q⟩) :
    step c.unit c.limit (c.state world locals i (v :: stack)) =
      .next (c.state world locals (i + 1) stack) := by
  simp [code]

theorem step_jump {target : UInt32} (code : c.chunk.code[i]? = some ⟨.jump target, q⟩)
    (inside : target.toNat ≤ c.chunk.code.size) :
    step c.unit c.limit (c.state world locals i stack) =
      .next (c.state world locals target.toNat stack) := by
  simp [code, inside]

theorem step_jumpIfFalse {target : UInt32} (code : c.chunk.code[i]? = some ⟨.jumpIfFalse target, q⟩)
    (inside : target.toNat ≤ c.chunk.code.size) :
    step c.unit c.limit (c.state world locals i (v :: stack)) =
      .next (c.state world locals (if v.isTruthy then i + 1 else target.toNat) stack) := by
  cases truth : v.isTruthy <;>
    simp [code, inside, truth]

theorem step_ret (code : c.chunk.code[i]? = some ⟨.ret, q⟩) (last : c.callers = []) :
    step c.unit c.limit (c.state world locals i (v :: stack)) = .stop (.ok v) world := by
  simp [code, last]

theorem step_ret_caller {caller : Frame} {callers : List Frame} (code : c.chunk.code[i]? = some ⟨.ret, q⟩)
    (called : c.callers = caller :: callers) :
    step c.unit c.limit (c.state world locals i (v :: stack)) =
      .next ⟨caller.push v, callers, c.depth - 1, world⟩ := by
  simp [code, called]

section Calls

variable {args : List Value} {argc : UInt8}

omit [LineSink σ] in
theorem popArgs_reverse (chunk : Chunk) (i : Nat) (args stack : List Value) (locals : Array Value)
    (few : args.length = argc.toNat) :
    Frame.popArgs ⟨chunk, i, args.reverse ++ stack, locals⟩ argc = .ok (args, ⟨chunk, i, stack, locals⟩) := by
  have taken : (args.reverse ++ stack).take argc.toNat = args.reverse := by
    rw [← few, ← List.length_reverse, List.take_left']
    rfl
  have dropped : (args.reverse ++ stack).drop argc.toNat = stack := by
    rw [← few, ← List.length_reverse, List.drop_left']
    rfl
  simp only [Frame.popArgs, taken, dropped, List.length_reverse, few, if_true, List.reverse_reverse]

theorem step_callBuiltin {builtin : Builtin} (quiet : builtin ≠ .println)
    (code : c.chunk.code[i]? = some ⟨.callBuiltin builtin argc, q⟩) (few : args.length = argc.toNat) :
    step c.unit c.limit (c.state world locals i (args.reverse ++ stack)) =
      match builtin.apply args with
      | .ok v => .next (c.state world locals (i + 1) (v :: stack))
      | .error fault => .stop (.error (fault.atPosition q)) world := by
  have popped := popArgs_reverse c.chunk (i + 1) args stack locals few
  have stays : step c.unit c.limit (c.state world locals i (args.reverse ++ stack)) =
      onFrame c.callers c.depth world
        (callBuiltin builtin argc q ⟨c.chunk, i + 1, args.reverse ++ stack, locals⟩) := by
    simp [code]
  rw [stays]
  cases applied : builtin.apply args <;>
    simp [popped, applied]

theorem step_println (code : c.chunk.code[i]? = some ⟨.callBuiltin .println argc, q⟩)
    (one : argc.toNat = 1) :
    step c.unit c.limit (c.state world locals i (v :: stack)) =
      match LineSink.writeLine world.output v.text with
      | (output, none) => .next (c.state ⟨world.globals, output⟩ locals (i + 1) (.nil :: stack))
      | (output, some text) => .stop (.error (.output text)) ⟨world.globals, output⟩ := by
  have popped : Frame.popArgs ⟨c.chunk, i + 1, v :: stack, locals⟩ argc =
      .ok ([v], ⟨c.chunk, i + 1, stack, locals⟩) :=
    popArgs_reverse c.chunk (i + 1) [v] stack locals one.symm
  rcases written : LineSink.writeLine world.output v.text with ⟨output, _ | reason⟩ <;>
    simp [code, popped, written]

theorem step_invoke {index : UInt16} {chunk : Chunk} (code : c.chunk.code[i]? = some ⟨.invoke index argc, q⟩)
    (found : c.unit.methods[index.toNat]? = some chunk) (arity : chunk.arity = argc)
    (few : args.length = argc.toNat) :
    step c.unit c.limit (c.state world locals i (args.reverse ++ stack)) =
      if c.limit ≤ c.depth then .stop (.error (.stackOverflow c.limit)) world
      else .next ((c.calling chunk locals (i + 1) stack).state world (Frame.enter chunk args).locals 0 []) := by
  have popped := popArgs_reverse c.chunk (i + 1) args stack locals few
  by_cases full : c.limit ≤ c.depth <;>
    simp [code, found, arity, popped, full]

end Calls

end Context

end LispMachine.Machine
