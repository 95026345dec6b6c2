import Std.Data.HashMap
import LispMachine.Machine.Frame
import LispMachine.Machine.Operation
import LispMachine.Machine.Output

set_option autoImplicit false

namespace LispMachine

structure World (σ : Type) where
  globals : Std.HashMap String Value
  output : σ

namespace Machine

/-- A running program: the active frame, its callers from the innermost out, and how many frames
there are in all. -/
structure State (σ : Type) where
  frame : Frame
  callers : List Frame
  depth : Nat
  world : World σ

inductive Step (σ : Type)
  | next (s : State σ)
  | stop (result : Except Fault Value) (world : World σ)

variable {σ : Type}

def start (unit : CompiledUnit) (world : World σ) : State σ :=
  ⟨.enter unit.entry [], [], 1, world⟩

def constant (unit : CompiledUnit) (index : UInt16) : Except Fault Value :=
  match unit.constants.get? index with
  | some d => .ok (.ofDatum d)
  | none => .error (.corrupt (.constantOutOfRange index))

def globalName (unit : CompiledUnit) (index : UInt16) : Except Fault String :=
  match unit.constants.str? index with
  | some name => .ok name
  | none => .error (.corrupt (.notAGlobalName index))

def method (unit : CompiledUnit) (index : UInt16) : Except Fault Chunk :=
  match unit.method? index with
  | some chunk => .ok chunk
  | none => .error (.corrupt (.methodOutOfRange index))

def readGlobal (globals : Std.HashMap String Value) (name : String) : Except Fault Value :=
  match globals[name]? with
  | some v => .ok v
  | none => .error (.undefinedGlobal name)

def onFrame (callers : List Frame) (depth : Nat) (world : World σ) : Except Fault Frame → Step σ
  | .ok f => .next ⟨f, callers, depth, world⟩
  | .error fault => .stop (.error fault) world

def callBuiltin (builtin : Builtin) (argc : UInt8) (p : Option Position) (f : Frame) :
    Except Fault Frame := do
  let (args, f) ← f.popArgs argc
  match builtin.apply args with
  | .ok v => return f.push v
  | .error fault => throw (fault.atPosition p)

def storeLocal (index : UInt16) (f : Frame) : Except Fault Frame := do
  let (v, f) ← f.pop
  f.setSlot index v

def jumpIfFalse (target : UInt32) (f : Frame) : Except Fault Frame := do
  let (v, f) ← f.pop
  if v.isTruthy then return f else f.jump target

def invoke (unit : CompiledUnit) (limit : Nat) (s : State σ) (index : UInt16) (argc : UInt8) :
    Step σ :=
  match s with
  | ⟨f, callers, depth, world⟩ =>
      let call : Except Fault (Frame × Frame) := do
        let chunk ← method unit index
        if chunk.arity ≠ argc then
          throw (.corrupt (.wrongArity chunk.name chunk.arity argc))
        let (args, f) ← f.popArgs argc
        if limit ≤ depth then throw (.stackOverflow limit)
        return (.enter chunk args, f)
      match call with
      | .ok (callee, f) => .next ⟨callee, f :: callers, depth + 1, world⟩
      | .error fault => .stop (.error fault) world

def returnValue (s : State σ) : Step σ :=
  match s with
  | ⟨f, callers, depth, world⟩ =>
      match f.pop, callers with
      | .error fault, _ => .stop (.error fault) world
      | .ok (v, _), [] => .stop (.ok v) world
      | .ok (v, _), caller :: callers => .next ⟨caller.push v, callers, depth - 1, world⟩

def storeGlobal (unit : CompiledUnit) (s : State σ) (index : UInt16) : Step σ :=
  match s with
  | ⟨f, callers, depth, ⟨globals, output⟩⟩ =>
      let found : Except Fault (String × Value × Frame) := do
        let name ← globalName unit index
        let (v, f) ← f.pop
        return (name, v, f)
      match found with
      | .ok (name, v, f) => .next ⟨f, callers, depth, ⟨globals.insert name v, output⟩⟩
      | .error fault => .stop (.error fault) ⟨globals, output⟩

def printLine [LineSink σ] (s : State σ) (argc : UInt8) : Step σ :=
  match s with
  | ⟨f, callers, depth, ⟨globals, output⟩⟩ =>
      match f.popArgs argc with
      | .error fault => .stop (.error fault) ⟨globals, output⟩
      | .ok ([v], f) =>
          match LineSink.writeLine output v.text with
          | (output, none) => .next ⟨f.push .nil, callers, depth, ⟨globals, output⟩⟩
          | (output, some text) => .stop (.error (.output text)) ⟨globals, output⟩
      | .ok (args, _) =>
          .stop (.error (.corrupt (.builtinArity .println args.length))) ⟨globals, output⟩

def step [LineSink σ] (unit : CompiledUnit) (limit : Nat) (s : State σ) : Step σ :=
  match s with
  | ⟨f, callers, depth, world⟩ =>
      match f.fetch with
      | none => .stop (.error (.corrupt (.endWithoutReturn f.chunk.name))) world
      | some (⟨opcode, p⟩, f) =>
          let stay := onFrame callers depth world
          match opcode with
          | .pushNil => stay (.ok (f.push .nil))
          | .pushTrue => stay (.ok (f.push (.bool true)))
          | .pushFalse => stay (.ok (f.push (.bool false)))
          | .pushShort n => stay (.ok (f.push (.long n.toInt64)))
          | .loadConst index => stay ((constant unit index).map f.push)
          | .loadLocal index => stay ((f.slot index).map f.push)
          | .storeLocal index => stay (storeLocal index f)
          | .loadGlobal index =>
              stay ((globalName unit index >>= readGlobal world.globals).map f.push)
          | .storeGlobal index => storeGlobal unit ⟨f, callers, depth, world⟩ index
          | .loadFunction index =>
              stay ((method unit index).map fun chunk => f.push (.function chunk.name))
          | .dup => stay (f.peek.map f.push)
          | .pop => stay (f.pop.map Prod.snd)
          | .jump target => stay (f.jump target)
          | .jumpIfFalse target => stay (jumpIfFalse target f)
          | .ret => returnValue ⟨f, callers, depth, world⟩
          | .invoke index argc => invoke unit limit ⟨f, callers, depth, world⟩ index argc
          | .callBuiltin .println argc => printLine ⟨f, callers, depth, world⟩ argc
          | .callBuiltin builtin argc => stay (callBuiltin builtin argc p f)

def runFor [LineSink σ] (unit : CompiledUnit) (limit : Nat) :
    Nat → State σ → Option (Except Fault Value × World σ)
  | 0, _ => none
  | fuel + 1, s =>
      match step unit limit s with
      | .next s => runFor unit limit fuel s
      | .stop result world => some (result, world)

end Machine

end LispMachine
