import LispMachine.Code.CompiledUnit
import LispMachine.Resolution

set_option autoImplicit false

namespace LispMachine

/-- A method body under construction, with the depth of the operand stack behind it. `slots` is one
more than the highest slot used. -/
structure Builder where
  name : String
  arity : UInt8
  code : Array Instruction
  depth : Nat
  maxStack : Nat
  slots : Nat

namespace Builder

def new (name : String) (arity : UInt8) : Builder := ⟨name, arity, #[], 0, 0, 0⟩

def maxDepth : Nat := 65535

def emit (b : Builder) (opcode : Opcode) (p : Position) : Except Diagnostic Builder :=
  match b with
  | ⟨name, arity, code, depth, maxStack, slots⟩ =>
      let pops := opcode.stackEffect.1
      let after := depth - pops + opcode.stackEffect.2
      if depth < pops then Diagnostic.invariant (.stackUnderflow name opcode pops depth) p
      else if opcode = .ret ∧ depth ≠ 1 then Diagnostic.invariant (.returnDepth name depth) p
      else if maxDepth < after then Diagnostic.invariant (.stackTooDeep name) p
      else
        .ok
          { name
            arity
            code := code.push ⟨opcode, some p⟩
            depth := after
            maxStack := max maxStack after
            slots := max slots ((opcode.localSlot?.map (·.toNat + 1)).getD 0) }

def land (b : Builder) (jump : Nat) (p : Position) : Except Diagnostic Builder :=
  match b with
  | ⟨name, arity, code, depth, maxStack, slots⟩ =>
      if UInt32.size ≤ code.size then Diagnostic.invariant .bodyTooLarge p
      else
        match retargetAt? code jump (UInt32.ofNat code.size) with
        | some code => .ok ⟨name, arity, code, depth, maxStack, slots⟩
        | none => Diagnostic.invariant (.notABranch jump) p

def join (b : Builder) (expected : Nat) (p : Position) : Except Diagnostic Unit :=
  if b.depth = expected then .ok ()
  else Diagnostic.invariant (.unbalanced b.name expected b.depth) p

def finish (b : Builder) (p : Position) : Except Diagnostic Chunk := do
  let b ← b.emit .ret p
  return {
    name := b.name
    arity := b.arity
    maxLocals := UInt16.ofNat (max b.arity.toNat b.slots)
    maxStack := UInt16.ofNat b.maxStack
    code := b.code }

end Builder

namespace Generator

structure State where
  pool : ConstantPool
  methods : Array (Option Chunk)
  body : Builder

structure OpenBranch where
  index : Nat
  depth : Nat

namespace State

def emit (s : State) (opcode : Opcode) (p : Position) : Except Diagnostic State :=
  match s with
  | ⟨pool, methods, body⟩ => do
      let body ← body.emit opcode p
      return ⟨pool, methods, body⟩

def emitIndexed (s : State) (d : Datum) (opcode : UInt16 → Opcode) (p : Position) :
    Except Diagnostic State :=
  match s with
  | ⟨pool, methods, body⟩ =>
      match pool.add d with
      | (none, _) => Diagnostic.invariant .poolOverflow p
      | (some index, pool) => do
          let body ← body.emit (opcode index) p
          return ⟨pool, methods, body⟩

def emitLiteral (s : State) (value : Literal) (p : Position) : Except Diagnostic State :=
  match value with
  | .nil => s.emit .pushNil p
  | .bool true => s.emit .pushTrue p
  | .bool false => s.emit .pushFalse p
  | .datum (.long n) =>
      if Int16.minValue.toInt ≤ n.toInt ∧ n.toInt ≤ Int16.maxValue.toInt then
        s.emit (.pushShort n.toInt16) p
      else s.emitIndexed (.long n) .loadConst p
  | .datum d => s.emitIndexed d .loadConst p

def emitBranch (s : State) (opcode : Opcode) (p : Position) :
    Except Diagnostic (OpenBranch × State) := do
  let s ← s.emit opcode p
  return (⟨s.body.code.size - 1, s.body.depth⟩, s)

def land (s : State) (jump : Nat) (p : Position) : Except Diagnostic State :=
  match s with
  | ⟨pool, methods, body⟩ => do
      let body ← body.land jump p
      return ⟨pool, methods, body⟩

-- The end of the code must have an index even if no branch leads there.
def landAll (s : State) (p : Position) : List Nat → Except Diagnostic State
  | [] => if UInt32.size ≤ s.body.code.size then Diagnostic.invariant .bodyTooLarge p else .ok s
  | jump :: rest => do
      let s ← s.land jump p
      s.landAll p rest

def atDepth (s : State) (depth : Nat) : State :=
  match s with
  | ⟨pool, methods, ⟨name, arity, code, _, maxStack, slots⟩⟩ =>
      ⟨pool, methods, ⟨name, arity, code, depth, maxStack, slots⟩⟩

def closeFunction (s : State) (index : UInt16) (chunk : Chunk) (around : Builder) (p : Position) :
    Except Diagnostic State :=
  match s with
  | ⟨pool, methods, _⟩ =>
      if index.toNat < methods.size then
        .ok ⟨pool, methods.set! index.toNat (some chunk), around⟩
      else Diagnostic.invariant (.functionOutOfRange index) p

end State

def callOpcode (callee : Callee) (argc : UInt8) : Opcode :=
  match callee with
  | .function index => .invoke index argc
  | .builtin builtin => .callBuiltin builtin argc

def emitCall (r : Resolution) (s : State) (id : Nat) (argc : UInt8) (p : Position) :
    Except Diagnostic State :=
  match r.callees[id]? with
  | some callee => s.emit (callOpcode callee argc) p
  | none => Diagnostic.invariant .noCallee p

def stages (r : Resolution) : List Stage → State → Except Diagnostic State
  | [], s => .ok s
  | stage :: rest, s => do
      let s ← emitCall r s stage.id 1 stage.position
      stages r rest s

mutual

def visit (r : Resolution) : Expression → State → Except Diagnostic State
  | .constant value p, s => s.emitLiteral value p
  | .symbol name p, s =>
      match r.bindings[p.offset]? with
      | some (.slot index) => s.emit (.loadLocal index) p
      | some (.global name) => s.emitIndexed (.str name) .loadGlobal p
      | some (.function index) => s.emit (.loadFunction index) p
      | none => Diagnostic.invariant (.noBinding (.symbol name p)) p
  | .define name value p, s => do
      let s ← visit r value s
      let s ← s.emit .dup p
      match r.bindings[p.offset]? with
      | some (.slot index) => s.emit (.storeLocal index) p
      | some (.global name) => s.emitIndexed (.str name) .storeGlobal p
      | some (.function _) => Diagnostic.invariant .defineOfFunction p
      | none => Diagnostic.invariant (.noBinding (.define name value p)) p
  | .function name params body p, s =>
      match r.bindings[p.offset]? with
      | some (.function index) =>
          if maxArity < params.length then Diagnostic.invariant .tooManyParameters p
          else
            match s with
            | ⟨pool, methods, around⟩ => do
                let inner := Builder.new name (UInt8.ofNat params.length)
                let s ← visit r body ⟨pool, methods, inner⟩
                let chunk ← s.body.finish body.position
                let s ← s.closeFunction index chunk around p
                s.emit (.loadFunction index) p
      | some _ => Diagnostic.invariant .functionNotFunction p
      | none => Diagnostic.invariant (.noBinding (.function name params body p)) p
  | .bind name bound body p, s =>
      match r.bindings[p.offset]? with
      | some (.slot index) => do
          let s ← visit r bound s
          let s ← s.emit (.storeLocal index) p
          visit r body s
      | some _ => Diagnostic.invariant .bindNotLocal p
      | none => Diagnostic.invariant (.noBinding (.bind name bound body p)) p
  | .branch condition yes no p, s => do
      let s ← visit r condition s
      let (toElse, s) ← s.emitBranch (.jumpIfFalse 0) p
      let s ← visit r yes s
      let (toEnd, s) ← s.emitBranch (.jump 0) p
      let s ← s.land toElse.index p
      let s ← visit r no (s.atDepth toElse.depth)
      s.body.join toEnd.depth p
      s.land toEnd.index p
  | .block body p, s => sequence r p body s
  | .cond clauses p, s => conditional r p s.body.depth clauses [] s
  | .call _ args p, s => do
      let s ← arguments r args s
      if maxArity < args.length then Diagnostic.invariant .tooManyArguments p
      else emitCall r s p.offset (UInt8.ofNat args.length) p
  | .compose first rest _, s => do
      let s ← visit r first s
      stages r rest s

def arguments (r : Resolution) : List Expression → State → Except Diagnostic State
  | [], s => .ok s
  | e :: rest, s => do
      let s ← visit r e s
      arguments r rest s

def sequence (r : Resolution) (p : Position) : List Expression → State → Except Diagnostic State
  | [], s => s.emit .pushNil p
  | e :: rest, s => do
      let s ← visit r e s
      following r rest s

def following (r : Resolution) : List Expression → State → Except Diagnostic State
  | [], s => .ok s
  | e :: rest, s => do
      let s ← s.emit .pop e.position
      let s ← visit r e s
      following r rest s

-- Clauses are tested in order; `ends` are the jumps out of the consequents so far.
def conditional (r : Resolution) (p : Position) (base : Nat) :
    List (Expression × Expression) → List Nat → State → Except Diagnostic State
  | [], ends, s => do
      let s ← s.emit .pushNil p
      s.landAll p ends
  | (test, consequent) :: rest, ends, s => do
      let s ← visit r test s
      let (toNext, s) ← s.emitBranch (.jumpIfFalse 0) p
      let s ← visit r consequent s
      s.body.join (base + 1) consequent.position
      let (toEnd, s) ← s.emitBranch (.jump 0) p
      let s ← s.land toNext.index p
      conditional r p base rest (toEnd.index :: ends) (s.atDepth base)

end

def collect (functions : Array Signature) (methods : Array (Option Chunk)) (p : Position) :
    Except Diagnostic (Array Chunk) :=
  (functions.zip methods).mapM fun (signature, method) =>
    match method with
    | some chunk => .ok chunk
    | none => Diagnostic.invariant (.noBody signature.name) p

end Generator

def entryName : String := "<main>"

def generate (r : Resolution) (name : String) (program : Expression) :
    Except Diagnostic CompiledUnit := do
  let start : Generator.State := ⟨.empty, Array.replicate r.functions.size none, .new entryName 0⟩
  let s ← Generator.visit r program start
  let entry ← s.body.finish program.position
  let methods ← Generator.collect r.functions s.methods program.position
  return { name, constants := s.pool, methods, entry }

end LispMachine
