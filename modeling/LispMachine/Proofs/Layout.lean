import LispMachine.Generator
import LispMachine.Proofs.Measure
import LispMachine.Proofs.Resolution.Covers

set_option autoImplicit false

namespace LispMachine

structure Method where
  pool : ConstantPool
  chunk : Chunk

structure Placed (m : Method) (depth i : Nat) (op : Opcode) (p : Position) : Prop where
  code : m.chunk.code[i]? = some ⟨op, some p⟩
  pops : op.stackEffect.1 ≤ depth
  room : depth - op.stackEffect.1 + op.stackEffect.2 ≤ m.chunk.maxStack.toNat
  slot : ∀ slot, op.localSlot? = some slot → slot.toNat < m.chunk.maxLocals.toNat

inductive Pushes (pool : ConstantPool) : Literal → Opcode → Prop
  | nil : Pushes pool .nil .pushNil
  | yes : Pushes pool (.bool true) .pushTrue
  | no : Pushes pool (.bool false) .pushFalse
  | short {n : Int64} : Int16.minValue.toInt ≤ n.toInt → n.toInt ≤ Int16.maxValue.toInt →
      Pushes pool (.datum (.long n)) (.pushShort n.toInt16)
  | pooled {d index} : pool.get? index = some d → Pushes pool (.datum d) (.loadConst index)

inductive Loads (pool : ConstantPool) : Binding → Opcode → Prop
  | slot {index} : Loads pool (.slot index) (.loadLocal index)
  | global {name index} : pool.get? index = some (.str name) →
      Loads pool (.global name) (.loadGlobal index)
  | function {index} : Loads pool (.function index) (.loadFunction index)

inductive Stores (pool : ConstantPool) : Binding → Opcode → Prop
  | slot {index} : Stores pool (.slot index) (.storeLocal index)
  | global {name index} : pool.get? index = some (.str name) →
      Stores pool (.global name) (.storeGlobal index)

structure Called (r : Resolution) (m : Method) (depth i id argc : Nat) (p : Position) (callee : Callee) :
    Prop where
  entry : r.callees[id]? = some callee
  takes : r.Takes argc callee
  few : argc ≤ maxArity
  placed : Placed m (depth + argc) i (Generator.callOpcode callee (UInt8.ofNat argc)) p

inductive LaidStages (r : Resolution) (m : Method) : List Stage → Nat → Nat → Nat → Prop
  | nil {depth i} : LaidStages r m [] depth i i
  | cons {stage rest depth i stop callee} : Called r m depth i stage.id 1 stage.position callee →
      LaidStages r m rest depth (i + 1) stop → LaidStages r m (stage :: rest) depth i stop

mutual

inductive Laid (r : Resolution) (m : Method) : Expression → Nat → Nat → Nat → Prop
  | constant {value p depth i op} : Pushes m.pool value op → Placed m depth i op p →
      Laid r m (.constant value p) depth i (i + 1)
  | symbol {name p depth i b op} : r.bindings[p.offset]? = some b → r.Fits b → Loads m.pool b op →
      Placed m depth i op p → Laid r m (.symbol name p) depth i (i + 1)
  | define {name value p depth i j b op} : Laid r m value depth i j → Placed m (depth + 1) j .dup p →
      r.bindings[p.offset]? = some b → Stores m.pool b op → Placed m (depth + 2) (j + 1) op p →
      Laid r m (.define name value p) depth i (j + 2)
  | function {name params body p depth i index} : r.bindings[p.offset]? = some (.function index) →
      r.functions[index.toNat]? = some ⟨name, UInt8.ofNat params.length⟩ →
      Placed m depth i (.loadFunction index) p → Laid r m (.function name params body p) depth i (i + 1)
  | bind {name bound body p depth i j stop index} : r.bindings[p.offset]? = some (.slot index) →
      Laid r m bound depth i j → Placed m (depth + 1) j (.storeLocal index) p →
      Laid r m body depth (j + 1) stop → Laid r m (.bind name bound body p) depth i stop
  | branch {condition yes no p depth i j k stop toElse toEnd} : Laid r m condition depth i j →
      Placed m (depth + 1) j (.jumpIfFalse toElse) p → Laid r m yes depth (j + 1) k →
      Placed m (depth + 1) k (.jump toEnd) p → toElse.toNat = k + 1 → Laid r m no depth (k + 1) stop →
      toEnd.toNat = stop → Laid r m (.branch condition yes no p) depth i stop
  | block {body p depth i stop} : LaidSequence r m p body depth i stop →
      Laid r m (.block body p) depth i stop
  | cond {clauses p depth i stop} : LaidClauses r m p clauses depth i stop →
      Laid r m (.cond clauses p) depth i stop
  | call {name args p depth i j callee} : LaidArguments r m args depth i j →
      Called r m depth j p.offset args.length p callee → Laid r m (.call name args p) depth i (j + 1)
  | compose {first stages p depth i j stop} : Laid r m first depth i j →
      LaidStages r m stages depth j stop → Laid r m (.compose first stages p) depth i stop

inductive LaidArguments (r : Resolution) (m : Method) : List Expression → Nat → Nat → Nat → Prop
  | nil {depth i} : LaidArguments r m [] depth i i
  | cons {e rest depth i j stop} : Laid r m e depth i j → LaidArguments r m rest (depth + 1) j stop →
      LaidArguments r m (e :: rest) depth i stop

inductive LaidSequence (r : Resolution) (m : Method) :
    Position → List Expression → Nat → Nat → Nat → Prop
  | nil {p depth i} : Placed m depth i .pushNil p → LaidSequence r m p [] depth i (i + 1)
  | cons {p e rest depth i j stop} : Laid r m e depth i j → LaidFollowing r m rest depth j stop →
      LaidSequence r m p (e :: rest) depth i stop

inductive LaidFollowing (r : Resolution) (m : Method) : List Expression → Nat → Nat → Nat → Prop
  | nil {depth i} : LaidFollowing r m [] depth i i
  | cons {e rest depth i j stop} : Placed m (depth + 1) i .pop e.position →
      Laid r m e depth (i + 1) j → LaidFollowing r m rest depth j stop →
      LaidFollowing r m (e :: rest) depth i stop

inductive LaidClauses (r : Resolution) (m : Method) :
    Position → List (Expression × Expression) → Nat → Nat → Nat → Prop
  | nil {p depth i} : Placed m depth i .pushNil p → LaidClauses r m p [] depth i (i + 1)
  | cons {p test consequent rest depth i j k stop toNext toEnd} : Laid r m test depth i j →
      Placed m (depth + 1) j (.jumpIfFalse toNext) p → Laid r m consequent depth (j + 1) k →
      Placed m (depth + 1) k (.jump toEnd) p → toNext.toNat = k + 1 →
      LaidClauses r m p rest depth (k + 1) stop → toEnd.toNat = stop →
      LaidClauses r m p ((test, consequent) :: rest) depth i stop

end

theorem Placed.inside {m : Method} {depth i : Nat} {op : Opcode} {p : Position}
    (placed : Placed m depth i op p) : i + 1 ≤ m.chunk.code.size :=
  (Array.getElem?_eq_some_iff.mp placed.code).1

theorem LaidStages.inside {r : Resolution} {m : Method} {stages : List Stage} {depth i stop : Nat}
    (laid : LaidStages r m stages depth i stop) (start : i ≤ m.chunk.code.size) :
    stop ≤ m.chunk.code.size := by
  induction laid with
  | nil => exact start
  | cons called _ ih => exact ih called.placed.inside

mutual

theorem Laid.inside {r : Resolution} {m : Method} : ∀ {e : Expression} {depth i stop : Nat},
    Laid r m e depth i stop → stop ≤ m.chunk.code.size
  | _, _, _, _, .constant _ placed => placed.inside
  | _, _, _, _, .symbol _ _ _ placed => placed.inside
  | _, _, _, _, .define _ _ _ _ placed => placed.inside
  | _, _, _, _, .function _ _ placed => placed.inside
  | _, _, _, _, .bind _ _ _ body => body.inside
  | _, _, _, _, .branch _ _ _ _ _ no _ => no.inside
  | _, _, _, _, .block body => body.inside
  | _, _, _, _, .cond clauses => clauses.inside
  | _, _, _, _, .call _ called => called.placed.inside
  | _, _, _, _, .compose first stages => stages.inside first.inside

theorem LaidSequence.inside {r : Resolution} {m : Method} : ∀ {p : Position} {es : List Expression}
    {depth i stop : Nat}, LaidSequence r m p es depth i stop → stop ≤ m.chunk.code.size
  | _, _, _, _, _, .nil placed => placed.inside
  | _, _, _, _, _, .cons first rest => rest.inside first.inside

theorem LaidFollowing.inside {r : Resolution} {m : Method} : ∀ {es : List Expression} {depth i stop : Nat},
    LaidFollowing r m es depth i stop → i ≤ m.chunk.code.size →
    stop ≤ m.chunk.code.size
  | _, _, _, _, .nil, start => start
  | _, _, _, _, .cons _ first rest, _ => rest.inside first.inside

theorem LaidClauses.inside {r : Resolution} {m : Method} : ∀ {p : Position}
    {clauses : List (Expression × Expression)} {depth i stop : Nat},
    LaidClauses r m p clauses depth i stop → stop ≤ m.chunk.code.size
  | _, _, _, _, _, .nil placed => placed.inside
  | _, _, _, _, _, .cons _ _ _ _ _ rest _ => rest.inside

end

theorem LaidFollowing.part {r : Resolution} {m : Method} {e : Expression} : ∀ {es : List Expression}
    {depth i stop : Nat}, LaidFollowing r m es depth i stop → e ∈ es → ∃ j k, Laid r m e depth j k
  | _, _, _, _, .cons _ first rest, listed => by
      rcases List.mem_cons.mp listed with rfl | later
      · exact ⟨_, _, first⟩
      · exact rest.part later

theorem LaidSequence.part {r : Resolution} {m : Method} {p : Position} {es : List Expression}
    {depth i stop : Nat} {e : Expression} (laid : LaidSequence r m p es depth i stop) (listed : e ∈ es) :
    ∃ j k, Laid r m e depth j k := by
  cases laid with
  | nil => cases listed
  | cons first rest =>
      rcases List.mem_cons.mp listed with rfl | later
      · exact ⟨_, _, first⟩
      · exact rest.part later

def Runs (r : Resolution) (m : Method) (e : Expression) : Prop :=
  ∃ stop p, Laid r m e 0 0 stop ∧ Placed m 1 stop .ret p ∧ m.chunk.code.size = stop + 1

structure Chunk.Implements (r : Resolution) (pool : ConstantPool) (chunk : Chunk) (d : Definition) : Prop where
  name : chunk.name = d.name
  arity : chunk.arity.toNat = d.params.length
  runs : Runs r ⟨pool, chunk⟩ d.body
  measured : chunk.Measured d.body

structure CompiledUnit.Linked (r : Resolution) (defs : List Definition) (unit : CompiledUnit) : Prop where
  functions : r.functions.toList = defs.map Definition.signature
  size : unit.methods.size = defs.length
  methods : ∀ (k : Nat) (d : Definition), defs[k]? = some d →
    ∃ chunk, unit.methods[k]? = some chunk ∧ chunk.Implements r unit.constants d

theorem CompiledUnit.Linked.method {r : Resolution} {defs : List Definition} {unit : CompiledUnit}
    (linked : unit.Linked r defs) {k : Nat} {signature : Signature}
    (listed : r.functions[k]? = some signature) :
    ∃ d chunk, defs[k]? = some d ∧ d.signature = signature ∧ unit.methods[k]? = some chunk ∧
      chunk.Implements r unit.constants d ∧ chunk.arity = signature.arity := by
  rw [← Array.getElem?_toList, linked.functions, List.getElem?_map] at listed
  obtain ⟨d, at_k, rfl⟩ := Option.map_eq_some_iff.mp listed
  obtain ⟨chunk, found, implements⟩ := linked.methods k d at_k
  refine ⟨d, chunk, at_k, rfl, found, implements, ?_⟩
  rw [Definition.signature, ← implements.arity, UInt8.ofNat_toNat]

theorem CompiledUnit.Linked.of_mem {r : Resolution} {defs : List Definition} {unit : CompiledUnit} {chunk : Chunk}
    (linked : unit.Linked r defs) (member : chunk ∈ unit.methods) :
    ∃ d ∈ defs, chunk.Implements r unit.constants d := by
  obtain ⟨k, found⟩ := Array.mem_iff_getElem?.mp member
  have inside : k < defs.length := linked.size ▸ (Array.getElem?_eq_some_iff.mp found).1
  obtain ⟨chunk', found', implements⟩ := linked.methods k _ (List.getElem?_eq_getElem inside)
  cases found.symm.trans found'
  exact ⟨_, List.getElem_mem inside, implements⟩

structure CompiledUnit.Implements (r : Resolution) (forms : List Expression) (p : Position)
    (unit : CompiledUnit) : Prop where
  name : unit.entry.name = entryName
  entry : Runs r ⟨unit.constants, unit.entry⟩ (.block forms p)
  measured : unit.entry.Measured (.block forms p)
  linked : unit.Linked r (Expression.definitions forms)

end LispMachine
