import LispMachine.Generator
import LispMachine.Proofs.Relocation.Resolution

set_option autoImplicit false

namespace LispMachine

def Opcode.isCall : Opcode → Bool
  | .invoke _ _ | .callBuiltin _ _ => true
  | _ => false

def Instruction.seen (strict : Bool) (i : Instruction) : Instruction :=
  if i.opcode.isCall && strict then i else { i with position := none }

def Chunk.seen (strict : Bool) (chunk : Chunk) : Chunk :=
  { chunk with code := chunk.code.map (Instruction.seen strict) }

open Diagnostic (Akin)

theorem EndsAlike.broken {α β : Type} {R : α → β → Prop} (fault fault' : InvariantFault) (p q : Position) :
    EndsAlike Akin R (Diagnostic.invariant fault p) (Diagnostic.invariant fault' q) :=
  (⟨rfl, rfl⟩ : Akin ⟨.invariant fault, p⟩ ⟨.invariant fault', q⟩)

section Seen

variable (strict : Bool)

@[simp] theorem Instruction.opcode_seen (i : Instruction) : (i.seen strict).opcode = i.opcode := by
  unfold seen
  split <;> rfl

theorem Instruction.seen_plain {op : Opcode} (plain : op.isCall = false) (p q : Option Position) :
    Instruction.seen strict ⟨op, p⟩ = Instruction.seen strict ⟨op, q⟩ := by
  simp [seen, plain]

-- Branches are no calls, whatever their targets.
theorem Instruction.seen_retarget {i : Instruction} {target : UInt32} {op : Opcode}
    (branch : i.opcode.retarget? target = some op) :
    { i.seen strict with opcode := op } = { i with opcode := op }.seen strict := by
  obtain ⟨opcode, position⟩ := i
  cases opcode <;> cases branch <;> rfl

theorem retargetAt?_seen (code : Array Instruction) (index : Nat) (target : UInt32) :
    retargetAt? (code.map (Instruction.seen strict)) index target =
      (retargetAt? code index target).map (·.map (Instruction.seen strict)) := by
  unfold retargetAt?
  rw [Array.getElem?_map]
  cases code[index]? with
  | none => rfl
  | some instruction =>
      cases retargeted : instruction.opcode.retarget? target with
      | none => simp [retargeted]
      | some opcode => simp [retargeted, Instruction.seen_retarget strict retargeted]

end Seen

namespace Builder

structure Alike (strict : Bool) (b b' : Builder) : Prop where
  name : b.name = b'.name
  arity : b.arity = b'.arity
  code : b.code.map (Instruction.seen strict) = b'.code.map (Instruction.seen strict)
  depth : b.depth = b'.depth
  maxStack : b.maxStack = b'.maxStack
  slots : b.slots = b'.slots

namespace Alike

variable {strict : Bool} {b b' : Builder}

theorem refl (strict : Bool) (b : Builder) : b.Alike strict b := ⟨rfl, rfl, rfl, rfl, rfl, rfl⟩

theorem size (alike : b.Alike strict b') : b.code.size = b'.code.size := by
  simpa using congrArg Array.size alike.code

theorem emit (alike : b.Alike strict b') (op : Opcode) (p q : Position)
    (same : Instruction.seen strict ⟨op, some p⟩ = Instruction.seen strict ⟨op, some q⟩) :
    EndsAlike Akin (Alike strict) (b.emit op p) (b'.emit op q) := by
  obtain ⟨name, arity, code, depth, maxStack, slots⟩ := b
  obtain ⟨name', arity', code', depth', maxStack', slots'⟩ := b'
  obtain ⟨rfl, rfl, before, rfl, rfl, rfl⟩ := alike
  simp only [Builder.emit]
  split
  · exact .broken _ _ _ _
  · split
    · exact .broken _ _ _ _
    · split
      · exact .broken _ _ _ _
      · refine ⟨rfl, rfl, ?_, rfl, rfl, rfl⟩
        rw [Array.map_push, Array.map_push, before, same]

theorem land (alike : b.Alike strict b') (jump : Nat) (p q : Position) :
    EndsAlike Akin (Alike strict) (b.land jump p) (b'.land jump q) := by
  have size := alike.size
  obtain ⟨name, arity, code, depth, maxStack, slots⟩ := b
  obtain ⟨name', arity', code', depth', maxStack', slots'⟩ := b'
  obtain ⟨rfl, rfl, same, rfl, rfl, rfl⟩ := alike
  have retargeted := retargetAt?_seen strict code jump (UInt32.ofNat code.size)
  rw [same, retargetAt?_seen] at retargeted
  simp only [Builder.land, ← show code.size = code'.size from size]
  split
  · exact .broken _ _ _ _
  · cases found : retargetAt? code jump (UInt32.ofNat code.size) <;>
      cases found' : retargetAt? code' jump (UInt32.ofNat code.size) <;>
      rw [found, found'] at retargeted
    · exact .broken _ _ _ _
    · cases retargeted
    · cases retargeted
    · exact ⟨rfl, rfl, (Option.some.inj retargeted).symm, rfl, rfl, rfl⟩

theorem join (alike : b.Alike strict b') (expected : Nat) (p q : Position) :
    EndsAlike Akin Eq (b.join expected p) (b'.join expected q) := by
  rw [Builder.join, Builder.join, alike.depth, alike.name]
  split
  · exact rfl
  · exact .broken _ _ _ _

theorem finish (alike : b.Alike strict b') (p q : Position) :
    EndsAlike Akin (fun chunk chunk' => chunk.seen strict = chunk'.seen strict) (b.finish p) (b'.finish q) := by
  refine (alike.emit .ret p q rfl).bind fun c c' alike => ?_
  obtain ⟨name, arity, code, depth, maxStack, slots⟩ := c
  obtain ⟨name', arity', code', depth', maxStack', slots'⟩ := c'
  obtain ⟨rfl, rfl, same, rfl, rfl, rfl⟩ := alike
  exact congrArg (Chunk.mk name arity _ _) same

end Alike

end Builder

namespace Generator

structure State.Alike (strict : Bool) (s s' : State) : Prop where
  pool : s.pool = s'.pool
  methods : s.methods.map (Option.map (Chunk.seen strict)) = s'.methods.map (Option.map (Chunk.seen strict))
  body : s.body.Alike strict s'.body

abbrev InStep (strict : Bool) (x x' : Except Diagnostic State) : Prop :=
  EndsAlike Akin (State.Alike strict) x x'

namespace State.Alike

variable {strict : Bool} {s s' : State}

theorem emitCall (alike : s.Alike strict s') {op : Opcode} {p q : Position}
    (same : Instruction.seen strict ⟨op, some p⟩ = Instruction.seen strict ⟨op, some q⟩) :
    InStep strict (s.emit op p) (s'.emit op q) :=
  (alike.body.emit op p q same).bind fun _ _ body => ⟨alike.pool, alike.methods, body⟩

theorem emit (alike : s.Alike strict s') (op : Opcode) (p q : Position) (plain : op.isCall = false) :
    InStep strict (s.emit op p) (s'.emit op q) :=
  alike.emitCall (Instruction.seen_plain strict plain _ _)

theorem emitIndexed (alike : s.Alike strict s') (d : Datum) (op : UInt16 → Opcode) (p q : Position)
    (plain : ∀ i, (op i).isCall = false) :
    InStep strict (s.emitIndexed d op p) (s'.emitIndexed d op q) := by
  obtain ⟨pool, methods, body⟩ := s
  obtain ⟨pool', methods', body'⟩ := s'
  obtain ⟨rfl, others, own⟩ := alike
  simp only [State.emitIndexed]
  split
  · exact .broken _ _ _ _
  · refine (own.emit _ p q (Instruction.seen_plain strict (plain _) _ _)).bind fun _ _ body => ?_
    exact ⟨rfl, others, body⟩

theorem emitLiteral (alike : s.Alike strict s') (value : Literal) (p q : Position) :
    InStep strict (s.emitLiteral value p) (s'.emitLiteral value q) := by
  unfold State.emitLiteral
  split
  case h_4 =>
    split
    · exact alike.emit _ p q rfl
    · exact alike.emitIndexed _ _ p q fun _ => rfl
  case h_5 => exact alike.emitIndexed _ _ p q fun _ => rfl
  all_goals exact alike.emit _ p q rfl

theorem emitBranch (alike : s.Alike strict s') (op : Opcode) (p q : Position) (plain : op.isCall = false)
    {next next' : OpenBranch × State → Except Diagnostic State}
    (later : ∀ branch s s', s.Alike strict s' → InStep strict (next (branch, s)) (next' (branch, s'))) :
    InStep strict (s.emitBranch op p >>= next) (s'.emitBranch op q >>= next') := by
  rw [State.emitBranch, State.emitBranch, bind_assoc, bind_assoc]
  refine (alike.emit op p q plain).bind fun s₁ s₂ alike => ?_
  rw [pure_bind, pure_bind, alike.body.size, alike.body.depth]
  exact later _ s₁ s₂ alike

theorem land (alike : s.Alike strict s') (jump : Nat) (p q : Position) :
    InStep strict (s.land jump p) (s'.land jump q) :=
  (alike.body.land jump p q).bind fun _ _ body => ⟨alike.pool, alike.methods, body⟩

theorem landAll (alike : s.Alike strict s') (p q : Position) (jumps : List Nat) :
    InStep strict (s.landAll p jumps) (s'.landAll q jumps) := by
  induction jumps generalizing s s' with
  | nil =>
      rw [State.landAll, State.landAll, alike.body.size]
      split
      · exact .broken _ _ _ _
      · exact alike
  | cons jump rest ih => exact (alike.land jump p q).bind fun _ _ alike => ih alike

theorem atDepth (alike : s.Alike strict s') (depth : Nat) :
    (s.atDepth depth).Alike strict (s'.atDepth depth) :=
  ⟨alike.pool, alike.methods,
    alike.body.name, alike.body.arity, alike.body.code, rfl, alike.body.maxStack, alike.body.slots⟩

theorem closeFunction {index : UInt16} {chunk chunk' : Chunk} {around around' : Builder}
    (alike : s.Alike strict s') (own : chunk.seen strict = chunk'.seen strict)
    (outside : around.Alike strict around') (p q : Position) :
    InStep strict (s.closeFunction index chunk around p) (s'.closeFunction index chunk' around' q) := by
  obtain ⟨pool, methods, body⟩ := s
  obtain ⟨pool', methods', body'⟩ := s'
  obtain ⟨rfl, others, _⟩ := alike
  have size : methods.size = methods'.size := by simpa using congrArg Array.size others
  simp only [State.closeFunction, size]
  split
  · refine ⟨rfl, ?_, outside⟩
    simp only [Array.set!_eq_setIfInBounds, Array.map_setIfInBounds, Option.map_some, own] at others ⊢
    rw [others]
  · exact .broken _ _ _ _

end State.Alike

theorem collect_inStep {strict : Bool} (functions : Array Signature) {methods methods' : Array (Option Chunk)}
    (same : methods.map (Option.map (Chunk.seen strict)) = methods'.map (Option.map (Chunk.seen strict)))
    (p q : Position) :
    EndsAlike Akin (fun chunks chunks' => chunks.map (Chunk.seen strict) = chunks'.map (Chunk.seen strict))
      (collect functions methods p) (collect functions methods' q) := by
  simp only [← Array.toList_inj, Array.toList_map] at same ⊢
  refine (EndsAlike.map_iff (S := fun (chunks chunks' : List Chunk) =>
    chunks.map (Chunk.seen strict) = chunks'.map (Chunk.seen strict))).mp ?_
  rw [collect, collect, Array.toList_mapM, Array.toList_mapM, Array.toList_zip, Array.toList_zip]
  generalize functions.toList = functions, methods.toList = methods, methods'.toList = methods' at same
  induction functions generalizing methods methods' with
  | nil => exact rfl
  | cons signature rest ih =>
      cases methods with
      | nil =>
          cases List.map_eq_nil_iff.mp same.symm
          exact rfl
      | cons method methods =>
          obtain ⟨method', methods', rfl, first, others⟩ := List.map_eq_cons_iff.mp same.symm
          rw [List.zip_cons_cons, List.zip_cons_cons, List.mapM_cons, List.mapM_cons]
          cases method with
          | none =>
              cases Option.map_eq_none_iff.mp first
              exact .broken _ _ _ _
          | some chunk =>
              obtain ⟨chunk', rfl, own⟩ := Option.map_eq_some_iff.mp first
              refine (ih _ _ others.symm).bind fun chunks chunks' others => ?_
              show (chunk :: chunks).map (Chunk.seen strict) = (chunk' :: chunks').map (Chunk.seen strict)
              rw [List.map_cons, List.map_cons, own, others]

end Generator

end LispMachine
