import LispMachine.Proofs.Flow
import LispMachine.Proofs.Machine.Termination

set_option autoImplicit false

namespace LispMachine

namespace Chunk

variable {chunk : Chunk}

def opcode (chunk : Chunk) (i : Fin chunk.code.size) : Opcode := chunk.code[i].opcode

def depthBehind (chunk : Chunk) (depth : Fin chunk.code.size → Int) (i : Fin chunk.code.size) : Int :=
  depth i - (chunk.opcode i).stackEffect.1 + (chunk.opcode i).stackEffect.2

structure Depths (chunk : Chunk) (depth : Fin chunk.code.size → Int) : Prop where
  start : ∀ i : Fin chunk.code.size, i.val = 0 → depth i = 0
  edge : ∀ i j : Fin chunk.code.size, Leads chunk.code i j → depth j = chunk.depthBehind depth i

structure Exact (chunk : Chunk) (depth : Fin chunk.code.size → Int) : Prop where
  depths : chunk.Depths depth
  unique : ∀ other, chunk.Depths other → other = depth
  reached : ∀ i : Fin chunk.code.size, Path chunk.code 0 i
  inside : ∀ i j : Nat, Leads chunk.code i j → j < chunk.code.size
  operands : ∀ i, (chunk.opcode i).stackEffect.1 ≤ depth i
  returns : ∀ i, chunk.opcode i = .ret ↔ i.val + 1 = chunk.code.size
  value : ∀ i, chunk.opcode i = .ret → depth i = 1
  stack : (∀ i, chunk.depthBehind depth i ≤ chunk.maxStack.toNat) ∧
    ∃ i, chunk.depthBehind depth i = chunk.maxStack.toNat
  locals : chunk.maxLocals.toNat = max chunk.arity.toNat (slotsUsed chunk.code)

theorem getElem?_opcode {k : Nat} {instruction : Instruction} (found : chunk.code[k]? = some instruction) :
    ∃ inside, chunk.opcode ⟨k, inside⟩ = instruction.opcode := by
  obtain ⟨inside, rfl⟩ := Array.getElem?_eq_some_iff.mp found
  exact ⟨inside, rfl⟩

-- Depths are known where control can come from the start.
theorem Depths.eq_of_path {depth other : Fin chunk.code.size → Int} (fits : chunk.Depths depth)
    (also : chunk.Depths other) {k : Nat} (path : Path chunk.code 0 k) :
    ∀ inside : k < chunk.code.size, depth ⟨k, inside⟩ = other ⟨k, inside⟩ := by
  induction path with
  | here => exact fun inside => (fits.start ⟨0, inside⟩ rfl).trans (also.start ⟨0, inside⟩ rfl).symm
  | @next j k _ edge ih =>
      intro inside
      have earlier : j < chunk.code.size := by
        obtain ⟨instruction, found, _⟩ := edge
        exact (Array.getElem?_eq_some_iff.mp found).1
      have fits := fits.edge ⟨j, earlier⟩ ⟨k, inside⟩ edge
      have also := also.edge ⟨j, earlier⟩ ⟨k, inside⟩ edge
      rw [fits, also, depthBehind, depthBehind, ih earlier]

theorem depthBehind_eq {depth : Nat → Nat} {i : Fin chunk.code.size}
    (enough : (chunk.opcode i).stackEffect.1 ≤ depth i) :
    chunk.depthBehind (fun i => depth i) i = (chunk.opcode i).depthAfter (depth i) := by
  simp only [depthBehind, Opcode.depthAfter]
  omega

structure Whole (chunk : Chunk) (depth : Nat → Nat) (stop top : Nat) : Prop where
  stretch : Stretch chunk.code depth 0 stop top
  start : depth 0 = 0
  finish : depth stop = 1
  ret : ∃ p, chunk.code[stop]? = some ⟨.ret, p⟩
  size : chunk.code.size = stop + 1

namespace Whole

variable {depth : Nat → Nat} {stop top : Nat}

theorem opcode_stop (whole : chunk.Whole depth stop top) {i : Fin chunk.code.size} (last : i.val = stop) :
    chunk.opcode i = .ret := by
  obtain ⟨p, found⟩ := whole.ret
  subst last
  obtain ⟨_, same⟩ := getElem?_opcode found
  exact same

theorem cases (whole : chunk.Whole depth stop top) (i : Fin chunk.code.size) :
    Consistent depth stop top i (chunk.opcode i) ∧ i.val < stop ∨
      chunk.opcode i = .ret ∧ i.val = stop ∧ depth i = 1 := by
  have size := whole.size
  by_cases before : i.val < stop
  · obtain ⟨instruction, found, consistent⟩ := whole.stretch.each i (Nat.zero_le _) before
    obtain ⟨_, same⟩ := getElem?_opcode found
    rw [← same] at consistent
    exact .inl ⟨consistent, before⟩
  · have last : i.val = stop := by omega
    exact .inr ⟨whole.opcode_stop last, last, last ▸ whole.finish⟩

theorem operands (whole : chunk.Whole depth stop top) (i : Fin chunk.code.size) :
    (chunk.opcode i).stackEffect.1 ≤ depth i := by
  rcases whole.cases i with ⟨consistent, _⟩ | ⟨ret, _, one⟩
  · exact consistent.pops
  · rw [ret, one]
    exact Nat.le_refl _

theorem edge (whole : chunk.Whole depth stop top) {i j : Nat} (leads : Leads chunk.code i j) :
    ∃ inside, j ≤ stop ∧ depth j = (chunk.opcode ⟨i, inside⟩).depthAfter (depth i) := by
  obtain ⟨instruction, found, member⟩ := leads
  obtain ⟨inside, same⟩ := getElem?_opcode found
  rw [← same] at member
  rcases whole.cases ⟨i, inside⟩ with ⟨consistent, _⟩ | ⟨ret, _⟩
  · exact ⟨inside, (consistent.edges j member).2⟩
  · rw [ret] at member
    cases member

theorem depths (whole : chunk.Whole depth stop top) : chunk.Depths fun i => depth i where
  start i first := by simp [first, whole.start]
  edge i j leads := by
    obtain ⟨_, _, same⟩ := whole.edge leads
    rw [depthBehind_eq (whole.operands i), same]

theorem bound (whole : chunk.Whole depth stop top) (i : Fin chunk.code.size) :
    (chunk.opcode i).depthAfter (depth i) ≤ top := by
  rcases whole.cases i with ⟨consistent, _⟩ | ⟨ret, _, one⟩
  · exact consistent.bound
  · rw [ret, one]
    exact Nat.zero_le _

theorem returns (whole : chunk.Whole depth stop top) (i : Fin chunk.code.size) :
    chunk.opcode i = .ret ↔ i.val + 1 = chunk.code.size := by
  have size := whole.size
  rcases whole.cases i with ⟨consistent, before⟩ | ⟨ret, last, _⟩
  · exact iff_of_false consistent.stays (by omega)
  · exact iff_of_true ret (by omega)

theorem reached (whole : chunk.Whole depth stop top) (i : Fin chunk.code.size) : Path chunk.code 0 i := by
  have size := whole.size
  exact whole.stretch.reached i (Nat.zero_le _) (by omega)

theorem exact (whole : chunk.Whole depth stop top) (deep : 0 < top) (stack : chunk.maxStack.toNat = top)
    (locals : chunk.maxLocals.toNat = max chunk.arity.toNat (slotsUsed chunk.code)) :
    chunk.Exact fun i => depth i where
  depths := whole.depths
  unique _ also := funext fun i => also.eq_of_path whole.depths (whole.reached i) i.isLt
  reached := whole.reached
  inside i j leads := by
    obtain ⟨_, inside, _⟩ := whole.edge leads
    have size := whole.size
    omega
  operands i := Int.ofNat_le.mpr (whole.operands i)
  returns := whole.returns
  value i ret := by
    rcases whole.cases i with ⟨consistent, _⟩ | ⟨_, _, one⟩
    · exact absurd ret consistent.stays
    · exact congrArg _ one
  stack := by
    rw [stack]
    constructor
    · intro i
      rw [depthBehind_eq (whole.operands i)]
      exact Int.ofNat_le.mpr (whole.bound i)
    · rcases whole.stretch.attained with none | ⟨k, instruction, _, _, found, same⟩
      · omega
      · obtain ⟨inside, equal⟩ := getElem?_opcode found
        refine ⟨⟨k, inside⟩, ?_⟩
        rw [depthBehind_eq (whole.operands _), equal, same]
  locals := locals

end Whole

end Chunk

theorem Runs.exact {r : Resolution} {pool : ConstantPool} {chunk : Chunk} {e : Expression}
    (runs : Runs r ⟨pool, chunk⟩ e) (measured : chunk.Measured e) : ∃ depth, chunk.Exact depth := by
  obtain ⟨stop, p, laid, ret, size⟩ := runs
  obtain ⟨depth, start, finish, stretch⟩ := laid.spans
  have whole : chunk.Whole depth stop (e.top 0) := ⟨stretch, start, finish, ⟨_, ret.code⟩, size⟩
  exact ⟨_, whole.exact (e.lt_top 0) measured.stack measured.locals⟩

/-- The code of a compiled method has one way to number the depths of its stack from nothing on so that every
edge fits. All of it can be reached, no operand is missing, and it returns at its end only, with one value.
The depth it asks for is the greatest behind any instruction, and it asks for the slots of its parameters and
up to the highest it uses. -/
theorem compile_depths {name text : String} {unit : CompiledUnit} (compiled : compile name text = .ok unit) :
    ∀ chunk ∈ unit.chunks, ∃ depth, chunk.Exact depth := by
  obtain ⟨forms, p, r, _, _, _, implements⟩ := compile_implements compiled
  refine List.forall_mem_cons.mpr ⟨implements.entry.exact implements.measured, fun chunk listed => ?_⟩
  obtain ⟨d, _, body⟩ := implements.linked.of_mem (Array.mem_toList_iff.mp listed)
  exact body.runs.exact body.measured

theorem endless_depths : ∃ unit, compile "endless" "(defn f [x] (f x)) (f 1)" = .ok unit ∧
    ∀ chunk ∈ unit.chunks, ∃ depth, chunk.Exact depth := by
  obtain ⟨unit, compiled⟩ := compile_endless
  exact ⟨unit, compiled, compile_depths compiled⟩

end LispMachine
