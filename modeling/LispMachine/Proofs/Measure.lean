import LispMachine.Code.Chunk
import LispMachine.Expression

set_option autoImplicit false

namespace LispMachine

namespace Expression

mutual

def top : Expression → Nat → Nat
  | .constant _ _, depth | .symbol _ _, depth | .function _ _ _ _, depth => depth + 1
  | .define _ value _, depth => max (value.top depth) (depth + 2)
  | .bind _ bound body _, depth => max (bound.top depth) (body.top depth)
  | .branch condition yes no _, depth => max (condition.top depth) (max (yes.top depth) (no.top depth))
  | .block body _, depth => max (depth + 1) (topAll body depth)
  | .cond clauses _, depth => max (depth + 1) (topClauses clauses depth)
  | .call _ args _, depth => max (depth + 1) (topArguments args depth)
  | .compose first _ _, depth => first.top depth

-- The values of a sequence are dropped one by one.
def topAll : List Expression → Nat → Nat
  | [], _ => 0
  | e :: rest, depth => max (e.top depth) (topAll rest depth)

-- The values of arguments stay on the stack.
def topArguments : List Expression → Nat → Nat
  | [], _ => 0
  | e :: rest, depth => max (e.top depth) (topArguments rest (depth + 1))

def topClauses : List (Expression × Expression) → Nat → Nat
  | [], _ => 0
  | (test, consequent) :: rest, depth =>
      max (max (test.top depth) (consequent.top depth)) (topClauses rest depth)

end

theorem lt_top : ∀ (e : Expression) (depth : Nat), depth < e.top depth
  | .constant _ _, _ | .symbol _ _, _ | .function _ _ _ _, _ => Nat.lt_succ_self _
  | .define _ _ _, _ => by simp only [top]; omega
  | .bind _ bound _ _, depth => Nat.lt_of_lt_of_le (bound.lt_top depth) (Nat.le_max_left _ _)
  | .branch condition _ _ _, depth =>
      Nat.lt_of_lt_of_le (condition.lt_top depth) (Nat.le_max_left _ _)
  | .block _ _, _ | .cond _ _, _ | .call _ _ _, _ => Nat.le_max_left _ _
  | .compose first _ _, depth => first.lt_top depth

end Expression

namespace Opcode

def depthAfter (op : Opcode) (depth : Nat) : Nat := depth - op.stackEffect.1 + op.stackEffect.2

def slots (op : Opcode) : Nat := (op.localSlot?.map (·.toNat + 1)).getD 0

theorem slots_retarget? {op op' : Opcode} {target : UInt32} (retargeted : op.retarget? target = some op') :
    op'.slots = op.slots := by
  cases op <;> cases retargeted <;> rfl

end Opcode

def slotsUsed (code : Array Instruction) : Nat := (code.map (·.opcode.slots)).foldl max 0

theorem slotsUsed_push (code : Array Instruction) (i : Instruction) :
    slotsUsed (code.push i) = max (slotsUsed code) i.opcode.slots := by
  simp [slotsUsed]

theorem slotsUsed_set {code : Array Instruction} {k : Nat} {i : Instruction} {op : Opcode}
    (found : code[k]? = some i) (same : op.slots = i.opcode.slots) :
    slotsUsed (code.set! k { i with opcode := op }) = slotsUsed code := by
  obtain ⟨inside, rfl⟩ := Array.getElem?_eq_some_iff.mp found
  have mapped : (code.set! k { code[k] with opcode := op }).map (·.opcode.slots) =
      code.map (·.opcode.slots) := by
    apply Array.ext_getElem?
    intro j
    by_cases here : k = j
    · subst here
      simp [inside, same]
    · simp [here]
  rw [slotsUsed, mapped, slotsUsed]

structure Chunk.Measured (chunk : Chunk) (e : Expression) : Prop where
  stack : chunk.maxStack.toNat = e.top 0
  locals : chunk.maxLocals.toNat = max chunk.arity.toNat (slotsUsed chunk.code)

end LispMachine
