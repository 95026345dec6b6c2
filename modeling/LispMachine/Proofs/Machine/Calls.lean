import LispMachine.Proofs.Machine.Effects
import LispMachine.Proofs.Machine.Safety
import LispMachine.Proofs.Machine.Termination

set_option autoImplicit false

namespace LispMachine

def Chunk.StoresNoGlobal (chunk : Chunk) : Prop :=
  ∀ instruction ∈ chunk.code, ∀ index, instruction.opcode ≠ .storeGlobal index

namespace Machine

variable {σ : Type} {unit : CompiledUnit} {limit : Nat} {s s₁ s₂ : State σ}

theorem invoke_opens {index : UInt16} {argc : UInt8} (stepped : invoke unit limit s index argc = .next s₁) :
    s₁.callers.length = s.callers.length + 1 := by
  obtain ⟨f, callers, depth, world⟩ := s
  simp only [invoke] at stepped
  split at stepped <;> cases stepped
  rfl

theorem storeGlobal_callers {index : UInt16} (stepped : storeGlobal unit s index = .next s₁) :
    s₁.callers = s.callers := by
  obtain ⟨f, callers, depth, world⟩ := s
  simp only [storeGlobal] at stepped
  split at stepped <;> cases stepped
  rfl

theorem Moves.opens (moves : Moves unit limit s s₁) (opens : s.callers.length < s₁.callers.length) :
    s₁.frame.chunk ∈ unit.methods ∧ ∃ caller, s₁.callers = caller :: s.callers := by
  cases moves with
  | on | jump => exact absurd opens (Nat.lt_irrefl _)
  | call _ _ _ _ listed => exact ⟨listed, _, rfl⟩
  | back => exact absurd opens (Nat.not_lt.mpr (Nat.le_succ _))

structure Above (unit : CompiledUnit) (callers : List Frame) (s : State σ) : Prop where
  active : s.frame.chunk ∈ unit.methods
  waiting : ∃ inner caller, s.callers = inner ++ caller :: callers ∧ ∀ f ∈ inner, f.chunk ∈ unit.methods

theorem Above.deeper {callers : List Frame} (above : Above unit callers s) :
    callers.length < s.callers.length := by
  obtain ⟨_, inner, caller, waiting, _⟩ := above
  rw [waiting, List.length_append, List.length_cons]
  omega

-- Where the outermost of these frames closes, the one that waited for it is active again.
theorem Moves.above (moves : Moves unit limit s₁ s₂) {callers : List Frame} (above : Above unit callers s₁) :
    Above unit callers s₂ ∨ s₂.callers = callers := by
  obtain ⟨active, inner, caller, waiting, methods⟩ := above
  cases moves with
  | on _ same _ | jump _ _ same _ => exact .inl ⟨same ▸ active, inner, caller, waiting, methods⟩
  | @call _ f' _ _ _ _ _ _ same _ _ listed =>
      refine .inl ⟨listed, f' :: inner, caller, congrArg (f' :: ·) waiting, ?_⟩
      exact List.forall_mem_cons.mpr ⟨same ▸ active, methods⟩
  | back _ =>
      cases inner with
      | nil =>
          cases waiting
          exact .inr rfl
      | cons first inner =>
          cases waiting
          obtain ⟨first, methods⟩ := List.forall_mem_cons.mp methods
          exact .inl ⟨first, inner, caller, rfl, methods⟩

variable [LineSink σ]

theorem printLine_callers {argc : UInt8} (stepped : printLine s argc = .next s₁) : s₁.callers = s.callers := by
  obtain ⟨f, callers, depth, world⟩ := s
  simp only [printLine] at stepped
  split at stepped
  · cases stepped
  · split at stepped <;> cases stepped
    rfl
  · cases stepped

theorem opens_of_invoke {index : UInt16} {argc : UInt8} {p : Option Position}
    (found : s.instruction? = some ⟨.invoke index argc, p⟩) (stepped : step unit limit s = .next s₁) :
    s.callers.length < s₁.callers.length := by
  obtain ⟨f, callers, depth, world⟩ := s
  have found : f.chunk.code[f.pointer]? = some ⟨.invoke index argc, p⟩ := found
  simp only [step, Frame.fetch, found] at stepped
  rw [invoke_opens stepped]
  exact Nat.lt_succ_self _

theorem ret_of_closes (stepped : step unit limit s = .next s₁) (closes : s₁.callers.length < s.callers.length) :
    ∃ p, s.instruction? = some ⟨.ret, p⟩ := by
  obtain ⟨f, callers, depth, world⟩ := s
  have changed : s₁.callers ≠ callers := fun same => absurd closes (by simp [same])
  have stays {x : Except Fault Frame} (stepped : onFrame callers depth world x = .next s₁) :
      s₁.callers = callers := by
    obtain ⟨f', _, rfl⟩ := onFrame_next stepped
    rfl
  cases found : f.chunk.code[f.pointer]? with
  | none =>
      simp only [step, Frame.fetch, found] at stepped
      cases stepped
  | some instruction =>
      obtain ⟨op, p⟩ := instruction
      simp only [step, Frame.fetch, found] at stepped
      cases op with
      | ret => exact ⟨p, found⟩
      | storeGlobal index => exact absurd (storeGlobal_callers stepped) changed
      | invoke index argc =>
          rw [invoke_opens stepped] at closes
          exact absurd closes (Nat.not_lt.mpr (Nat.le_succ _))
      | callBuiltin builtin argc =>
          cases builtin with
          | println => exact absurd (printLine_callers stepped) changed
          | _ => exact absurd (stays stepped) changed
      | _ => exact absurd (stays stepped) changed

/-- The states of the call that the next instruction of `s` makes. Until it returns, more frames are waiting
than in `s`. -/
inductive During (unit : CompiledUnit) (limit : Nat) (s : State σ) : State σ → Prop
  | enter {index : UInt16} {argc : UInt8} {p : Option Position} {first : State σ} :
      s.instruction? = some ⟨.invoke index argc, p⟩ → step unit limit s = .next first →
      During unit limit s first
  | next {before after : State σ} : During unit limit s before → step unit limit before = .next after →
      s.callers.length < after.callers.length → During unit limit s after

namespace During

theorem above (during : During unit limit s s₁) : Above unit s.callers s₁ := by
  induction during with
  | enter found stepped =>
      obtain ⟨listed, caller, waiting⟩ := (step_moves stepped).opens (opens_of_invoke found stepped)
      exact ⟨listed, [], caller, waiting, nofun⟩
  | next _ stepped deeper above =>
      refine ((step_moves stepped).above above).resolve_right fun back => ?_
      exact Nat.lt_irrefl _ (back ▸ deeper)

theorem returns (during : During unit limit s s₁) (stepped : step unit limit s₁ = .next s₂)
    (closes : s₂.callers.length ≤ s.callers.length) :
    (∃ p, s₁.instruction? = some ⟨.ret, p⟩) ∧ s₂.callers = s.callers := by
  have above := during.above
  rcases (step_moves stepped).above above with above | back
  · exact absurd above.deeper (Nat.not_lt.mpr closes)
  · exact ⟨ret_of_closes stepped (back ▸ above.deeper), back⟩

section Globals

variable (quiet : ∀ chunk ∈ unit.methods, chunk.StoresNoGlobal)

include quiet

theorem step_globals (during : During unit limit s s₁) :
    (step unit limit s₁).world.globals = s₁.world.globals :=
  Machine.step_globals fun index _ found =>
    quiet _ during.above.active _ (Array.mem_of_getElem? found) index rfl

theorem globals (during : During unit limit s s₁) : s₁.world.globals = s.world.globals := by
  induction during with
  | enter found stepped =>
      have kept : (step unit limit s).world.globals = s.world.globals :=
        Machine.step_globals fun index p other => by cases other.symm.trans found
      rw [stepped] at kept
      exact kept
  | next during stepped _ same =>
      have kept := during.step_globals quiet
      rw [stepped] at kept
      exact kept.trans same

end Globals

end During

end Machine

end LispMachine
