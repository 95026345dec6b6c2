import LispMachine.Proofs.Machine.Run

set_option autoImplicit false

namespace LispMachine

namespace LineSink

variable {σ : Type} [LineSink σ]

def writeLines (output : σ) (lines : List String) : σ :=
  lines.foldl (fun output text => (writeLine output text).1) output

theorem writeLines_append (output : σ) (lines more : List String) :
    writeLines output (lines ++ more) = writeLines (writeLines output lines) more :=
  List.foldl_append

end LineSink

namespace Machine

variable {σ : Type} {unit : CompiledUnit} {limit : Nat}

def Step.world : Step σ → World σ
  | .next s => s.world
  | .stop _ world => world

theorem onFrame_world (callers : List Frame) (depth : Nat) (world : World σ) (x : Except Fault Frame) :
    (onFrame callers depth world x).world = world := by
  cases x <;> rfl

theorem invoke_world (s : State σ) (index : UInt16) (argc : UInt8) :
    (invoke unit limit s index argc).world = s.world := by
  obtain ⟨f, callers, depth, world⟩ := s
  simp only [invoke]
  split <;> rfl

theorem returnValue_world (s : State σ) : (returnValue s).world = s.world := by
  obtain ⟨f, callers, depth, world⟩ := s
  simp only [returnValue]
  split <;> rfl

inductive Changes [LineSink σ] (s : State σ) : World σ → Prop
  | nothing : Changes s s.world
  | stored {index p name v} : s.frame.chunk.code[s.frame.pointer]? = some ⟨.storeGlobal index, p⟩ →
      Changes s ⟨s.world.globals.insert name v, s.world.output⟩
  | printed {text} : Changes s ⟨s.world.globals, (LineSink.writeLine s.world.output text).1⟩

variable [LineSink σ] {s : State σ}

theorem storeGlobal_changes {f : Frame} {callers : List Frame} {depth : Nat} {world : World σ} {index : UInt16}
    {p : Option Position} (found : f.chunk.code[f.pointer]? = some ⟨.storeGlobal index, p⟩) (f' : Frame) :
    Changes ⟨f, callers, depth, world⟩ (storeGlobal unit ⟨f', callers, depth, world⟩ index).world := by
  simp only [storeGlobal]
  split
  · exact .stored found
  · exact .nothing

theorem printLine_changes (f f' : Frame) (callers : List Frame) (depth : Nat) (world : World σ) (argc : UInt8) :
    Changes ⟨f, callers, depth, world⟩ (printLine ⟨f', callers, depth, world⟩ argc).world := by
  simp only [printLine]
  split
  · exact .nothing
  next v _ _ =>
    have printed : Changes ⟨f, callers, depth, world⟩
        ⟨world.globals, (LineSink.writeLine world.output v.text).1⟩ := .printed
    generalize LineSink.writeLine world.output v.text = written at printed ⊢
    obtain ⟨output, _ | text⟩ := written <;> exact printed
  · exact .nothing

theorem step_changes (unit : CompiledUnit) (limit : Nat) (s : State σ) :
    Changes s (step unit limit s).world := by
  obtain ⟨f, callers, depth, world⟩ := s
  have same {step : Step σ} (kept : step.world = world) : Changes ⟨f, callers, depth, world⟩ step.world :=
    kept ▸ .nothing
  simp only [step, Frame.fetch]
  cases found : f.chunk.code[f.pointer]? with
  | none => exact .nothing
  | some instruction =>
      obtain ⟨op, p⟩ := instruction
      cases op with
      | storeGlobal index => exact storeGlobal_changes found _
      | ret => exact same (returnValue_world _)
      | invoke index argc => exact same (invoke_world _ index argc)
      | callBuiltin builtin argc =>
          cases builtin with
          | println => exact printLine_changes _ _ _ _ _ argc
          | _ => exact same (onFrame_world _ _ _ _)
      | _ => exact same (onFrame_world _ _ _ _)

theorem step_globals (quiet : ∀ index p, s.frame.chunk.code[s.frame.pointer]? ≠ some ⟨.storeGlobal index, p⟩) :
    (step unit limit s).world.globals = s.world.globals := by
  have changes := step_changes unit limit s
  generalize (step unit limit s).world = world at changes
  cases changes with
  | nothing | printed => rfl
  | stored found => exact absurd found (quiet _ _)

theorem step_output (unit : CompiledUnit) (limit : Nat) (s : State σ) :
    ∃ lines, (step unit limit s).world.output = LineSink.writeLines s.world.output lines := by
  have changes := step_changes unit limit s
  generalize (step unit limit s).world = world at changes
  cases changes with
  | nothing | stored => exact ⟨[], rfl⟩
  | @printed text => exact ⟨[text], rfl⟩

theorem runFor_output {fuel : Nat} {result : Except Fault Value} {world : World σ}
    (ran : runFor unit limit fuel s = some (result, world)) :
    ∃ lines, world.output = LineSink.writeLines s.world.output lines := by
  induction fuel generalizing s with
  | zero => cases ran
  | succ fuel ih =>
      obtain ⟨lines, first⟩ := step_output unit limit s
      simp only [runFor] at ran
      split at ran
      next s₁ stepped =>
        rw [stepped] at first
        obtain ⟨more, rest⟩ := ih ran
        exact ⟨lines ++ more, by rw [rest, LineSink.writeLines_append, ← first]; rfl⟩
      next stepped =>
        cases ran
        rw [stepped] at first
        exact ⟨lines, first⟩

end Machine

end LispMachine
