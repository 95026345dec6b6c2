import LispMachine.Machine

set_option autoImplicit false

namespace LispMachine

namespace CompiledUnit

structure Alike (a b : CompiledUnit) : Prop where
  constants : a.constants.entries = b.constants.entries
  methods : a.methods = b.methods
  entry : a.entry = b.entry

end CompiledUnit

namespace LineSink

def Carries {σ τ : Type} [LineSink σ] [LineSink τ] (φ : σ → τ) : Prop :=
  ∀ output text, writeLine (φ output) text = (φ (writeLine output text).1, (writeLine output text).2)

end LineSink

namespace Buffer

/-- What a program writes where no line is refused. -/
structure Written where
  bytes : ByteArray

def Written.nothing : Written := ⟨.empty⟩

instance : LineSink Written := ⟨fun w text => (⟨w.bytes ++ (text ++ "\n").toUTF8⟩, none)⟩

def behind (before : ByteArray) (w : Written) : Buffer := ⟨before ++ w.bytes, none, true⟩

theorem carries_behind (before : ByteArray) : LineSink.Carries (behind before) := by
  intro w text
  simp only [LineSink.writeLine, writeLine, write, behind, if_true, ByteArray.append_assoc]

end Buffer

def World.map {σ τ : Type} (φ : σ → τ) (world : World σ) : World τ := ⟨world.globals, φ world.output⟩

namespace Machine

section Alike

variable {σ : Type} {a b : CompiledUnit} (alike : a.Alike b) (limit : Nat)

include alike

theorem constant_alike : constant a = constant b := by
  funext index
  simp only [constant, ConstantPool.get?, alike.constants]

theorem globalName_alike : globalName a = globalName b := by
  funext index
  simp only [globalName, ConstantPool.str?, ConstantPool.get?, alike.constants]

theorem method_alike : method a = method b := by
  funext index
  simp only [method, CompiledUnit.method?, alike.methods]

theorem step_alike [LineSink σ] (s : State σ) : step a limit s = step b limit s := by
  simp only [step, storeGlobal, invoke, constant_alike alike, globalName_alike alike, method_alike alike]

theorem runFor_alike [LineSink σ] (fuel : Nat) (s : State σ) :
    runFor a limit fuel s = runFor b limit fuel s := by
  induction fuel generalizing s with
  | zero => rfl
  | succ fuel ih =>
      rw [runFor, runFor, step_alike alike]
      cases step b limit s with
      | next s => exact ih s
      | stop result world => rfl

theorem run_alike [LineSink σ] (m : Machine σ) (fuel : Nat) : m.run fuel a = m.run fuel b := by
  simp only [run, start, alike.entry, runFor_alike alike]

end Alike

variable {σ τ : Type} {φ : σ → τ} {unit : CompiledUnit} {limit : Nat}

def State.map (φ : σ → τ) (s : State σ) : State τ := ⟨s.frame, s.callers, s.depth, s.world.map φ⟩

def Step.map (φ : σ → τ) : Step σ → Step τ
  | .next s => .next (s.map φ)
  | .stop result world => .stop result (world.map φ)

-- Nothing but printing looks at the output.
theorem onFrame_map (callers : List Frame) (depth : Nat) (world : World σ) (x : Except Fault Frame) :
    onFrame callers depth (world.map φ) x = (onFrame callers depth world x).map φ := by
  cases x <;> rfl

theorem invoke_map (s : State σ) (index : UInt16) (argc : UInt8) :
    invoke unit limit (s.map φ) index argc = (invoke unit limit s index argc).map φ := by
  obtain ⟨f, callers, depth, world⟩ := s
  show invoke unit limit ⟨f, callers, depth, world.map φ⟩ index argc = _
  simp only [invoke]
  split <;> rfl

theorem returnValue_map (s : State σ) : returnValue (s.map φ) = (returnValue s).map φ := by
  obtain ⟨f, callers, depth, world⟩ := s
  simp only [returnValue, State.map]
  cases f.pop with
  | error fault => rfl
  | ok found => cases callers <;> rfl

theorem storeGlobal_map (s : State σ) (index : UInt16) :
    storeGlobal unit (s.map φ) index = (storeGlobal unit s index).map φ := by
  obtain ⟨f, callers, depth, world⟩ := s
  show storeGlobal unit ⟨f, callers, depth, world.map φ⟩ index = _
  simp only [storeGlobal, World.map]
  split <;> rfl

variable [LineSink σ] [LineSink τ]

theorem printLine_map (carries : LineSink.Carries φ) (s : State σ) (argc : UInt8) :
    printLine (s.map φ) argc = (printLine s argc).map φ := by
  obtain ⟨f, callers, depth, ⟨globals, output⟩⟩ := s
  simp only [printLine, State.map, World.map]
  split
  · rfl
  next v f _ =>
    simp only [carries output v.text]
    rcases LineSink.writeLine output v.text with ⟨output, _ | text⟩ <;> rfl
  · rfl

theorem step_map (carries : LineSink.Carries φ) (s : State σ) :
    step unit limit (s.map φ) = (step unit limit s).map φ := by
  obtain ⟨f, callers, depth, world⟩ := s
  simp only [step, State.map]
  cases f.fetch with
  | none => rfl
  | some found =>
      obtain ⟨⟨op, p⟩, f⟩ := found
      cases op with
      | storeGlobal index => exact storeGlobal_map ⟨f, callers, depth, world⟩ index
      | ret => exact returnValue_map ⟨f, callers, depth, world⟩
      | invoke index argc => exact invoke_map ⟨f, callers, depth, world⟩ index argc
      | callBuiltin builtin argc =>
          cases builtin with
          | println => exact printLine_map carries ⟨f, callers, depth, world⟩ argc
          | _ => exact onFrame_map _ _ _ _
      | _ => exact onFrame_map _ _ _ _

theorem runFor_map (carries : LineSink.Carries φ) (fuel : Nat) (s : State σ) :
    runFor unit limit fuel (s.map φ) =
      (runFor unit limit fuel s).map fun (result, world) => (result, world.map φ) := by
  induction fuel generalizing s with
  | zero => rfl
  | succ fuel ih =>
      rw [runFor, runFor, step_map carries]
      cases step unit limit s with
      | next s => exact ih s
      | stop result world => rfl

def map (φ : σ → τ) (m : Machine σ) : Machine τ := ⟨m.world.map φ, m.limit⟩

theorem run_map (carries : LineSink.Carries φ) (m : Machine σ) (fuel : Nat) :
    (m.map φ).run fuel unit = (m.run fuel unit).map fun (result, m) => (result, m.map φ) := by
  have same : runFor unit m.limit fuel (start unit ⟨∅, φ m.world.output⟩) = _ :=
    runFor_map carries fuel (start unit ⟨∅, m.world.output⟩)
  simp only [run, map, World.map, same]
  cases runFor unit m.limit fuel (start unit ⟨∅, m.world.output⟩) <;> rfl

theorem run_limit {m m' : Machine σ} {fuel : Nat} {result : Except Fault Value}
    (ran : m.run fuel unit = some (result, m')) : m'.limit = m.limit := by
  simp only [run] at ran
  split at ran
  · cases ran
    rfl
  · cases ran

theorem run_globals {a b : Machine σ} (output : a.world.output = b.world.output) (limit : a.limit = b.limit)
    (fuel : Nat) : a.run fuel unit = b.run fuel unit := by
  simp only [run, output, limit]

end Machine

end LispMachine
