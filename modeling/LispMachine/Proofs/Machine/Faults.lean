import LispMachine.Proofs.Machine.Operands
import LispMachine.Proofs.Machine.Run

set_option autoImplicit false

namespace LispMachine

def Fault.Running : Fault → Prop
  | .load _ => False
  | _ => True

abbrev Running {α : Type} (x : Except Fault α) : Prop := FailsWith Fault.Running x

theorem Fault.Running.atPosition {fault : Fault} (running : fault.Running) (p : Option Position) :
    (fault.atPosition p).Running := by
  cases fault <;> exact running

theorem Fault.Refusal.running (fault : Fault) (refusal : fault.Refusal) : fault.Running := by
  cases fault with
  | load error => exact refusal
  | _ => trivial

namespace Frame

variable (f : Frame)

theorem pop_running : Running f.pop := by
  unfold pop
  split
  · exact .ok _
  · exact .error trivial

theorem peek_running : Running f.peek := by
  unfold peek
  split
  · exact .ok _
  · exact .error trivial

theorem popArgs_running (count : UInt8) : Running (f.popArgs count) := by
  simp only [popArgs]
  split
  · exact .ok _
  · exact .error trivial

theorem slot_running (index : UInt16) : Running (f.slot index) := by
  unfold slot
  split
  · exact .ok _
  · exact .error trivial

theorem setSlot_running (index : UInt16) (v : Value) : Running (f.setSlot index v) := by
  obtain ⟨chunk, pointer, stack, locals⟩ := f
  simp only [setSlot]
  split
  · exact .ok _
  · exact .error trivial

theorem jump_running (target : UInt32) : Running (f.jump target) := by
  unfold jump
  split
  · exact .ok _
  · exact .error trivial

end Frame

theorem Builtin.apply_running (builtin : Builtin) (args : List Value) : Running (builtin.apply args) := by
  unfold apply
  split
  case h_3 => exact (Value.add_refuses _ _).mono Fault.Refusal.running
  case h_4 | h_5 => exact (Value.arithmetic_refuses _ _ _ _ _).mono Fault.Refusal.running
  case h_6 => exact (Value.divide_refuses _ _).mono Fault.Refusal.running
  case h_7 | h_8 | h_9 | h_10 => exact ((Value.order_refuses _ _ _).map _).mono Fault.Refusal.running
  all_goals first | exact .ok _ | exact .error trivial

namespace Machine

variable {σ : Type} (unit : CompiledUnit)

theorem constant_running (index : UInt16) : Running (constant unit index) := by
  unfold constant
  split
  · exact .ok _
  · exact .error trivial

theorem globalName_running (index : UInt16) : Running (globalName unit index) := by
  unfold globalName
  split
  · exact .ok _
  · exact .error trivial

theorem method_running (index : UInt16) : Running (method unit index) := by
  unfold method
  split
  · exact .ok _
  · exact .error trivial

theorem readGlobal_running (globals : Std.HashMap String Value) (name : String) :
    Running (readGlobal globals name) := by
  unfold readGlobal
  split
  · exact .ok _
  · exact .error trivial

theorem callBuiltin_running (builtin : Builtin) (argc : UInt8) (p : Option Position) (f : Frame) :
    Running (callBuiltin builtin argc p f) := by
  refine (f.popArgs_running argc).bind fun ⟨args, f'⟩ _ => ?_
  simp only
  cases applied : builtin.apply args with
  | ok v => exact .ok _
  | error fault => exact .error ((builtin.apply_running args fault applied).atPosition p)

theorem storeLocal_running (index : UInt16) (f : Frame) : Running (storeLocal index f) :=
  f.pop_running.bind fun ⟨v, f'⟩ _ => f'.setSlot_running index v

theorem jumpIfFalse_running (target : UInt32) (f : Frame) : Running (jumpIfFalse target f) := by
  refine f.pop_running.bind fun ⟨v, f'⟩ _ => ?_
  simp only
  split
  · exact .ok _
  · exact f'.jump_running target

def Step.Running : Step σ → Prop
  | .stop (.error fault) _ => fault.Running
  | _ => True

theorem onFrame_running {x : Except Fault Frame} (running : LispMachine.Running x) (callers : List Frame)
    (depth : Nat) (world : World σ) : (onFrame callers depth world x).Running := by
  cases x with
  | ok f => trivial
  | error fault => exact running fault rfl

theorem invoke_running (limit : Nat) (s : State σ) (index : UInt16) (argc : UInt8) :
    (invoke unit limit s index argc).Running := by
  obtain ⟨f, callers, depth, world⟩ := s
  simp only [invoke]
  split
  · trivial
  next failed =>
    refine FailsWith.bind (method_running unit index) (fun chunk _ => ?_) _ failed
    split
    · exact .error trivial
    · refine (f.popArgs_running argc).bind fun ⟨args, f'⟩ _ => ?_
      simp only
      split
      · exact .error trivial
      · exact .ok _

theorem returnValue_running (s : State σ) : (returnValue s).Running := by
  obtain ⟨f, callers, depth, world⟩ := s
  simp only [returnValue]
  cases popped : f.pop with
  | error fault => exact f.pop_running fault popped
  | ok found => cases callers <;> trivial

theorem storeGlobal_running (s : State σ) (index : UInt16) : (storeGlobal unit s index).Running := by
  obtain ⟨f, callers, depth, ⟨globals, output⟩⟩ := s
  simp only [storeGlobal]
  split
  · trivial
  next failed =>
    refine FailsWith.bind (globalName_running unit index) (fun name _ => ?_) _ failed
    exact f.pop_running.bind fun _ _ => .ok _

theorem printLine_running [LineSink σ] (s : State σ) (argc : UInt8) : (printLine s argc).Running := by
  obtain ⟨f, callers, depth, ⟨globals, output⟩⟩ := s
  simp only [printLine]
  split
  next failed => exact f.popArgs_running argc _ failed
  next => split <;> trivial
  next => trivial

theorem step_running [LineSink σ] (limit : Nat) (s : State σ) : (step unit limit s).Running := by
  obtain ⟨f, callers, depth, world⟩ := s
  simp only [step]
  cases f.fetch with
  | none => trivial
  | some found =>
      obtain ⟨⟨op, p⟩, f⟩ := found
      cases op with
      | pushNil | pushTrue | pushFalse | pushShort _ => trivial
      | loadConst index => exact onFrame_running ((constant_running unit index).map _) _ _ _
      | loadLocal index => exact onFrame_running ((f.slot_running index).map _) _ _ _
      | storeLocal index => exact onFrame_running (storeLocal_running index f) _ _ _
      | loadGlobal index =>
          have found := (globalName_running unit index).bind fun name _ => readGlobal_running world.globals name
          exact onFrame_running (found.map _) _ _ _
      | storeGlobal index => exact storeGlobal_running unit _ index
      | loadFunction index => exact onFrame_running ((method_running unit index).map _) _ _ _
      | dup => exact onFrame_running (f.peek_running.map _) _ _ _
      | pop => exact onFrame_running (f.pop_running.map _) _ _ _
      | jump target => exact onFrame_running (f.jump_running target) _ _ _
      | jumpIfFalse target => exact onFrame_running (jumpIfFalse_running target f) _ _ _
      | ret => exact returnValue_running _
      | invoke index argc => exact invoke_running unit limit _ index argc
      | callBuiltin builtin argc =>
          cases builtin with
          | println => exact printLine_running _ argc
          | _ => exact onFrame_running (callBuiltin_running _ argc p f) _ _ _

theorem run_ne_load [LineSink σ] {unit : CompiledUnit} {m m' : Machine σ} {fuel : Nat}
    {result : Except Fault Value} (ran : m.run fuel unit = some (result, m')) (e : Artifact.DecodeError) :
    result ≠ .error (.load e) := by
  simp only [run] at ran
  split at ran
  next found =>
    cases ran
    obtain ⟨s, _, stopped⟩ := reaches_of_runFor found
    have running := step_running unit m.limit s
    rintro rfl
    rw [stopped] at running
    exact running
  next => cases ran

end Machine

end LispMachine
