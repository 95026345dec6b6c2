import LispMachine.Proofs.Compiler

set_option autoImplicit false

namespace LispMachine

structure Forward (code : Array Instruction) (i stop : Nat) : Prop where
  order : i ≤ stop
  targets : ∀ (k : Nat) (instruction : Instruction) (target : UInt32), i ≤ k → k < stop →
    code[k]? = some instruction → instruction.opcode.jumpTarget? = some target →
    k < target.toNat ∧ target.toNat ≤ stop

namespace Forward

variable {m : Method} {depth i j stop : Nat} {op : Opcode} {p : Position}

theorem nil (code : Array Instruction) (i : Nat) : Forward code i i :=
  ⟨Nat.le_refl _, fun k _ _ low high => by omega⟩

theorem append {code : Array Instruction} (first : Forward code i j) (second : Forward code j stop) :
    Forward code i stop where
  order := Nat.le_trans first.order second.order
  targets k instruction target low high found leads := by
    have order := second.order
    by_cases before : k < j
    · have := first.targets k instruction target low before found leads
      omega
    · exact second.targets k instruction target (by omega) high found leads

theorem branch {target : UInt32} (placed : Placed m depth i op p) (jumps : op.jumpTarget? = some target)
    (rest : Forward m.chunk.code (i + 1) stop) (ahead : i < target.toNat) (inside : target.toNat ≤ stop) :
    Forward m.chunk.code i stop where
  order := Nat.le_of_succ_le rest.order
  targets k instruction target' low high found leads := by
    by_cases here : k = i
    · subst here
      rw [placed.code] at found
      cases found
      cases jumps.symm.trans leads
      exact ⟨ahead, inside⟩
    · exact rest.targets k instruction target' (by omega) high found leads

theorem single (placed : Placed m depth i op p) (plain : op.jumpTarget? = none) :
    Forward m.chunk.code i (i + 1) where
  order := Nat.le_succ i
  targets k instruction target low high found leads := by
    have here : k = i := by omega
    subst here
    rw [placed.code] at found
    cases found
    cases plain.symm.trans leads

end Forward

section Laid

variable {r : Resolution} {m : Method}

theorem Called.forward {depth i id argc : Nat} {p : Position} {callee : Callee}
    (called : Called r m depth i id argc p callee) : Forward m.chunk.code i (i + 1) :=
  .single called.placed (by cases callee <;> rfl)

theorem LaidStages.forward {stages : List Stage} {depth i stop : Nat}
    (laid : LaidStages r m stages depth i stop) : Forward m.chunk.code i stop := by
  induction laid with
  | nil => exact .nil _ _
  | cons called _ ih => exact called.forward.append ih

theorem forward_arms {depth j k stop : Nat} {p : Position} {toElse toEnd : UInt32}
    (skip : Placed m depth j (.jumpIfFalse toElse) p) (yes : Forward m.chunk.code (j + 1) k)
    (leave : Placed m depth k (.jump toEnd) p) (lands : toElse.toNat = k + 1)
    (no : Forward m.chunk.code (k + 1) stop) (leads : toEnd.toNat = stop) :
    Forward m.chunk.code j stop := by
  have first := yes.order
  have second := no.order
  have out : Forward m.chunk.code k stop := .branch leave rfl no (by omega) (by omega)
  exact .branch skip rfl (yes.append out) (by omega) (by omega)

mutual

theorem Laid.forward : ∀ {e : Expression} {depth i stop : Nat}, Laid r m e depth i stop →
    Forward m.chunk.code i stop
  | _, _, _, _, .constant pushes placed => .single placed (by cases pushes <;> rfl)
  | _, _, _, _, .symbol _ _ loads placed => .single placed (by cases loads <;> rfl)
  | _, _, _, _, .define value dup _ stores store =>
      (value.forward.append (.single dup rfl)).append (.single store (by cases stores <;> rfl))
  | _, _, _, _, .function _ _ placed => .single placed rfl
  | _, _, _, _, .bind _ bound store body => (bound.forward.append (.single store rfl)).append body.forward
  | _, _, _, _, .branch condition skip yes leave lands no leads =>
      condition.forward.append (forward_arms skip yes.forward leave lands no.forward leads)
  | _, _, _, _, .block body => body.forward
  | _, _, _, _, .cond clauses => clauses.forward
  | _, _, _, _, .call args called => args.forward.append called.forward
  | _, _, _, _, .compose first stages => first.forward.append stages.forward

theorem LaidArguments.forward : ∀ {es : List Expression} {depth i stop : Nat},
    LaidArguments r m es depth i stop → Forward m.chunk.code i stop
  | _, _, _, _, .nil => .nil _ _
  | _, _, _, _, .cons first rest => first.forward.append rest.forward

theorem LaidSequence.forward : ∀ {p : Position} {es : List Expression} {depth i stop : Nat},
    LaidSequence r m p es depth i stop → Forward m.chunk.code i stop
  | _, _, _, _, _, .nil placed => .single placed rfl
  | _, _, _, _, _, .cons first rest => first.forward.append rest.forward

theorem LaidFollowing.forward : ∀ {es : List Expression} {depth i stop : Nat},
    LaidFollowing r m es depth i stop → Forward m.chunk.code i stop
  | _, _, _, _, .nil => .nil _ _
  | _, _, _, _, .cons drop first rest =>
      ((Forward.single drop rfl).append first.forward).append rest.forward

theorem LaidClauses.forward : ∀ {p : Position} {clauses : List (Expression × Expression)}
    {depth i stop : Nat}, LaidClauses r m p clauses depth i stop → Forward m.chunk.code i stop
  | _, _, _, _, _, .nil placed => .single placed rfl
  | _, _, _, _, _, .cons test skip consequent leave lands rest leads =>
      test.forward.append (forward_arms skip consequent.forward leave lands rest.forward leads)

end

def Chunk.LeadsForward (chunk : Chunk) : Prop :=
  ∀ (k : Nat) (instruction : Instruction) (target : UInt32), chunk.code[k]? = some instruction →
    instruction.opcode.jumpTarget? = some target → k < target.toNat ∧ target.toNat < chunk.code.size

theorem Runs.leadsForward {pool : ConstantPool} {chunk : Chunk} {e : Expression}
    (runs : Runs r ⟨pool, chunk⟩ e) : chunk.LeadsForward := by
  obtain ⟨stop, p, laid, ret, size⟩ := runs
  have size : chunk.code.size = stop + 1 := size
  intro k instruction target found leads
  have inside : k < chunk.code.size := (Array.getElem?_eq_some_iff.mp found).1
  by_cases before : k < stop
  · have := laid.forward.targets k instruction target (Nat.zero_le _) before found leads
    omega
  · -- The last instruction is the return.
    have last : k = stop := by omega
    subst last
    rw [ret.code] at found
    cases found
    cases leads

end Laid

namespace CompiledUnit

def chunks (unit : CompiledUnit) : List Chunk := unit.entry :: unit.methods.toList

theorem Implements.leadsForward {r : Resolution} {forms : List Expression} {p : Position}
    {unit : CompiledUnit} (implements : unit.Implements r forms p) :
    ∀ chunk ∈ unit.chunks, chunk.LeadsForward := by
  refine List.forall_mem_cons.mpr ⟨implements.entry.leadsForward, fun chunk listed => ?_⟩
  obtain ⟨d, _, body⟩ := implements.linked.of_mem (Array.mem_toList_iff.mp listed)
  exact body.runs.leadsForward

def longest (unit : CompiledUnit) : Nat := (unit.chunks.map (·.code.size)).foldr max 0

theorem size_le_longest {unit : CompiledUnit} {chunk : Chunk} (listed : chunk ∈ unit.chunks) :
    chunk.code.size ≤ unit.longest := by
  unfold longest
  generalize unit.chunks = chunks at listed
  induction chunks with
  | nil => cases listed
  | cons first rest ih =>
      rw [List.map_cons, List.foldr_cons]
      rcases List.mem_cons.mp listed with rfl | later
      · exact Nat.le_max_left _ _
      · exact Nat.le_trans (ih later) (Nat.le_max_right _ _)

end CompiledUnit

namespace Frame

variable {f f' : Frame} {v : Value}

def SamePlace (f f' : Frame) : Prop := f'.chunk = f.chunk ∧ f'.pointer = f.pointer

theorem pop_place (popped : f.pop = .ok (v, f')) : f.SamePlace f' := by
  unfold pop at popped
  split at popped <;> cases popped
  exact ⟨rfl, rfl⟩

theorem popArgs_place {count : UInt8} {args : List Value} (popped : f.popArgs count = .ok (args, f')) :
    f.SamePlace f' := by
  simp only [popArgs] at popped
  split at popped <;> cases popped
  exact ⟨rfl, rfl⟩

theorem setSlot_place {index : UInt16} (set : f.setSlot index v = .ok f') : f.SamePlace f' := by
  obtain ⟨chunk, pointer, stack, locals⟩ := f
  simp only [setSlot] at set
  split at set <;> cases set
  exact ⟨rfl, rfl⟩

theorem push_place (f : Frame) (v : Value) : f.SamePlace (f.push v) := ⟨rfl, rfl⟩

theorem SamePlace.trans {f₁ f₂ : Frame} (first : f.SamePlace f₁) (second : f₁.SamePlace f₂) : f.SamePlace f₂ :=
  ⟨second.1.trans first.1, second.2.trans first.2⟩

theorem jump_ok {target : UInt32} (jumped : f.jump target = .ok f') :
    f'.chunk = f.chunk ∧ f'.pointer = target.toNat := by
  unfold jump at jumped
  split at jumped <;> cases jumped
  exact ⟨rfl, rfl⟩

end Frame

namespace Machine

variable {σ : Type}

inductive Moves (unit : CompiledUnit) (limit : Nat) : State σ → State σ → Prop
  | on {f f' callers depth world world'} : f.pointer < f.chunk.code.size → f'.chunk = f.chunk →
      f'.pointer = f.pointer + 1 → Moves unit limit ⟨f, callers, depth, world⟩ ⟨f', callers, depth, world'⟩
  | jump {f f' callers depth world} {instruction : Instruction} {target : UInt32} :
      f.chunk.code[f.pointer]? = some instruction → instruction.opcode.jumpTarget? = some target →
      f'.chunk = f.chunk → f'.pointer = target.toNat →
      Moves unit limit ⟨f, callers, depth, world⟩ ⟨f', callers, depth, world⟩
  | call {f f' callers depth world callee args} : f.pointer < f.chunk.code.size → f'.chunk = f.chunk →
      f'.pointer = f.pointer + 1 → depth < limit → callee ∈ unit.methods →
      Moves unit limit ⟨f, callers, depth, world⟩ ⟨.enter callee args, f' :: callers, depth + 1, world⟩
  | back {f caller callers depth world v} : f.pointer < f.chunk.code.size →
      Moves unit limit ⟨f, caller :: callers, depth, world⟩ ⟨caller.push v, callers, depth - 1, world⟩

theorem fetch_some {f f' : Frame} {instruction : Instruction} (fetched : f.fetch = some (instruction, f')) :
    f.chunk.code[f.pointer]? = some instruction ∧ f' = { f with pointer := f.pointer + 1 } := by
  unfold Frame.fetch at fetched
  split at fetched
  next found =>
    cases fetched
    exact ⟨found, rfl⟩
  next => cases fetched

section Step

variable [LineSink σ] {unit : CompiledUnit} {limit : Nat} {f : Frame} {callers : List Frame} {depth : Nat}
  {world : World σ} {s' : State σ}

omit [LineSink σ] in
theorem onFrame_next {x : Except Fault Frame} (stepped : onFrame callers depth world x = .next s') :
    ∃ f', x = .ok f' ∧ s' = ⟨f', callers, depth, world⟩ := by
  cases x with
  | error fault => cases stepped
  | ok f' =>
      cases stepped
      exact ⟨f', rfl, rfl⟩

section Frames

variable (inside : f.pointer < f.chunk.code.size)

include inside

omit [LineSink σ] in
theorem moves_on {x : Except Fault Frame} (stepped : onFrame callers depth world x = .next s')
    (places : ∀ f', x = .ok f' → Frame.SamePlace { f with pointer := f.pointer + 1 } f') :
    Moves unit limit ⟨f, callers, depth, world⟩ s' := by
  obtain ⟨f', same, rfl⟩ := onFrame_next stepped
  obtain ⟨chunk, pointer⟩ := places f' same
  exact .on inside chunk pointer

omit [LineSink σ] in
theorem moves_push {x : Except Fault Value}
    (stepped : onFrame callers depth world
      (x.map (Frame.push { f with pointer := f.pointer + 1 })) = .next s') :
    Moves unit limit ⟨f, callers, depth, world⟩ s' := by
  refine moves_on inside stepped fun f' mapped => ?_
  obtain ⟨v, _, rfl⟩ := map_ok mapped
  exact Frame.push_place _ v

omit [LineSink σ] in
theorem moves_storeGlobal {index : UInt16}
    (stepped : storeGlobal unit ⟨{ f with pointer := f.pointer + 1 }, callers, depth, world⟩ index = .next s') :
    Moves unit limit ⟨f, callers, depth, world⟩ s' := by
  simp only [storeGlobal] at stepped
  split at stepped <;> cases stepped
  next found =>
    obtain ⟨name, _, found⟩ := bind_ok.mp found
    obtain ⟨⟨v, f'⟩, popped, found⟩ := bind_ok.mp found
    cases found
    obtain ⟨chunk, pointer⟩ := Frame.pop_place popped
    exact .on inside chunk pointer

theorem moves_printLine {argc : UInt8}
    (stepped : printLine ⟨{ f with pointer := f.pointer + 1 }, callers, depth, world⟩ argc = .next s') :
    Moves unit limit ⟨f, callers, depth, world⟩ s' := by
  simp only [printLine] at stepped
  split at stepped
  · cases stepped
  next popped =>
    obtain ⟨chunk, pointer⟩ := Frame.popArgs_place popped
    split at stepped <;> cases stepped
    exact .on inside chunk pointer
  · cases stepped

omit [LineSink σ] in
theorem moves_invoke {index : UInt16} {argc : UInt8}
    (stepped : invoke unit limit ⟨{ f with pointer := f.pointer + 1 }, callers, depth, world⟩ index argc =
      .next s') :
    Moves unit limit ⟨f, callers, depth, world⟩ s' := by
  simp only [invoke] at stepped
  split at stepped <;> cases stepped
  next called =>
    obtain ⟨callee, named, called⟩ := bind_ok.mp called
    have listed : callee ∈ unit.methods := by
      unfold method at named
      split at named <;> cases named
      next found => exact Array.mem_of_getElem? found
    split at called
    · cases called
    obtain ⟨⟨args, f'⟩, popped, called⟩ := bind_ok.mp called
    split at called
    · cases called
    next room =>
      cases called
      obtain ⟨chunk, pointer⟩ := Frame.popArgs_place popped
      exact .call inside chunk pointer (Nat.lt_of_not_le room) listed

omit [LineSink σ] in
theorem moves_return
    (stepped : returnValue ⟨{ f with pointer := f.pointer + 1 }, callers, depth, world⟩ = .next s') :
    Moves unit limit ⟨f, callers, depth, world⟩ s' := by
  simp only [returnValue] at stepped
  split at stepped <;> cases stepped
  exact .back inside

end Frames

theorem step_moves {s : State σ} (stepped : step unit limit s = .next s') : Moves unit limit s s' := by
  obtain ⟨f, callers, depth, world⟩ := s
  simp only [step] at stepped
  split at stepped
  · cases stepped
  next op p behind fetched =>
    obtain ⟨found, rfl⟩ := fetch_some fetched
    have inside : f.pointer < f.chunk.code.size := (Array.getElem?_eq_some_iff.mp found).1
    split at stepped
    case h_1 | h_2 | h_3 | h_4 =>
      exact moves_on inside stepped fun f' same => by
        cases same
        exact Frame.push_place _ _
    case h_5 | h_6 | h_8 | h_11 => exact moves_push inside stepped
    case h_10 =>
      refine moves_on inside stepped fun f' mapped => ?_
      obtain ⟨chunk, _, rfl⟩ := map_ok mapped
      exact Frame.push_place _ _
    case h_7 =>
      refine moves_on inside stepped fun f' stored => ?_
      obtain ⟨⟨v, f₁⟩, popped, set⟩ := bind_ok.mp stored
      exact (Frame.pop_place popped).trans (Frame.setSlot_place set)
    case h_9 => exact moves_storeGlobal inside stepped
    case h_12 =>
      refine moves_on inside stepped fun f' mapped => ?_
      obtain ⟨⟨v, f₁⟩, popped, rfl⟩ := map_ok mapped
      exact Frame.pop_place popped
    case h_13 =>
      obtain ⟨f', jumped, rfl⟩ := onFrame_next stepped
      obtain ⟨chunk, pointer⟩ := Frame.jump_ok jumped
      exact .jump found rfl chunk pointer
    case h_14 =>
      obtain ⟨f', jumped, rfl⟩ := onFrame_next stepped
      obtain ⟨⟨v, f₁⟩, popped, jumped⟩ := bind_ok.mp jumped
      obtain ⟨same, place⟩ := Frame.pop_place popped
      simp only at jumped
      split at jumped
      · cases jumped
        exact .on inside same place
      · obtain ⟨chunk, pointer⟩ := Frame.jump_ok jumped
        exact .jump found rfl (chunk.trans same) pointer
    case h_15 => exact moves_return inside stepped
    case h_16 => exact moves_invoke inside stepped
    case h_17 => exact moves_printLine inside stepped
    case h_18 =>
      refine moves_on inside stepped fun f' called => ?_
      obtain ⟨⟨args, f₁⟩, popped, applied⟩ := bind_ok.mp called
      simp only at applied
      split at applied <;> cases applied
      exact (Frame.popArgs_place popped).trans (Frame.push_place _ _)

end Step

section Measure

/-- The most steps that one instruction stands for where `room` more frames may open: its own, and those
of a whole method of at most `size` instructions in the next frame. -/
def cost (size : Nat) : Nat → Nat
  | 0 => 1
  | room + 1 => 1 + size * cost size room

theorem cost_pos (size room : Nat) : 0 < cost size room := by
  cases room with
  | zero => exact Nat.one_pos
  | succ room => exact Nat.lt_of_lt_of_le Nat.one_pos (Nat.le_add_right _ _)

def pending (size limit : Nat) : List Frame → Nat
  | [] => 0
  | f :: callers =>
      (f.chunk.code.size - f.pointer) * cost size (limit - (callers.length + 1)) + pending size limit callers

def State.frames (s : State σ) : List Frame := s.frame :: s.callers

structure State.Within (unit : CompiledUnit) (limit : Nat) (s : State σ) : Prop where
  depth : s.depth = s.frames.length
  bound : s.depth ≤ max limit 1
  chunks : ∀ f ∈ s.frames, f.chunk ∈ unit.chunks

variable {unit : CompiledUnit} {limit : Nat} {s s' : State σ}

theorem start_within (unit : CompiledUnit) (limit : Nat) (world : World σ) :
    (start unit world).Within unit limit where
  depth := rfl
  bound := Nat.le_max_right _ _
  chunks := List.forall_mem_singleton.mpr List.mem_cons_self

theorem Moves.within (moves : Moves unit limit s s') (within : s.Within unit limit) :
    s'.Within unit limit := by
  obtain ⟨depth, bound, chunks⟩ := within
  cases moves with
  | on _ same _ | jump _ _ same _ =>
      obtain ⟨active, callers⟩ := List.forall_mem_cons.mp chunks
      exact ⟨depth, bound, List.forall_mem_cons.mpr ⟨same ▸ active, callers⟩⟩
  | call _ same _ room listed =>
      obtain ⟨active, callers⟩ := List.forall_mem_cons.mp chunks
      refine ⟨congrArg (· + 1) depth, Nat.le_trans room (Nat.le_max_left _ _), ?_⟩
      refine List.forall_mem_cons.mpr ⟨List.mem_cons_of_mem _ (Array.mem_toList_iff.mpr listed), ?_⟩
      exact List.forall_mem_cons.mpr ⟨same ▸ active, callers⟩
  | back _ =>
      obtain ⟨_, chunks⟩ := List.forall_mem_cons.mp chunks
      obtain ⟨caller, callers⟩ := List.forall_mem_cons.mp chunks
      refine ⟨congrArg (· - 1) depth, Nat.le_trans (Nat.sub_le _ _) bound, ?_⟩
      exact List.forall_mem_cons.mpr ⟨caller, callers⟩

theorem pending_lt {size : Nat} {f f' : Frame} {callers : List Frame} (same : f'.chunk = f.chunk)
    (inside : f.pointer < f.chunk.code.size) (further : f.pointer < f'.pointer) :
    pending size limit (f' :: callers) < pending size limit (f :: callers) := by
  have less : f'.chunk.code.size - f'.pointer < f.chunk.code.size - f.pointer := by
    rw [same]
    omega
  exact Nat.add_lt_add_right (Nat.mul_lt_mul_of_pos_right less (cost_pos _ _)) _

theorem Moves.pending_lt (moves : Moves unit limit s s') (within : s.Within unit limit)
    (forward : ∀ chunk ∈ unit.chunks, chunk.LeadsForward) :
    pending unit.longest limit s'.frames < pending unit.longest limit s.frames := by
  obtain ⟨depth, _, chunks⟩ := within
  cases moves with
  | on inside same next => exact Machine.pending_lt same inside (next ▸ Nat.lt_succ_self _)
  | @jump f _ _ _ _ _ _ found leads same lands =>
      have ahead := (forward f.chunk (chunks f List.mem_cons_self) _ _ _ found leads).1
      exact Machine.pending_lt same (Array.getElem?_eq_some_iff.mp found).1 (lands ▸ ahead)
  | @call f f' callers count _ callee args inside same next room listed =>
      have longest : callee.code.size ≤ unit.longest :=
        CompiledUnit.size_le_longest (List.mem_cons_of_mem _ (Array.mem_toList_iff.mpr listed))
      have counted : count = callers.length + 1 := depth
      obtain ⟨rest, same_room⟩ : ∃ rest, limit - (callers.length + 1) = rest + 1 :=
        ⟨limit - (callers.length + 2), by omega⟩
      have less_room : limit - (callers.length + 1 + 1) = rest := by omega
      -- The call itself stands for the whole method that it enters.
      have whole : callee.code.size * cost unit.longest rest ≤ unit.longest * cost unit.longest rest :=
        Nat.mul_le_mul_right _ longest
      have before : f.chunk.code.size - f.pointer = f'.chunk.code.size - f'.pointer + 1 := by
        rw [same, next]
        omega
      simp only [State.frames, pending, Frame.enter, List.length_cons, Nat.sub_zero, less_room, same_room,
        before, cost, Nat.succ_mul]
      omega
  | @back f caller callers _ _ v inside =>
      -- The caller goes on where it was, and the frame that returns had an instruction left.
      have left : 0 < (f.chunk.code.size - f.pointer) * cost unit.longest (limit - (callers.length + 1 + 1)) :=
        Nat.mul_pos (Nat.sub_pos_of_lt inside) (cost_pos _ _)
      exact Nat.lt_add_of_pos_left left

variable [LineSink σ]

theorem runFor_halts (forward : ∀ chunk ∈ unit.chunks, chunk.LeadsForward) (within : s.Within unit limit) :
    ∃ result, ∀ fuel, pending unit.longest limit s.frames < fuel →
      runFor unit limit fuel s = some result := by
  induction bound : pending unit.longest limit s.frames using Nat.strongRecOn generalizing s with
  | _ n ih =>
      cases stepped : step unit limit s with
      | stop result world =>
          refine ⟨(result, world), fun fuel enough => ?_⟩
          obtain ⟨fuel, rfl⟩ := Nat.exists_eq_add_of_lt enough
          simp only [runFor, stepped]
      | next s₁ =>
          have moves := step_moves stepped
          have less := moves.pending_lt within forward
          obtain ⟨result, found⟩ := ih _ (bound ▸ less) (moves.within within) rfl
          refine ⟨result, fun fuel enough => ?_⟩
          obtain ⟨fuel, rfl⟩ := Nat.exists_eq_add_of_lt enough
          simp only [runFor, stepped]
          exact found _ (by omega)

theorem reaches_within {world : World σ} (reaches : Reaches unit limit (start unit world) s) :
    s.Within unit limit :=
  reaches.invariant (P := State.Within unit limit) (fun _ _ within stepped => (step_moves stepped).within within)
    (start_within unit limit world)

end Measure

end Machine

def CompiledUnit.stepBound (unit : CompiledUnit) (limit : Nat) : Nat :=
  unit.entry.code.size * Machine.cost unit.longest (limit - 1)

/-- A compiled program halts, whatever its calls do and however the output behaves: its branches lead
forward inside their methods, and there are never more frames than the limit, or than one. -/
theorem compile_halts {name text : String} {unit : CompiledUnit} (compiled : compile name text = .ok unit) :
    (∀ chunk ∈ unit.chunks, chunk.LeadsForward) ∧
      ∀ (σ : Type) [LineSink σ] (m : Machine σ),
        (∃ result m', ∀ fuel, unit.stepBound m.limit < fuel → m.run fuel unit = some (result, m')) ∧
        ∀ s, Machine.Reaches unit m.limit (Machine.start unit ⟨∅, m.world.output⟩) s →
          s.frames.length ≤ max m.limit 1 := by
  obtain ⟨forms, p, r, _, _, _, implements⟩ := compile_implements compiled
  have forward := implements.leadsForward
  refine ⟨forward, fun σ _ m => ⟨?_, fun s reaches => ?_⟩⟩
  · obtain ⟨⟨result, world⟩, found⟩ :=
      Machine.runFor_halts forward (Machine.start_within unit m.limit ⟨∅, m.world.output⟩)
    refine ⟨result, ⟨world, m.limit⟩, fun fuel enough => ?_⟩
    simp only [Machine.run, found fuel enough]
  · have within := Machine.reaches_within reaches
    exact within.depth ▸ within.bound

section Endless

open Unfolding

def endless : Expression :=
  .block
    [.function "f" ["x"] (.call "f" [.symbol "x" ⟨1, 16, 15⟩] ⟨1, 13, 12⟩) ⟨1, 1, 0⟩,
      .call "f" [.constant (.datum (.long 1)) ⟨1, 23, 22⟩] ⟨1, 20, 19⟩] ⟨1, 1, 0⟩

theorem parse_endless : parse "(defn f [x] (f x)) (f 1)" = .ok endless := by
  with_unfolding_all rfl

theorem compile_endless : ∃ unit, compile "endless" "(defn f [x] (f x)) (f 1)" = .ok unit := by
  apply exists_of_toBool
  simp [parse_endless, endless]

theorem endless_halts : ∃ unit, compile "endless" "(defn f [x] (f x)) (f 1)" = .ok unit ∧
    (∀ chunk ∈ unit.chunks, chunk.LeadsForward) ∧
    (∃ result m', ∀ fuel, unit.stepBound 100 < fuel →
      ((Machine.new Buffer.unbounded).withLimit 100).run fuel unit = some (result, m')) ∧
    ∀ s, Machine.Reaches unit 100 (Machine.start unit ⟨∅, Buffer.unbounded⟩) s → s.frames.length ≤ 100 := by
  obtain ⟨unit, compiled⟩ := compile_endless
  obtain ⟨forward, halts⟩ := compile_halts compiled
  exact ⟨unit, compiled, forward, halts Buffer ((Machine.new Buffer.unbounded).withLimit 100)⟩

end Endless

end LispMachine
