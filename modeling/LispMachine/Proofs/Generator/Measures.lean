import LispMachine.Proofs.Generator.Progress
import LispMachine.Proofs.Resolution.Globals

set_option autoImplicit false

namespace LispMachine

structure ConstantPool.Holds (Q : String → Prop) (pool : ConstantPool) : Prop where
  size : pool.entries.size ≤ limit
  texts : ∀ s, Datum.str s ∈ pool.entries → Q s

variable {Q : String → Prop}

theorem ConstantPool.Holds.add {pool pool' : ConstantPool} {d : Datum} {i : UInt16} (holds : pool.Holds Q)
    (new : ∀ s, d = .str s → Q s) (added : pool.add d = (some i, pool')) : pool'.Holds Q := by
  obtain ⟨entries, index⟩ := pool
  simp only [ConstantPool.add] at added
  split at added
  · cases added
    exact holds
  · split at added <;> cases added
    next room =>
      refine ⟨Array.size_push d ▸ room, fun s member => ?_⟩
      rcases Array.mem_push.mp member with old | same
      · exact holds.texts s old
      · exact new s same.symm

namespace Generator

variable {r : Resolution} {s s' s₁ s₂ : State} {p : Position}

structure State.Tidy (Q : String → Prop) (s : State) : Prop where
  slots : s.body.slots = slotsUsed s.body.code
  pool : s.pool.Holds Q

theorem State.tidy_new {pool : ConstantPool} (holds : pool.Holds Q) (methods : Array (Option Chunk))
    (name : String) (arity : UInt8) : Tidy Q ⟨pool, methods, .new name arity⟩ :=
  ⟨by simp [Builder.new, slotsUsed], holds⟩

structure Grown (Q : String → Prop) (s : State) (depth top : Nat) (s' : State) : Prop where
  depth : s'.body.depth = depth
  maxStack : s'.body.maxStack = max s.body.maxStack top
  tidy : s.Tidy Q → s'.Tidy Q

namespace Grown

variable {depth top depth' top' : Nat}

theorem refl (s : State) : Grown Q s s.body.depth 0 s := ⟨rfl, (Nat.max_zero _).symm, id⟩

theorem trans (first : Grown Q s depth top s₁) (second : Grown Q s₁ depth' top' s₂) :
    Grown Q s depth' (max top top') s₂ where
  depth := second.depth
  maxStack := by rw [second.maxStack, first.maxStack, Nat.max_assoc]
  tidy := second.tidy ∘ first.tidy

theorem congr (grown : Grown Q s depth top s') (same : depth = depth') (high : top = top') :
    Grown Q s depth' top' s' := same ▸ high ▸ grown

-- A place to which the stack is set back is no new depth.
theorem atDepth (grown : Grown Q s depth top s') (base : Nat) : Grown Q s base top (s'.atDepth base) where
  depth := rfl
  maxStack := grown.maxStack
  tidy tidy := ⟨(grown.tidy tidy).slots, (grown.tidy tidy).pool⟩

end Grown

theorem emit_grown {op : Opcode} (emitted : s.emit op p = .ok s') :
    Grown Q s (op.depthAfter s.body.depth) (op.depthAfter s.body.depth) s' := by
  obtain ⟨body, inner, rfl⟩ := State.emit_ok emitted
  obtain ⟨_, _, _, rfl⟩ := Builder.emit_ok inner
  refine ⟨rfl, rfl, fun tidy => ⟨?_, tidy.pool⟩⟩
  simp only [Builder.extended, slotsUsed_push, tidy.slots, Opcode.slots]

theorem emitIndexed_grown {d : Datum} {opcode : UInt16 → Opcode} (new : ∀ s, d = .str s → Q s)
    (emitted : s.emitIndexed d opcode p = .ok s') : ∃ index,
      Grown Q s ((opcode index).depthAfter s.body.depth) ((opcode index).depthAfter s.body.depth) s' := by
  obtain ⟨pool, methods, body⟩ := s
  simp only [State.emitIndexed] at emitted
  split at emitted
  · cases emitted
  next index filled added =>
    have grown : Grown Q ⟨filled, methods, body⟩ _ _ s' := emit_grown emitted
    exact ⟨index, grown.depth, grown.maxStack, fun tidy =>
      grown.tidy ⟨tidy.slots, tidy.pool.add new added⟩⟩

theorem emitLiteral_grown {value : Literal} (texts : ∀ t ∈ value.texts, Q t)
    (emitted : s.emitLiteral value p = .ok s') :
    Grown Q s (s.body.depth + 1) (s.body.depth + 1) s' := by
  have pooled {d : Datum} (new : ∀ s, d = .str s → Q s) (emitted : s.emitIndexed d .loadConst p = .ok s') :
      Grown Q s (s.body.depth + 1) (s.body.depth + 1) s' := by
    obtain ⟨_, grown⟩ := emitIndexed_grown new emitted
    exact grown
  unfold State.emitLiteral at emitted
  split at emitted
  case h_4 =>
    split at emitted
    · exact emit_grown emitted
    · exact pooled (by simp) emitted
  case h_5 d _ =>
    refine pooled (fun text same => texts text ?_) emitted
    simp [same, Literal.texts]
  all_goals exact emit_grown emitted

theorem emitBranch_grown {op : Opcode} {target : OpenBranch} (emitted : s.emitBranch op p = .ok (target, s')) :
    Grown Q s (op.depthAfter s.body.depth) (op.depthAfter s.body.depth) s' ∧
      target.depth = op.depthAfter s.body.depth := by
  obtain ⟨s₁, inner, done⟩ := bind_ok.mp emitted
  cases done
  have grown : Grown Q s _ _ s' := emit_grown inner
  exact ⟨grown, grown.depth⟩

theorem land_grown {jump : Nat} (landed : s.land jump p = .ok s') : Grown Q s s.body.depth 0 s' := by
  obtain ⟨body, inner, rfl⟩ := State.land_ok landed
  obtain ⟨_, instruction, op, found, retargeted, rfl⟩ := Builder.land_ok inner
  refine ⟨rfl, (Nat.max_zero _).symm, fun tidy => ⟨?_, tidy.pool⟩⟩
  exact tidy.slots.trans (slotsUsed_set found (Opcode.slots_retarget? retargeted)).symm

theorem landAll_grown {jumps : List Nat} (landed : s.landAll p jumps = .ok s') :
    Grown Q s s.body.depth 0 s' := by
  induction jumps generalizing s with
  | nil =>
      rw [State.landAll] at landed
      split at landed <;> cases landed
      exact .refl _
  | cons jump rest ih =>
      obtain ⟨s₁, first, others⟩ := bind_ok.mp landed
      have first : Grown Q s _ _ s₁ := land_grown first
      exact (first.trans (ih others)).congr first.depth rfl

theorem emitCall_grown {id : Nat} {argc : UInt8} (emitted : emitCall r s id argc p = .ok s') :
    Grown Q s (s.body.depth - argc.toNat + 1) (s.body.depth - argc.toNat + 1) s' := by
  unfold emitCall at emitted
  split at emitted
  next callee _ =>
    have grown : Grown Q s _ _ s' := emit_grown emitted
    cases callee <;> exact grown
  next => cases emitted

theorem stages_grown {stages : List Stage} {depth : Nat} (pushed : s.body.depth = depth + 1)
    (visited : Generator.stages r stages s = .ok s') :
    ∃ top ≤ depth + 1, Grown Q s (depth + 1) top s' := by
  induction stages generalizing s with
  | nil =>
      cases visited
      exact ⟨0, Nat.zero_le _, pushed ▸ .refl _⟩
  | cons stage rest ih =>
      obtain ⟨s₁, call, others⟩ := bind_ok.mp visited
      have called : Grown Q s _ _ s₁ := emitCall_grown call
      rw [pushed] at called
      obtain ⟨top, low, grown⟩ := ih called.depth others
      exact ⟨_, Nat.max_le.mpr ⟨Nat.le_refl _, low⟩, called.trans grown⟩

-- A branch over an arm leaves the depth that it was tested at.
theorem skip_grown {target : OpenBranch} {depth : Nat} (pushed : s.body.depth = depth + 1)
    (emitted : s.emitBranch (.jumpIfFalse 0) p = .ok (target, s')) :
    Grown Q s depth depth s' ∧ target.depth = depth := by
  have grown : Grown Q s _ _ s' ∧ _ := emitBranch_grown emitted
  rw [pushed] at grown
  exact grown

theorem arm_grown {s₃ s₄ s₅ : State} {exit : OpenBranch} {jump depth test arm : Nat}
    (tested : Grown Q s (depth + 1) test s₁) (skip : Grown Q s₁ depth depth s₂)
    (chosen : Grown Q s₂ (depth + 1) arm s₃) (deep : depth < test)
    (leave : s₃.emitBranch (.jump 0) p = .ok (exit, s₄)) (landed : s₄.land jump p = .ok s₅) :
    Grown Q s (depth + 1) (max test (max arm (depth + 1))) s₅ := by
  have leave := (emitBranch_grown leave (Q := Q)).1
  have landed : Grown Q s₄ _ _ s₅ := land_grown landed
  rw [chosen.depth] at leave
  refine ((((tested.trans skip).trans chosen).trans leave).trans landed).congr leave.depth ?_
  simp only [Opcode.depthAfter, Opcode.stackEffect]
  omega

open Expression

theorem symbol_grown {name : String} (named : r.Named Q) (visited : visit r (.symbol name p) s = .ok s') :
    Grown Q s (s.body.depth + 1) (s.body.depth + 1) s' := by
  rw [visit] at visited
  split at visited
  · exact emit_grown visited
  next g bound =>
    obtain ⟨_, grown⟩ := emitIndexed_grown (fun _ same => Datum.str.inj same ▸ named _ _ bound) visited
    exact grown
  · exact emit_grown visited
  · cases visited

mutual

theorem visit_grown (named : r.Named Q) (e : Expression) {s s' : State} (texts : ∀ t ∈ e.texts, Q t)
    (visited : visit r e s = .ok s') : Grown Q s (s.body.depth + 1) (e.top s.body.depth) s' := by
  cases e with
  | constant value p => exact emitLiteral_grown texts visited
  | symbol name p => exact symbol_grown named visited
  | define name value p =>
      rw [visit] at visited
      obtain ⟨s₁, first, visited⟩ := bind_ok.mp visited
      obtain ⟨s₂, second, third⟩ := bind_ok.mp visited
      have first := visit_grown named value (List.forall_mem_cons.mp texts).2 first
      have second : Grown Q s₁ _ _ s₂ := emit_grown second
      rw [first.depth] at second
      have stored : Grown Q s₂ (s.body.depth + 1) (s.body.depth + 1) s' := by
        have pushed : s₂.body.depth = s.body.depth + 2 := second.depth
        split at third
        · exact (emit_grown third).congr (by rw [pushed]; rfl) (by rw [pushed]; rfl)
        next g bound =>
          obtain ⟨_, grown⟩ := emitIndexed_grown (fun _ same => Datum.str.inj same ▸ named _ _ bound) third
          exact grown.congr (by rw [pushed]; rfl) (by rw [pushed]; rfl)
        · cases third
        · cases third
      refine ((first.trans second).trans stored).congr rfl ?_
      simp only [top, Opcode.depthAfter, Opcode.stackEffect]
      omega
  | function name params body p =>
      obtain ⟨pool, methods, around⟩ := s
      rw [visit] at visited
      split at visited
      next index _ =>
        split at visited
        · cases visited
        · obtain ⟨s₁, inner, visited⟩ := bind_ok.mp visited
          obtain ⟨chunk, _, visited⟩ := bind_ok.mp visited
          obtain ⟨s₂, closed, emitted⟩ := bind_ok.mp visited
          have inner := visit_grown named body (List.forall_mem_cons.mp texts).2 inner
          obtain rfl := State.closeFunction_ok closed
          have emitted : Grown Q _ _ _ s' := emit_grown emitted
          refine ⟨emitted.depth, emitted.maxStack, fun tidy => emitted.tidy ⟨tidy.slots, ?_⟩⟩
          exact (inner.tidy (State.tidy_new tidy.pool _ _ _)).pool
      · cases visited
      · cases visited
  | bind name bound body p =>
      rw [visit] at visited
      split at visited
      next index _ =>
        obtain ⟨s₁, first, visited⟩ := bind_ok.mp visited
        obtain ⟨s₂, second, third⟩ := bind_ok.mp visited
        obtain ⟨outer, inner⟩ := List.forall_mem_append.mp texts
        have first := visit_grown named bound outer first
        have second : Grown Q s₁ _ _ s₂ := emit_grown second
        rw [first.depth] at second
        have third := visit_grown named body inner third
        rw [show s₂.body.depth = s.body.depth from second.depth] at third
        refine ((first.trans second).trans third).congr rfl ?_
        have deep := bound.lt_top s.body.depth
        simp only [top, Opcode.depthAfter, Opcode.stackEffect]
        omega
      · cases visited
      · cases visited
  | branch condition yes no p =>
      rw [visit] at visited
      obtain ⟨s₁, first, visited⟩ := bind_ok.mp visited
      obtain ⟨⟨toElse, s₂⟩, second, visited⟩ := bind_ok.mp visited
      obtain ⟨s₃, third, visited⟩ := bind_ok.mp visited
      obtain ⟨⟨toEnd, s₄⟩, fourth, visited⟩ := bind_ok.mp visited
      obtain ⟨s₅, fifth, visited⟩ := bind_ok.mp visited
      obtain ⟨s₆, sixth, visited⟩ := bind_ok.mp visited
      obtain ⟨_, _, seventh⟩ := bind_ok.mp visited
      obtain ⟨texts, third'⟩ := List.forall_mem_append.mp texts
      obtain ⟨first', second'⟩ := List.forall_mem_append.mp texts
      have tested := visit_grown named condition first' first
      obtain ⟨skip, back⟩ := skip_grown tested.depth second
      have chosen := visit_grown named yes second' third
      rw [skip.depth] at chosen
      have deep := condition.lt_top s.body.depth
      have arm := (arm_grown tested skip chosen deep fourth fifth).atDepth s.body.depth
      rw [back] at sixth
      have other := visit_grown named no third' sixth
      rw [arm.depth] at other
      have landed : Grown Q s₆ _ _ s' := land_grown seventh
      refine ((arm.trans other).trans landed).congr other.depth ?_
      simp only [top]
      omega
  | block body p => exact sequence_grown named body texts visited
  | cond clauses p => exact conditional_grown named clauses texts rfl visited
  | call name args p =>
      rw [visit] at visited
      obtain ⟨s₁, first, visited⟩ := bind_ok.mp visited
      split at visited
      · cases visited
      next few =>
        have count : (UInt8.ofNat args.length).toNat = args.length :=
          UInt8.toNat_ofNat_of_lt' (Nat.lt_succ_of_le (Nat.le_of_not_lt few))
        have first := arguments_grown named args texts first
        have second : Grown Q s₁ _ _ s' := emitCall_grown visited
        rw [first.depth, count, Nat.add_sub_cancel] at second
        exact (first.trans second).congr rfl (Nat.max_comm _ _)
  | compose first stages p =>
      obtain ⟨s₁, start, visited⟩ := bind_ok.mp visited
      have start := visit_grown named first texts start
      obtain ⟨top, low, others⟩ := stages_grown start.depth visited
      have deep := first.lt_top s.body.depth
      exact (start.trans others).congr rfl (Nat.max_eq_left (Nat.le_trans low deep))

theorem arguments_grown (named : r.Named Q) (args : List Expression) {s s' : State} (texts : ∀ t ∈ textsAll args, Q t)
    (visited : arguments r args s = .ok s') :
    Grown Q s (s.body.depth + args.length) (topArguments args s.body.depth) s' := by
  cases args with
  | nil =>
      cases visited
      exact .refl _
  | cons e rest =>
      obtain ⟨s₁, first, others⟩ := bind_ok.mp visited
      obtain ⟨head, tail⟩ := List.forall_mem_append.mp texts
      have first := visit_grown named e head first
      have others := arguments_grown named rest tail others
      rw [first.depth] at others
      exact (first.trans others).congr (by rw [List.length_cons]; omega) rfl

theorem sequence_grown (named : r.Named Q) (body : List Expression) {s s' : State} {p : Position}
    (texts : ∀ t ∈ textsAll body, Q t) (visited : sequence r p body s = .ok s') :
    Grown Q s (s.body.depth + 1) (max (s.body.depth + 1) (topAll body s.body.depth)) s' := by
  cases body with
  | nil => exact emit_grown visited
  | cons e rest =>
      obtain ⟨s₁, first, others⟩ := bind_ok.mp visited
      obtain ⟨head, tail⟩ := List.forall_mem_append.mp texts
      have first := visit_grown named e head first
      have others := following_grown named rest tail first.depth others
      refine (first.trans others).congr rfl ?_
      have deep := e.lt_top s.body.depth
      simp only [topAll]
      omega

theorem following_grown (named : r.Named Q) (rest : List Expression) {s s' : State} {depth : Nat}
    (texts : ∀ t ∈ textsAll rest, Q t) (pushed : s.body.depth = depth + 1)
    (visited : following r rest s = .ok s') : Grown Q s (depth + 1) (topAll rest depth) s' := by
  cases rest with
  | nil =>
      cases visited
      exact pushed ▸ .refl _
  | cons e rest =>
      obtain ⟨s₁, first, visited⟩ := bind_ok.mp visited
      obtain ⟨s₂, second, third⟩ := bind_ok.mp visited
      obtain ⟨head, tail⟩ := List.forall_mem_append.mp texts
      have first : Grown Q s _ _ s₁ := emit_grown first
      rw [pushed] at first
      have second := visit_grown named e head second
      rw [show s₁.body.depth = depth from first.depth] at second
      have third := following_grown named rest tail second.depth third
      refine ((first.trans second).trans third).congr rfl ?_
      have deep := e.lt_top depth
      simp only [topAll, Opcode.depthAfter, Opcode.stackEffect]
      omega

theorem conditional_grown (named : r.Named Q) (clauses : List (Expression × Expression)) {ends : List Nat} {s s' : State}
    {p : Position} {base : Nat} (texts : ∀ t ∈ textsClauses clauses, Q t) (start : s.body.depth = base)
    (visited : conditional r p base clauses ends s = .ok s') :
    Grown Q s (base + 1) (max (base + 1) (topClauses clauses base)) s' := by
  cases clauses with
  | nil =>
      obtain ⟨s₁, first, second⟩ := bind_ok.mp visited
      have first : Grown Q s _ _ s₁ := emit_grown first
      have second : Grown Q s₁ _ _ s' := landAll_grown second
      rw [start] at first
      exact (first.trans second).congr first.depth rfl
  | cons clause rest =>
      obtain ⟨test, consequent⟩ := clause
      rw [conditional] at visited
      obtain ⟨s₁, first, visited⟩ := bind_ok.mp visited
      obtain ⟨⟨toNext, s₂⟩, second, visited⟩ := bind_ok.mp visited
      obtain ⟨s₃, third, visited⟩ := bind_ok.mp visited
      obtain ⟨_, _, visited⟩ := bind_ok.mp visited
      obtain ⟨⟨toEnd, s₄⟩, fourth, visited⟩ := bind_ok.mp visited
      obtain ⟨s₅, fifth, remaining⟩ := bind_ok.mp visited
      obtain ⟨inside, others⟩ := List.forall_mem_append.mp texts
      obtain ⟨first', second'⟩ := List.forall_mem_append.mp inside
      have tested := visit_grown named test first' first
      rw [start] at tested
      obtain ⟨skip, _⟩ := skip_grown tested.depth second
      have chosen := visit_grown named consequent second' third
      rw [skip.depth] at chosen
      have arm := (arm_grown tested skip chosen (test.lt_top base) fourth fifth).atDepth base
      have others := conditional_grown named rest others arm.depth remaining
      refine (arm.trans others).congr rfl ?_
      simp only [topClauses]
      omega

end

theorem finish_measured {e : Expression} {pool : ConstantPool} {methods : Array (Option Chunk)} {name : String}
    {arity : UInt8} {chunk : Chunk} (valid : s'.Valid) (small : pool.entries.size ≤ ConstantPool.limit)
    (visited : visit r e ⟨pool, methods, .new name arity⟩ = .ok s')
    (finished : s'.body.finish p = .ok chunk) : chunk.Measured e := by
  obtain ⟨body, emitted, done⟩ := bind_ok.mp finished
  cases done
  obtain ⟨_, _, _, rfl⟩ := Builder.emit_ok emitted
  -- No constant matters here.
  have grown : Grown (fun _ => True) ⟨pool, methods, .new name arity⟩ _ _ s' :=
    visit_grown (fun _ b _ => by cases b <;> trivial) e (fun _ _ => trivial) visited
  have tidy := grown.tidy (State.tidy_new ⟨small, fun _ _ => trivial⟩ _ _ _)
  have deepest : max s'.body.maxStack (Opcode.ret.depthAfter s'.body.depth) = s'.body.maxStack := by
    rw [grown.depth]
    exact Nat.max_zero _
  constructor
  case stack =>
    calc (UInt16.ofNat (max s'.body.maxStack (Opcode.ret.depthAfter s'.body.depth))).toNat
        = s'.body.maxStack := by rw [deepest, Builder.toNat_maxStack valid.maxStack]
      _ = e.top 0 := grown.maxStack.trans (Nat.zero_max _)
  case locals =>
    have slots : max s'.body.slots Opcode.ret.slots = slotsUsed (s'.body.code.push ⟨.ret, some p⟩) := by
      rw [slotsUsed_push, tidy.slots]
    have low : max s'.body.slots Opcode.ret.slots ≤ Environment.lastSlot :=
      Nat.max_le.mpr ⟨valid.slots, Nat.zero_le _⟩
    exact (Builder.toNat_maxLocals s'.body.arity low).trans (congrArg _ slots)

end Generator

end LispMachine
