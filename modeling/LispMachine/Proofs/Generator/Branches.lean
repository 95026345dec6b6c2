import LispMachine.Proofs.Generator.Progress

set_option autoImplicit false

namespace LispMachine.Generator

namespace State

variable {s s' : State} {p : Position}

theorem atDepth_progress (valid : s.Valid) (depth : Nat) : Progress [] s (s.atDepth depth) :=
  { Progress.refl valid with valid := ⟨valid.pool, valid.maxStack, valid.slots⟩ }

theorem emitBranch_emitted {op : Opcode} {target : OpenBranch} (valid : s.Valid)
    (slotless : op.localSlot? = none) (emitted : s.emitBranch op p = .ok (target, s')) :
    Emitted op p s s' ∧ target = ⟨s.body.code.size, s'.body.depth⟩ := by
  obtain ⟨s₁, inner, done⟩ := bind_ok.mp emitted
  cases done
  have inner := emit_slotless valid slotless inner
  refine ⟨inner, ?_⟩
  rw [inner.grown, Nat.add_sub_cancel]

end State

structure Landed (jump : Nat) (s s' : State) : Prop extends Progress [jump] s s' where
  fits : s.body.code.size < UInt32.size
  same : s'.body.code.size = s.body.code.size
  depth : s'.body.depth = s.body.depth
  code : ∀ instruction op, s.body.code[jump]? = some instruction →
    instruction.opcode.retarget? (UInt32.ofNat s.body.code.size) = some op →
    s'.body.code[jump]? = some { instruction with opcode := op }

theorem land_landed {s s' : State} {jump : Nat} {p : Position} (valid : s.Valid)
    (landed : s.land jump p = .ok s') : Landed jump s s' := by
  obtain ⟨body, inner, rfl⟩ := State.land_ok landed
  obtain ⟨fits, old, op, at_jump, target, rfl⟩ := Builder.land_ok inner
  have inside : jump < s.body.code.size := (Array.getElem?_eq_some_iff.mp at_jump).1
  constructor
  case toProgress =>
    constructor
    case methods => rfl
    case name => rfl
    case arity => rfl
    case size => simp [Builder.retargeted]
    case kept =>
      intro k _ free
      have other : jump ≠ k := fun same => free (by simp [same])
      simp [Builder.retargeted, other]
    case maxStack => exact Nat.le_refl _
    case slots => exact Nat.le_refl _
    case pool => exact .refl _
    case valid => exact ⟨valid.pool, valid.maxStack, valid.slots⟩
  case fits => exact fits
  case same => simp [Builder.retargeted]
  case depth => rfl
  case code =>
    intro instruction op' found retargeted
    rw [at_jump] at found
    cases found
    rw [target] at retargeted
    cases retargeted
    simp [Builder.retargeted, inside]

def Exits (p : Position) (ends : List Nat) (s : State) (stop : Nat) : Prop :=
  ∀ k ∈ ends, ∃ target : UInt32, s.body.code[k]? = some ⟨.jump target, some p⟩ ∧ target.toNat = stop

def Jumps (p : Position) (ends : List Nat) (s : State) : Prop :=
  ∀ k ∈ ends, ∃ target, s.body.code[k]? = some ⟨.jump target, some p⟩

theorem Jumps.before {p : Position} {ends : List Nat} {s : State} (jumps : Jumps p ends s) :
    ∀ k ∈ ends, k < s.body.code.size := by
  intro k listed
  obtain ⟨target, found⟩ := jumps k listed
  exact (Array.getElem?_eq_some_iff.mp found).1

theorem Jumps.progress {p : Position} {ends : List Nat} {s s' : State} (jumps : Jumps p ends s)
    (progress : Progress [] s s') : Jumps p ends s' := by
  intro k listed
  obtain ⟨target, found⟩ := jumps k listed
  exact ⟨target, (progress.kept k (jumps.before k listed) (by simp)).trans found⟩

theorem land_jump {s s' : State} {jump : Nat} {p : Position} {target : UInt32} (landed : Landed jump s s')
    (found : s.body.code[jump]? = some ⟨.jump target, some p⟩) :
    Exits p [jump] s' s'.body.code.size := by
  intro k listed
  cases List.mem_singleton.mp listed
  refine ⟨_, landed.code _ _ found rfl, ?_⟩
  rw [landed.same]
  exact UInt32.toNat_ofNat_of_lt' landed.fits

theorem Jumps.landed {s s' : State} {jump : Nat} {rest : List Nat} {p : Position}
    (jumps : Jumps p (jump :: rest) s) (landed : Landed jump s s') : Jumps p rest s' := by
  intro k listed
  have member : k ∈ jump :: rest := List.mem_cons_of_mem _ listed
  obtain ⟨target, found⟩ := jumps k member
  by_cases same : k = jump
  · obtain ⟨target, again, _⟩ := land_jump landed (same ▸ found) k (by simp [same])
    exact ⟨target, again⟩
  · exact ⟨target, (landed.kept k (jumps.before k member) (by simp [same])).trans found⟩

theorem landAll_exits {s s' : State} {p : Position} {ends : List Nat} (valid : s.Valid)
    (jumps : Jumps p ends s) (landed : s.landAll p ends = .ok s') :
    Progress ends s s' ∧ s'.body.code.size = s.body.code.size ∧ s'.body.depth = s.body.depth ∧
      Exits p ends s' s'.body.code.size := by
  induction ends generalizing s with
  | nil =>
      rw [State.landAll] at landed
      split at landed <;> cases landed
      exact ⟨.refl valid, rfl, rfl, nofun⟩
  | cons jump rest ih =>
      obtain ⟨s₁, first, others⟩ := bind_ok.mp landed
      have first := land_landed valid first
      obtain ⟨target, found⟩ := jumps jump (by simp)
      have head := land_jump first found
      obtain ⟨progress, same, depth, exits⟩ := ih first.valid (jumps.landed first) others
      have inside : jump < s₁.body.code.size := first.same ▸ jumps.before jump (by simp)
      refine ⟨?_, same.trans first.same, depth.trans first.depth, ?_⟩
      · exact (first.toProgress.weaken (by simp)).trans progress fun k listed => .inl (by simp [listed])
      · intro k listed
        by_cases later : k ∈ rest
        · exact exits k later
        · have here : k = jump := by simpa [later] using listed
          subst here
          rw [progress.kept k inside later, same]
          exact head k (by simp)

structure Arm (p : Position) (exit : Nat) (s s' : State) (claim : Method → Prop) : Prop
    extends Progress [] s s' where
  behind : s.body.code.size ≤ exit
  grown : s'.body.code.size = exit + 1
  jump : s'.body.code[exit]? = some ⟨.jump 0, some p⟩
  depth : s'.body.depth = s.body.depth + 1
  room : s'.body.depth ≤ s'.body.maxStack
  laid : ∀ m, Agrees m s' s.body.code.size exit → claim m

theorem Arm.placed {p : Position} {exit : Nat} {s s' : State} {claim : Method → Prop} {m : Method}
    {target : UInt32} (arm : Arm p exit s s' claim)
    (code : m.chunk.code[exit]? = some ⟨.jump target, some p⟩)
    (maxStack : s'.body.maxStack ≤ m.chunk.maxStack.toNat) :
    Placed m (s.body.depth + 1) exit (.jump target) p where
  code := code
  pops := Nat.zero_le _
  room := by
    have room := arm.room
    rw [arm.depth] at room
    simp only [Opcode.stackEffect]
    omega
  slot := nofun

-- An arm whose jump leads behind the form. The jumps of `ends` stand before the arm.
theorem Arm.close {p : Position} {exit : Nat} {ends : List Nat} {s s₁ s₂ : State}
    {claim : Method → Prop} (arm : Arm p exit s s₁ claim) (rest : Progress (exit :: ends) s₁ s₂)
    (exits : Exits p (exit :: ends) s₂ s₂.body.code.size) (old : ∀ k ∈ ends, k < s.body.code.size) :
    Progress ends s s₂ ∧ ∀ m, Agrees m s₂ s.body.code.size s₂.body.code.size →
      claim m ∧ ∃ target : UInt32, target.toNat = s₂.body.code.size ∧
        Placed m (s.body.depth + 1) exit (.jump target) p := by
  have behind := arm.behind
  have grown := arm.grown
  have size := rest.size
  constructor
  · refine (arm.toProgress.weaken (by simp)).trans rest fun k listed => ?_
    rcases List.mem_cons.mp listed with here | before
    · exact .inr (by omega)
    · exact .inl before
  · intro m agrees
    constructor
    · apply arm.laid m
      refine agrees.earlier rest (Nat.le_refl _) (by omega) (by omega) fun k listed => ?_
      rcases List.mem_cons.mp listed with here | before
      · exact .inr (by omega)
      · exact .inl (old k before)
    · obtain ⟨target, found, same⟩ := exits exit (by simp)
      refine ⟨target, same, arm.placed ?_ (Nat.le_trans rest.maxStack agrees.maxStack)⟩
      rw [agrees.code exit behind (by omega), found]

theorem arm_of_parts {p : Position} {s s₁ s₂ s₃ s₄ s₅ : State} {test chosen : Method → Prop}
    (tested : Generated s s₁ test) (deep : s₁.body.depth = s.body.depth + 1)
    (skip : Emitted (.jumpIfFalse 0) p s₁ s₂) (arm : Generated s₂ s₃ chosen)
    (arm_deep : s₃.body.depth = s₂.body.depth + 1) (leave : Emitted (.jump 0) p s₃ s₄)
    (landed : Landed s₁.body.code.size s₄ s₅) :
    Arm p s₃.body.code.size s s₅ fun m => test m ∧ chosen m ∧
      ∃ target : UInt32, target.toNat = s₃.body.code.size + 1 ∧
        Placed m (s.body.depth + 1) s₁.body.code.size (.jumpIfFalse target) p := by
  have size₁ := tested.size
  have size₂ := skip.grown
  have size₃ := arm.size
  have size₄ := leave.grown
  have depth₂ : s₂.body.depth = s.body.depth := by
    rw [skip.depth, deep]
    rfl
  have depth₄ : s₄.body.depth = s.body.depth + 1 := by
    rw [leave.depth, arm_deep, depth₂]
    rfl
  -- Only the branch behind the test changes once the arm is there.
  have tail : Progress [s₁.body.code.size] s₃ s₅ :=
    (leave.toProgress.weaken (by simp)).trans landed.toProgress fun k listed => .inl listed
  have rest : Progress [s₁.body.code.size] s₁ s₅ :=
    ((skip.toProgress.trans arm.toProgress (by simp)).weaken (by simp)).trans tail fun k listed => .inl listed
  have skipping : s₅.body.code[s₁.body.code.size]? =
      some ⟨.jumpIfFalse (UInt32.ofNat s₄.body.code.size), some p⟩ := by
    have skips := skip.kept_later (arm.toProgress.trans leave.toProgress (by simp))
    exact landed.code ⟨.jumpIfFalse 0, some p⟩ _ skips rfl
  constructor
  case toProgress =>
    exact tested.toProgress.trans rest fun k listed => by
      cases List.mem_singleton.mp listed
      exact .inr size₁
  case behind => omega
  case grown => rw [landed.same, size₄]
  case jump => rw [landed.kept _ (by omega) (by simp; omega), leave.code]
  case depth => rw [landed.depth, depth₄]
  case room =>
    have := leave.room
    have := landed.maxStack
    rw [landed.depth]
    omega
  case laid =>
    intro m agrees
    have far : ∀ k ∈ [s₁.body.code.size], k < s₂.body.code.size ∨ s₃.body.code.size ≤ k := by
      intro k listed
      cases List.mem_singleton.mp listed
      omega
    have near : ∀ k ∈ [s₁.body.code.size], k < s.body.code.size ∨ s₁.body.code.size ≤ k := by
      intro k listed
      cases List.mem_singleton.mp listed
      omega
    refine ⟨tested.laid m (agrees.earlier rest (Nat.le_refl _) (by omega) (Nat.le_refl _) near),
      arm.laid m (agrees.earlier tail (by omega) (Nat.le_refl _) (Nat.le_refl _) far), _,
      (UInt32.toNat_ofNat_of_lt' landed.fits).trans size₄, ?_⟩
    have code := agrees.code s₁.body.code.size (by omega) (by omega)
    constructor
    case code => exact code.trans skipping
    case pops => simp [Opcode.stackEffect]
    case room =>
      have room := skip.room
      have more := Nat.le_trans arm.maxStack tail.maxStack
      have enough := agrees.maxStack
      simp only [Opcode.stackEffect]
      omega
    case slot =>
      intro slot stored
      cases stored

end LispMachine.Generator
