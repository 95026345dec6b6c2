import LispMachine.Proofs.Layout
import LispMachine.Proofs.Pool

set_option autoImplicit false

namespace LispMachine

namespace Builder

def extended (b : Builder) (op : Opcode) (p : Position) : Builder :=
  { b with
    code := b.code.push ⟨op, some p⟩
    depth := b.depth - op.stackEffect.1 + op.stackEffect.2
    maxStack := max b.maxStack (b.depth - op.stackEffect.1 + op.stackEffect.2)
    slots := max b.slots ((op.localSlot?.map (·.toNat + 1)).getD 0) }

theorem emit_ok {b b' : Builder} {op : Opcode} {p : Position} (emitted : b.emit op p = .ok b') :
    op.stackEffect.1 ≤ b.depth ∧ (op = .ret → b.depth = 1) ∧
      b.depth - op.stackEffect.1 + op.stackEffect.2 ≤ maxDepth ∧ b' = b.extended op p := by
  obtain ⟨name, arity, code, depth, maxStack, slots⟩ := b
  simp only [emit] at emitted
  split at emitted
  · cases emitted
  next pops =>
    split at emitted
    · cases emitted
    next balanced =>
      split at emitted <;> cases emitted
      next room =>
        refine ⟨Nat.le_of_not_lt pops, fun isRet => ?_, Nat.le_of_not_lt room, rfl⟩
        exact Decidable.byContradiction fun other => balanced ⟨isRet, other⟩

def retargeted (b : Builder) (jump : Nat) (instruction : Instruction) : Builder :=
  { b with code := b.code.set! jump instruction }

theorem land_ok {b b' : Builder} {jump : Nat} {p : Position} (landed : b.land jump p = .ok b') :
    b.code.size < UInt32.size ∧ ∃ instruction op, b.code[jump]? = some instruction ∧
      instruction.opcode.retarget? (UInt32.ofNat b.code.size) = some op ∧
      b' = b.retargeted jump { instruction with opcode := op } := by
  obtain ⟨name, arity, code, depth, maxStack, slots⟩ := b
  simp only [land] at landed
  split at landed
  · cases landed
  next small =>
    split at landed <;> cases landed
    next code' found =>
      obtain ⟨instruction, old, found⟩ := Option.bind_eq_some_iff.mp found
      obtain ⟨op, new, found⟩ := Option.bind_eq_some_iff.mp found
      cases found
      exact ⟨Nat.lt_of_not_le small, instruction, op, old, new, rfl⟩

theorem toNat_maxStack {maxStack : Nat} (low : maxStack ≤ maxDepth) :
    (UInt16.ofNat maxStack).toNat = maxStack :=
  UInt16.toNat_ofNat_of_lt' (Nat.lt_succ_of_le low)

theorem toNat_maxLocals (arity : UInt8) {slots : Nat} (low : slots ≤ Environment.lastSlot) :
    (UInt16.ofNat (max arity.toNat slots)).toNat = max arity.toNat slots := by
  apply UInt16.toNat_ofNat_of_lt'
  have few := arity.toNat_lt
  simp only [Environment.lastSlot] at low
  simp only [UInt16.size]
  omega

end Builder

namespace Generator

namespace State

structure Valid (s : State) : Prop where
  pool : s.pool.Valid
  maxStack : s.body.maxStack ≤ Builder.maxDepth
  slots : s.body.slots ≤ Environment.lastSlot

theorem emit_ok {s s' : State} {op : Opcode} {p : Position} (emitted : s.emit op p = .ok s') :
    ∃ body, s.body.emit op p = .ok body ∧ s' = { s with body } := by
  obtain ⟨pool, methods, body⟩ := s
  obtain ⟨body', inner, done⟩ := bind_ok.mp emitted
  cases done
  exact ⟨body', inner, rfl⟩

theorem land_ok {s s' : State} {jump : Nat} {p : Position} (landed : s.land jump p = .ok s') :
    ∃ body, s.body.land jump p = .ok body ∧ s' = { s with body } := by
  obtain ⟨pool, methods, body⟩ := s
  obtain ⟨body', inner, done⟩ := bind_ok.mp landed
  cases done
  exact ⟨body', inner, rfl⟩

theorem closeFunction_ok {s s' : State} {index : UInt16} {chunk : Chunk} {around : Builder} {p : Position}
    (closed : s.closeFunction index chunk around p = .ok s') :
    s' = ⟨s.pool, s.methods.set! index.toNat (some chunk), around⟩ := by
  obtain ⟨pool, methods, body⟩ := s
  simp only [closeFunction] at closed
  split at closed <;> cases closed
  rfl

end State

/-- From `s` to `s'` code was appended; of the old code only the branches at `ends` may differ. -/
structure Progress (ends : List Nat) (s s' : State) : Prop where
  methods : s'.methods = s.methods
  name : s'.body.name = s.body.name
  arity : s'.body.arity = s.body.arity
  size : s.body.code.size ≤ s'.body.code.size
  kept : ∀ k, k < s.body.code.size → k ∉ ends → s'.body.code[k]? = s.body.code[k]?
  maxStack : s.body.maxStack ≤ s'.body.maxStack
  slots : s.body.slots ≤ s'.body.slots
  pool : s.pool.Within s'.pool
  valid : s'.Valid

-- Branches that the second part gives targets are new in the first part or listed.
theorem Progress.trans {ends more : List Nat} {s s₁ s₂ : State} (first : Progress ends s s₁)
    (second : Progress more s₁ s₂) (new : ∀ k ∈ more, k ∈ ends ∨ s.body.code.size ≤ k) :
    Progress ends s s₂ where
  methods := second.methods.trans first.methods
  name := second.name.trans first.name
  arity := second.arity.trans first.arity
  size := Nat.le_trans first.size second.size
  kept k old free := by
    rw [second.kept k (Nat.lt_of_lt_of_le old first.size), first.kept k old free]
    intro again
    rcases new k again with listed | late
    · exact free listed
    · omega
  maxStack := Nat.le_trans first.maxStack second.maxStack
  slots := Nat.le_trans first.slots second.slots
  pool := first.pool.trans second.pool
  valid := second.valid

theorem Progress.weaken {ends more : List Nat} {s s' : State} (progress : Progress ends s s')
    (listed : ends ⊆ more) : Progress more s s' :=
  { progress with kept := fun k old free => progress.kept k old fun member => free (listed member) }

theorem Progress.refl {s : State} (valid : s.Valid) : Progress [] s s where
  methods := rfl
  name := rfl
  arity := rfl
  size := Nat.le_refl _
  kept _ _ _ := rfl
  maxStack := Nat.le_refl _
  slots := Nat.le_refl _
  pool := .refl _
  valid := valid

structure Agrees (m : Method) (s : State) (i j : Nat) : Prop where
  code : ∀ k, i ≤ k → k < j → m.chunk.code[k]? = s.body.code[k]?
  maxStack : s.body.maxStack ≤ m.chunk.maxStack.toNat
  slots : s.body.slots ≤ m.chunk.maxLocals.toNat
  pool : s.pool.Within m.pool

theorem Agrees.earlier {m : Method} {ends : List Nat} {s s' : State} {i j i' j' : Nat}
    (agrees : Agrees m s' i j) (progress : Progress ends s s') (from_le : i ≤ i') (to_le : j' ≤ j)
    (old : j' ≤ s.body.code.size) (free : ∀ k ∈ ends, k < i' ∨ j' ≤ k) : Agrees m s i' j' where
  code k low high := by
    rw [agrees.code k (by omega) (by omega)]
    apply progress.kept k (by omega)
    intro listed
    rcases free k listed with before | behind <;> omega
  maxStack := Nat.le_trans progress.maxStack agrees.maxStack
  slots := Nat.le_trans progress.slots agrees.slots
  pool := progress.pool.trans agrees.pool

structure Generated (s s' : State) (claim : Method → Prop) : Prop extends Progress [] s s' where
  laid : ∀ m, Agrees m s' s.body.code.size s'.body.code.size → claim m

namespace Generated

variable {s s₁ s₂ : State} {claim next : Method → Prop}

theorem trans (first : Generated s s₁ claim) (second : Generated s₁ s₂ next) :
    Generated s s₂ (fun m => claim m ∧ next m) where
  toProgress := first.toProgress.trans second.toProgress (by simp)
  laid m agrees := by
    have left := agrees.earlier second.toProgress (Nat.le_refl _) second.size (Nat.le_refl _) (by simp)
    refine ⟨first.laid m left, second.laid m ?_⟩
    exact { agrees with code := fun k low high => agrees.code k (Nat.le_trans first.size low) high }

theorem imp (generated : Generated s s₁ claim) (weaker : ∀ m, claim m → next m) :
    Generated s s₁ next :=
  { generated with laid := fun m agrees => weaker m (generated.laid m agrees) }

theorem none (valid : s.Valid) (always : ∀ m, claim m) : Generated s s claim :=
  { Progress.refl valid with laid := fun m _ => always m }

end Generated

structure Emitted (op : Opcode) (p : Position) (s s' : State) : Prop extends Progress [] s s' where
  grown : s'.body.code.size = s.body.code.size + 1
  code : s'.body.code[s.body.code.size]? = some ⟨op, some p⟩
  pops : op.stackEffect.1 ≤ s.body.depth
  balanced : op = .ret → s.body.depth = 1
  depth : s'.body.depth = s.body.depth - op.stackEffect.1 + op.stackEffect.2
  room : s'.body.depth ≤ s'.body.maxStack
  slot : ∀ slot, op.localSlot? = some slot → slot.toNat < s'.body.slots

-- The pool may grow with the instruction that names its newest entry.
theorem emitted_of_pool {s : State} {pool : ConstantPool} {body : Builder} {op : Opcode} {p : Position}
    (valid : s.Valid) (filled : pool.Valid) (within : s.pool.Within pool)
    (small : ∀ slot, op.localSlot? = some slot → slot.toNat < Environment.lastSlot)
    (emitted : s.body.emit op p = .ok body) : Emitted op p s { s with pool, body } := by
  obtain ⟨pops, balanced, low, rfl⟩ := Builder.emit_ok emitted
  have slots : (op.localSlot?.map (·.toNat + 1)).getD 0 ≤ Environment.lastSlot := by
    cases found : op.localSlot? with
    | none => exact Nat.zero_le _
    | some slot => exact small slot found
  constructor
  case toProgress =>
    constructor
    case methods => rfl
    case name => rfl
    case arity => rfl
    case size => simp [Builder.extended]
    case kept =>
      intro k old _
      simp only [Builder.extended, Array.getElem?_push_lt old, Array.getElem?_eq_getElem old]
    case maxStack => exact Nat.le_max_left _ _
    case slots => exact Nat.le_max_left _ _
    case pool => exact within
    case valid =>
      exact ⟨filled, Nat.max_le.mpr ⟨valid.maxStack, low⟩, Nat.max_le.mpr ⟨valid.slots, slots⟩⟩
  case grown => simp [Builder.extended]
  case code => simp [Builder.extended]
  case pops => exact pops
  case balanced => exact balanced
  case depth => rfl
  case room => exact Nat.le_max_right _ _
  case slot =>
    intro slot found
    simp only [Builder.extended, found, Option.map_some, Option.getD_some]
    omega

namespace State

variable {s s' : State} {op : Opcode} {p : Position}

theorem emit_emitted (valid : s.Valid)
    (small : ∀ slot, op.localSlot? = some slot → slot.toNat < Environment.lastSlot)
    (emitted : s.emit op p = .ok s') : Emitted op p s s' := by
  obtain ⟨body, inner, rfl⟩ := emit_ok emitted
  exact emitted_of_pool valid valid.pool (.refl _) small inner

theorem emit_slotless (valid : s.Valid) (slotless : op.localSlot? = none)
    (emitted : s.emit op p = .ok s') : Emitted op p s s' :=
  emit_emitted valid (by simp [slotless]) emitted

theorem emitIndexed_emitted {d : Datum} {opcode : UInt16 → Opcode} (valid : s.Valid)
    (slotless : ∀ index, (opcode index).localSlot? = none)
    (emitted : s.emitIndexed d opcode p = .ok s') :
    ∃ index, Emitted (opcode index) p s s' ∧ s'.pool.get? index = some d := by
  obtain ⟨pool, methods, body⟩ := s
  simp only [emitIndexed] at emitted
  split at emitted
  · cases emitted
  next index filled added =>
    obtain ⟨body', inner, done⟩ := bind_ok.mp emitted
    cases done
    obtain ⟨full, within, found⟩ := ConstantPool.add_some valid.pool added
    refine ⟨index, emitted_of_pool valid full within ?_ inner, found⟩
    simp [slotless]

theorem emitLiteral_emitted {value : Literal} (valid : s.Valid)
    (emitted : s.emitLiteral value p = .ok s') :
    ∃ op, Emitted op p s s' ∧ op.stackEffect = (0, 1) ∧
      ∀ pool, s'.pool.Within pool → Pushes pool value op := by
  have pooled {d : Datum} (emitted : s.emitIndexed d .loadConst p = .ok s') :
      ∃ op, Emitted op p s s' ∧ op.stackEffect = (0, 1) ∧
        ∀ pool, s'.pool.Within pool → Pushes pool (.datum d) op := by
    obtain ⟨index, emitted, found⟩ := emitIndexed_emitted valid (fun _ => rfl) emitted
    exact ⟨_, emitted, rfl, fun pool within => .pooled (within index d found)⟩
  unfold emitLiteral at emitted
  split at emitted
  · exact ⟨_, emit_slotless valid rfl emitted, rfl, fun _ _ => .nil⟩
  · exact ⟨_, emit_slotless valid rfl emitted, rfl, fun _ _ => .yes⟩
  · exact ⟨_, emit_slotless valid rfl emitted, rfl, fun _ _ => .no⟩
  next n =>
    split at emitted
    next fits =>
      exact ⟨_, emit_slotless valid rfl emitted, rfl,
        fun _ _ => .short fits.1 fits.2⟩
    next => exact pooled emitted
  next => exact pooled emitted

end State

theorem Emitted.kept_later {op : Opcode} {p : Position} {s s₁ s₂ : State} (emitted : Emitted op p s s₁)
    (later : Progress [] s₁ s₂) : s₂.body.code[s.body.code.size]? = some ⟨op, some p⟩ := by
  rw [later.kept _ (by rw [emitted.grown]; omega) (by simp), emitted.code]

theorem Emitted.placed {op : Opcode} {p : Position} {s s' : State} {m : Method} (emitted : Emitted op p s s')
    (code : m.chunk.code[s.body.code.size]? = s'.body.code[s.body.code.size]?)
    (maxStack : s'.body.maxStack ≤ m.chunk.maxStack.toNat)
    (slots : s'.body.slots ≤ m.chunk.maxLocals.toNat) : Placed m s.body.depth s.body.code.size op p where
  code := code.trans emitted.code
  pops := emitted.pops
  room := by
    have := emitted.room
    rw [emitted.depth] at this
    omega
  slot slot found := Nat.lt_of_lt_of_le (emitted.slot slot found) slots

theorem Emitted.generated {op : Opcode} {p : Position} {s s' : State} (emitted : Emitted op p s s') :
    Generated s s' (fun m => Placed m s.body.depth s.body.code.size op p ∧ s'.pool.Within m.pool) where
  toProgress := emitted.toProgress
  laid m agrees := by
    have grown := emitted.grown
    exact ⟨emitted.placed (agrees.code _ (Nat.le_refl _) (by omega)) agrees.maxStack agrees.slots,
      agrees.pool⟩

end Generator

end LispMachine
