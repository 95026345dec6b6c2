import LispMachine.Proofs.Generator.Branches

set_option autoImplicit false

namespace LispMachine.Generator

open Resolution (Covers CalleeEntry)

variable {r : Resolution} {s s' : State}

def Lays (r : Resolution) (e : Expression) (s s' : State) : Prop :=
  s'.body.depth = s.body.depth + 1 ∧
    Generated s s' (fun m => Laid r m e s.body.depth s.body.code.size s'.body.code.size)

theorem emitCall_generated {id argc : Nat} {p : Position} (valid : s.Valid)
    (entry : r.CalleeEntry id argc) (few : argc ≤ maxArity) {depth : Nat}
    (pushed : s.body.depth = depth + argc)
    (emitted : emitCall r s id (UInt8.ofNat argc) p = .ok s') :
    s'.body.depth = depth + 1 ∧ s'.body.code.size = s.body.code.size + 1 ∧
      Generated s s' (fun m => ∃ callee, Called r m depth s.body.code.size id argc p callee) := by
  obtain ⟨callee, found, takes⟩ := entry
  have count : (UInt8.ofNat argc).toNat = argc := UInt8.toNat_ofNat_of_lt' (Nat.lt_succ_of_le few)
  simp only [emitCall, found] at emitted
  have slotless : (callOpcode callee (UInt8.ofNat argc)).localSlot? = none := by cases callee <;> rfl
  have effect : (callOpcode callee (UInt8.ofNat argc)).stackEffect = (argc, 1) := by
    cases callee <;> simp only [callOpcode, Opcode.stackEffect, count]
  have emitted := State.emit_emitted valid (by simp [slotless]) emitted
  have depth' := emitted.depth
  rw [effect, pushed] at depth'
  refine ⟨by omega, emitted.grown, emitted.generated.imp fun m laid => ?_⟩
  exact ⟨callee, found, takes, few, pushed ▸ laid.1⟩

theorem stages_generated {stages : List Stage} {depth : Nat} (valid : s.Valid)
    (entries : ∀ stage ∈ stages, r.CalleeEntry stage.id 1) (pushed : s.body.depth = depth + 1)
    (visited : Generator.stages r stages s = .ok s') :
    s'.body.depth = depth + 1 ∧
      Generated s s' (fun m => LaidStages r m stages depth s.body.code.size s'.body.code.size) := by
  induction stages generalizing s with
  | nil =>
      cases visited
      exact ⟨pushed, .none valid fun _ => .nil⟩
  | cons stage rest ih =>
      obtain ⟨s₁, call, others⟩ := bind_ok.mp visited
      obtain ⟨head, tail⟩ := List.forall_mem_cons.mp entries
      obtain ⟨depth₁, size₁, first⟩ := emitCall_generated valid head (by decide) pushed call
      obtain ⟨depth₂, second⟩ := ih first.valid tail depth₁ others
      refine ⟨depth₂, (first.trans second).imp ?_⟩
      rintro m ⟨⟨callee, called⟩, laid⟩
      exact .cons called (size₁ ▸ laid)

theorem pushNil_generated {p : Position} (valid : s.Valid) (emitted : s.emit .pushNil p = .ok s') :
    s'.body.depth = s.body.depth + 1 ∧ s'.body.code.size = s.body.code.size + 1 ∧
      Generated s s' (fun m => Placed m s.body.depth s.body.code.size .pushNil p) := by
  have emitted := State.emit_slotless valid rfl emitted
  exact ⟨emitted.depth, emitted.grown, emitted.generated.imp fun m placed => placed.1⟩

theorem symbol_generated {name : String} {p : Position} {b : Binding} (valid : s.Valid)
    (entry : r.bindings[p.offset]? = some b) (fits : r.Fits b)
    (visited : visit r (.symbol name p) s = .ok s') : Lays r (.symbol name p) s s' := by
  have load {op : Opcode} (emitted : Emitted op p s s') (effect : op.stackEffect = (0, 1))
      (loads : ∀ pool, s'.pool.Within pool → Loads pool b op) : Lays r (.symbol name p) s s' := by
    have depth := emitted.depth
    rw [effect] at depth
    refine ⟨depth, emitted.generated.imp fun m ⟨placed, within⟩ => ?_⟩
    rw [emitted.grown]
    exact .symbol entry fits (loads m.pool within) placed
  simp only [visit, entry] at visited
  cases b with
  | slot index =>
      have emitted := State.emit_emitted valid (fun _ same => by cases same; exact fits) visited
      exact load emitted rfl fun _ _ => .slot
  | global name =>
      obtain ⟨index, emitted, found⟩ := State.emitIndexed_emitted valid (fun _ => rfl) visited
      exact load emitted rfl fun pool within => .global (within index _ found)
  | function index => exact load (State.emit_slotless valid rfl visited) rfl fun _ _ => .function

theorem store_emitted {b : Binding} {p : Position} (valid : s.Valid) (fits : b.Within 0 Environment.lastSlot)
    (emitted : (match b with
      | .slot index => s.emit (.storeLocal index) p
      | .global name => s.emitIndexed (.str name) .storeGlobal p
      | .function _ => Diagnostic.invariant .defineOfFunction p) = .ok s') :
    ∃ op, Emitted op p s s' ∧ op.stackEffect = (1, 0) ∧ ∀ pool, s'.pool.Within pool → Stores pool b op := by
  cases b with
  | slot index =>
      refine ⟨_, State.emit_emitted valid ?_ emitted, rfl, fun _ _ => .slot⟩
      simpa [Opcode.localSlot?] using fits.2
  | global name =>
      obtain ⟨index, emitted, found⟩ := State.emitIndexed_emitted valid (fun _ => rfl) emitted
      exact ⟨_, emitted, rfl, fun pool within => .global (within index _ found)⟩
  | function index => exact fits.elim

mutual

theorem visit_generated (e : Expression) {s s' : State} (covered : r.Covers e) (valid : s.Valid)
    (visited : visit r e s = .ok s') : Lays r e s s' := by
  cases e with
  | constant value p =>
      obtain ⟨op, emitted, effect, pushes⟩ := State.emitLiteral_emitted valid visited
      have depth := emitted.depth
      rw [effect] at depth
      refine ⟨depth, emitted.generated.imp fun m ⟨placed, within⟩ => ?_⟩
      rw [emitted.grown]
      exact .constant (pushes m.pool within) placed
  | symbol name p =>
      cases covered with
      | symbol entry fits => exact symbol_generated valid entry fits visited
  | define name value p =>
      cases covered with
      | @define _ _ _ b inner entry fits =>
      rw [visit] at visited
      obtain ⟨s₁, first, visited⟩ := bind_ok.mp visited
      obtain ⟨s₂, second, visited⟩ := bind_ok.mp visited
      obtain ⟨depth₁, first⟩ := visit_generated value inner valid first
      have second := State.emit_slotless first.valid rfl second
      rw [entry] at visited
      obtain ⟨op, third, effect, stores⟩ := store_emitted second.valid fits (by cases b <;> exact visited)
      have depth₂ : s₂.body.depth = s.body.depth + 2 := by rw [second.depth, depth₁]; rfl
      have depth₃ : s'.body.depth = s.body.depth + 1 := by rw [third.depth, effect, depth₂]; rfl
      refine ⟨depth₃, ((first.trans second.generated).trans third.generated).imp ?_⟩
      rintro m ⟨⟨laid, dup, _⟩, store, within⟩
      rw [third.grown, second.grown]
      rw [depth₁] at dup
      rw [depth₂, second.grown] at store
      exact .define laid dup entry (stores m.pool within) store
  | function name params body p => cases covered
  | bind name bound body p =>
      cases covered with
      | @bind _ _ _ _ index outer entry fits inner =>
      simp only [visit, entry] at visited
      obtain ⟨s₁, first, visited⟩ := bind_ok.mp visited
      obtain ⟨s₂, second, third⟩ := bind_ok.mp visited
      obtain ⟨depth₁, first⟩ := visit_generated bound outer valid first
      have second := State.emit_emitted first.valid (by simpa [Opcode.localSlot?] using fits) second
      obtain ⟨depth₃, third⟩ := visit_generated body inner second.valid third
      have depth₂ : s₂.body.depth = s.body.depth := by rw [second.depth, depth₁]; rfl
      rw [depth₂] at depth₃
      refine ⟨depth₃, ((first.trans second.generated).trans third).imp ?_⟩
      rintro m ⟨⟨laid, store, _⟩, rest⟩
      rw [depth₁] at store
      rw [depth₂, second.grown] at rest
      exact .bind entry laid store rest
  | branch condition yes no p =>
      cases covered with
      | branch tested chosen other =>
      rw [visit] at visited
      obtain ⟨s₁, first, visited⟩ := bind_ok.mp visited
      obtain ⟨⟨toElse, s₂⟩, second, visited⟩ := bind_ok.mp visited
      obtain ⟨s₃, third, visited⟩ := bind_ok.mp visited
      obtain ⟨⟨toEnd, s₄⟩, fourth, visited⟩ := bind_ok.mp visited
      obtain ⟨s₅, fifth, visited⟩ := bind_ok.mp visited
      obtain ⟨s₆, sixth, visited⟩ := bind_ok.mp visited
      obtain ⟨_, _, seventh⟩ := bind_ok.mp visited
      obtain ⟨depth₁, first⟩ := visit_generated condition tested valid first
      obtain ⟨skip, rfl⟩ := State.emitBranch_emitted first.valid rfl second
      obtain ⟨depth₃, third⟩ := visit_generated yes chosen skip.valid third
      obtain ⟨leave, rfl⟩ := State.emitBranch_emitted third.valid rfl fourth
      have depth₂ : s₂.body.depth = s.body.depth := by rw [skip.depth, depth₁]; rfl
      have fifth := land_landed leave.valid fifth
      have arm := arm_of_parts first depth₁ skip third depth₃ leave fifth
      have back := State.atDepth_progress fifth.valid s₂.body.depth
      obtain ⟨depth₆, sixth⟩ := visit_generated no other back.valid sixth
      have seventh := land_landed sixth.valid seventh
      have middle : Progress [] s₅ s₆ := back.trans sixth.toProgress (by simp)
      have found : s₆.body.code[s₃.body.code.size]? = some ⟨.jump 0, some p⟩ :=
        (middle.kept _ (by rw [arm.grown]; omega) (by simp)).trans arm.jump
      obtain ⟨progress, closed⟩ := arm.close
        ((middle.weaken (by simp)).trans seventh.toProgress fun k listed => .inl listed)
        (land_jump seventh found) (by simp)
      refine ⟨?_, progress, fun m agrees => ?_⟩
      · rw [seventh.depth, depth₆]
        exact congrArg (· + 1) depth₂
      · obtain ⟨⟨test, chosen, toElse, lands, placed⟩, toEnd, leads, leaves⟩ := closed m agrees
        have behind := arm.behind
        have grown : (s₅.atDepth s₂.body.depth).body.code.size = s₃.body.code.size + 1 := arm.grown
        have otherwise := sixth.laid m (agrees.earlier seventh.toProgress (by omega)
          (Nat.le_of_eq seventh.same.symm) (Nat.le_refl _) (by simp; omega))
        rw [grown, show (s₅.atDepth s₂.body.depth).body.depth = s.body.depth from depth₂] at otherwise
        rw [depth₂, skip.grown] at chosen
        rw [← seventh.same] at otherwise
        exact .branch test placed chosen leaves lands otherwise leads
  | block body p =>
      cases covered with
      | block inner =>
      obtain ⟨depth, laid⟩ := sequence_generated p body inner valid visited
      exact ⟨depth, laid.imp fun m => .block⟩
  | cond clauses p =>
      cases covered with
      | cond tests consequents =>
      obtain ⟨progress, depth, _, laid⟩ :=
        conditional_generated p clauses tests consequents valid rfl (by simp [Jumps]) visited
      exact ⟨depth, progress, fun m agrees => .cond (laid m agrees)⟩
  | call name args p =>
      cases covered with
      | call entry inner =>
      rw [visit] at visited
      obtain ⟨s₁, first, visited⟩ := bind_ok.mp visited
      split at visited
      · cases visited
      next few =>
        obtain ⟨depth₁, first⟩ := arguments_generated args inner valid first
        obtain ⟨depth₂, size₂, second⟩ :=
          emitCall_generated first.valid entry (Nat.le_of_not_lt few) depth₁ visited
        refine ⟨depth₂, (first.trans second).imp ?_⟩
        rintro m ⟨laid, callee, called⟩
        rw [size₂]
        exact .call laid called
  | compose first stages p =>
      cases covered with
      | compose inner entries =>
      obtain ⟨s₁, first, visited⟩ := bind_ok.mp visited
      obtain ⟨depth₁, first⟩ := visit_generated _ inner valid first
      obtain ⟨depth₂, second⟩ := stages_generated first.valid entries depth₁ visited
      refine ⟨depth₂, (first.trans second).imp ?_⟩
      rintro m ⟨laid, calls⟩
      exact .compose laid calls

theorem arguments_generated (es : List Expression) {s s' : State} (covered : ∀ e ∈ es, r.Covers e)
    (valid : s.Valid) (visited : arguments r es s = .ok s') :
    s'.body.depth = s.body.depth + es.length ∧
      Generated s s' (fun m => LaidArguments r m es s.body.depth s.body.code.size s'.body.code.size) := by
  cases es with
  | nil =>
      cases visited
      exact ⟨rfl, .none valid fun _ => .nil⟩
  | cons e rest =>
      obtain ⟨head, tail⟩ := List.forall_mem_cons.mp covered
      obtain ⟨s₁, first, others⟩ := bind_ok.mp visited
      obtain ⟨depth₁, first⟩ := visit_generated e head valid first
      obtain ⟨depth₂, second⟩ := arguments_generated rest tail first.valid others
      rw [depth₁] at depth₂
      refine ⟨by rw [depth₂, List.length_cons]; omega, (first.trans second).imp ?_⟩
      rintro m ⟨laid, others⟩
      exact .cons laid (depth₁ ▸ others)

theorem sequence_generated (p : Position) (es : List Expression) {s s' : State}
    (covered : ∀ e ∈ es, r.Covers e) (valid : s.Valid) (visited : sequence r p es s = .ok s') :
    s'.body.depth = s.body.depth + 1 ∧
      Generated s s' (fun m => LaidSequence r m p es s.body.depth s.body.code.size s'.body.code.size) := by
  cases es with
  | nil =>
      obtain ⟨depth, size, pushed⟩ := pushNil_generated valid visited
      exact ⟨depth, pushed.imp fun m placed => size ▸ .nil placed⟩
  | cons e rest =>
      obtain ⟨head, tail⟩ := List.forall_mem_cons.mp covered
      obtain ⟨s₁, first, others⟩ := bind_ok.mp visited
      obtain ⟨depth₁, first⟩ := visit_generated e head valid first
      obtain ⟨depth₂, second⟩ := following_generated rest tail first.valid depth₁ others
      refine ⟨depth₂, (first.trans second).imp ?_⟩
      rintro m ⟨laid, others⟩
      exact .cons laid others

theorem following_generated (es : List Expression) {s s' : State} {depth : Nat}
    (covered : ∀ e ∈ es, r.Covers e) (valid : s.Valid) (pushed : s.body.depth = depth + 1)
    (visited : following r es s = .ok s') :
    s'.body.depth = depth + 1 ∧
      Generated s s' (fun m => LaidFollowing r m es depth s.body.code.size s'.body.code.size) := by
  cases es with
  | nil =>
      cases visited
      exact ⟨pushed, .none valid fun _ => .nil⟩
  | cons e rest =>
      obtain ⟨head, tail⟩ := List.forall_mem_cons.mp covered
      obtain ⟨s₁, first, visited⟩ := bind_ok.mp visited
      obtain ⟨s₂, second, third⟩ := bind_ok.mp visited
      have first := State.emit_slotless valid rfl first
      have depth₁ : s₁.body.depth = depth := by rw [first.depth, pushed]; rfl
      obtain ⟨depth₂, second⟩ := visit_generated e head first.valid second
      rw [depth₁] at depth₂
      obtain ⟨depth₃, third⟩ := following_generated rest tail second.valid depth₂ third
      refine ⟨depth₃, ((first.generated.trans second).trans third).imp ?_⟩
      rintro m ⟨⟨⟨drop, _⟩, laid⟩, others⟩
      rw [pushed] at drop
      rw [depth₁, first.grown] at laid
      exact .cons drop laid others

theorem conditional_generated (p : Position) (clauses : List (Expression × Expression)) {ends : List Nat}
    {s s' : State} {base : Nat} (tests : ∀ clause ∈ clauses, r.Covers clause.1)
    (consequents : ∀ clause ∈ clauses, r.Covers clause.2) (valid : s.Valid)
    (pushed : s.body.depth = base) (jumps : Jumps p ends s)
    (visited : conditional r p base clauses ends s = .ok s') :
    Progress ends s s' ∧ s'.body.depth = base + 1 ∧ Exits p ends s' s'.body.code.size ∧
      ∀ m, Agrees m s' s.body.code.size s'.body.code.size →
        LaidClauses r m p clauses base s.body.code.size s'.body.code.size := by
  cases clauses with
  | nil =>
      obtain ⟨s₁, first, second⟩ := bind_ok.mp visited
      obtain ⟨depth₁, size₁, first⟩ := pushNil_generated valid first
      obtain ⟨progress, same, depth₂, exits⟩ :=
        landAll_exits first.valid (jumps.progress first.toProgress) second
      refine ⟨(first.toProgress.weaken (by simp)).trans progress fun k => .inl, by omega, exits, ?_⟩
      intro m agrees
      have laid := first.laid m (agrees.earlier progress (Nat.le_refl _) (by omega) (Nat.le_refl _)
        fun k listed => .inl (jumps.before k listed))
      rw [same, size₁]
      exact .nil (pushed ▸ laid)
  | cons clause rest =>
      obtain ⟨test, consequent⟩ := clause
      obtain ⟨tested, tests⟩ := List.forall_mem_cons.mp tests
      obtain ⟨chosen, consequents⟩ := List.forall_mem_cons.mp consequents
      rw [conditional] at visited
      obtain ⟨s₁, first, visited⟩ := bind_ok.mp visited
      obtain ⟨⟨toNext, s₂⟩, second, visited⟩ := bind_ok.mp visited
      obtain ⟨s₃, third, visited⟩ := bind_ok.mp visited
      obtain ⟨_, _, visited⟩ := bind_ok.mp visited
      obtain ⟨⟨toEnd, s₄⟩, fourth, visited⟩ := bind_ok.mp visited
      obtain ⟨s₅, fifth, remaining⟩ := bind_ok.mp visited
      obtain ⟨depth₁, first⟩ := visit_generated test tested valid first
      obtain ⟨skip, rfl⟩ := State.emitBranch_emitted first.valid rfl second
      obtain ⟨depth₃, third⟩ := visit_generated consequent chosen skip.valid third
      obtain ⟨leave, rfl⟩ := State.emitBranch_emitted third.valid rfl fourth
      have depth₂ : s₂.body.depth = base := by rw [skip.depth, depth₁, pushed]; rfl
      have fifth := land_landed leave.valid fifth
      have arm := arm_of_parts first depth₁ skip third depth₃ leave fifth
      have back := State.atDepth_progress fifth.valid base
      have later : Jumps p (s₃.body.code.size :: ends) (s₅.atDepth base) := by
        refine List.forall_mem_cons.mpr ⟨⟨0, arm.jump⟩, ?_⟩
        exact (jumps.progress arm.toProgress).progress back
      obtain ⟨progress, depth, exits, laid⟩ :=
        conditional_generated p rest tests consequents back.valid rfl later remaining
      obtain ⟨progress, closed⟩ := arm.close
        ((back.weaken (by simp)).trans progress fun k => .inl) exits jumps.before
      refine ⟨progress, depth, fun k listed => exits k (List.mem_cons_of_mem _ listed), ?_⟩
      intro m agrees
      obtain ⟨⟨test, chosen, toNext, lands, placed⟩, toEnd, leads, leaves⟩ := closed m agrees
      have behind := arm.behind
      have grown : (s₅.atDepth base).body.code.size = s₃.body.code.size + 1 := arm.grown
      have others := laid m
        { agrees with code := fun k low high => agrees.code k (by omega) high }
      rw [grown] at others
      rw [depth₂, skip.grown] at chosen
      rw [pushed] at test placed leaves
      exact .cons test placed chosen leaves lands others leads

end

end LispMachine.Generator
