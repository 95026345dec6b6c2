import LispMachine.Proofs.Generator.Units
import LispMachine.Proofs.Grammar

set_option autoImplicit false

namespace LispMachine

def InvariantFault.limits : List InvariantFault := [.tooManyLocals, .poolOverflow, .bodyTooLarge]

def Diagnostic.AtLimit (d : Diagnostic) : Prop :=
  ∃ fault ∈ InvariantFault.limits, d.cause = .invariant fault

namespace Generator

open Expression

abbrev Bounded {α : Type} (x : Except Diagnostic α) : Prop := FailsWith Diagnostic.AtLimit x

/-- The stack has room for the code of an expression inside `depth` forms: each form around it leaves
room for all but one argument of a call in each form that may still open. -/
def Room (stack depth : Nat) : Prop :=
  stack + (maxArity - 1) * (maxNesting - depth) < Builder.maxDepth

namespace Room

variable {stack depth : Nat}

instance : Decidable (Room stack depth) := inferInstanceAs (Decidable (_ < _))

theorem one (room : Room stack depth) : stack + 1 ≤ Builder.maxDepth := by
  simp only [Room] at room
  omega

theorem full (room : Room stack depth) (deep : depth < maxNesting) : stack + maxArity ≤ Builder.maxDepth := by
  simp only [Room, maxArity, maxNesting] at room deep ⊢
  omega

theorem inner (room : Room stack depth) (deep : depth < maxNesting) (args : Nat) (few : args < maxArity) :
    Room (stack + args) (depth + 1) := by
  simp only [Room, maxArity, maxNesting] at room deep few ⊢
  omega

end Room

section Steps

variable {s : State} {p : Position}

theorem emit_bounded (op : Opcode) {pops pushes : Nat} (effect : op.stackEffect = (pops, pushes))
    (stays : op ≠ .ret) (enough : pops ≤ s.body.depth)
    (room : s.body.depth - pops + pushes ≤ Builder.maxDepth) : Bounded (s.emit op p) := by
  obtain ⟨pool, methods, ⟨name, arity, code, depth, maxStack, slots⟩⟩ := s
  refine FailsWith.bind ?_ fun _ _ => .ok _
  simp only [Builder.emit, effect, stays, Nat.not_lt.mpr enough, Nat.not_lt.mpr room, false_and, if_false]
  exact .ok _

theorem emitIndexed_bounded {d : Datum} {opcode : UInt16 → Opcode} {pops pushes : Nat}
    (effect : ∀ index, (opcode index).stackEffect = (pops, pushes)) (stays : ∀ index, opcode index ≠ .ret)
    (enough : pops ≤ s.body.depth) (room : s.body.depth - pops + pushes ≤ Builder.maxDepth) :
    Bounded (s.emitIndexed d opcode p) := by
  obtain ⟨pool, methods, body⟩ := s
  simp only [State.emitIndexed]
  split
  · exact .error ⟨.poolOverflow, by simp [InvariantFault.limits], rfl⟩
  next index pool' _ =>
    exact emit_bounded (s := ⟨pool', methods, body⟩) _ (effect index) (stays index) enough room

theorem emitLiteral_bounded {value : Literal} (room : s.body.depth + 1 ≤ Builder.maxDepth) :
    Bounded (s.emitLiteral value p) := by
  unfold State.emitLiteral
  split
  · exact emit_bounded _ rfl nofun (Nat.zero_le _) room
  · exact emit_bounded _ rfl nofun (Nat.zero_le _) room
  · exact emit_bounded _ rfl nofun (Nat.zero_le _) room
  next =>
    split
    · exact emit_bounded _ rfl nofun (Nat.zero_le _) room
    · exact emitIndexed_bounded (fun _ => rfl) nofun (Nat.zero_le _) room
  next => exact emitIndexed_bounded (fun _ => rfl) nofun (Nat.zero_le _) room

theorem emitBranch_bounded (op : Opcode) {pops : Nat} (effect : op.stackEffect = (pops, 0))
    (stays : op ≠ .ret) (enough : pops ≤ s.body.depth) (room : s.body.depth ≤ Builder.maxDepth) :
    Bounded (s.emitBranch op p) :=
  (emit_bounded op effect stays enough (by omega)).bind fun _ _ => .ok _

theorem land_bounded {jump : Nat} {instruction : Instruction} (found : s.body.code[jump]? = some instruction)
    (branch : ∀ target, (instruction.opcode.retarget? target).isSome) : Bounded (s.land jump p) := by
  obtain ⟨pool, methods, ⟨name, arity, code, depth, maxStack, slots⟩⟩ := s
  refine FailsWith.bind ?_ fun _ _ => .ok _
  simp only [Builder.land]
  split
  · exact .error ⟨.bodyTooLarge, by simp [InvariantFault.limits], rfl⟩
  · obtain ⟨op, leads⟩ := Option.isSome_iff_exists.mp (branch (UInt32.ofNat code.size))
    have retargeted : retargetAt? code jump (UInt32.ofNat code.size) =
        some (code.set! jump { instruction with opcode := op }) := by
      rw [retargetAt?, show code[jump]? = some instruction from found]
      simp [leads]
    rw [retargeted]
    exact .ok _

theorem join_bounded {b : Builder} {expected : Nat} (same : b.depth = expected) :
    Bounded (b.join expected p) := by
  rw [Builder.join, if_pos same]
  exact .ok _

theorem landAll_bounded {ends : List Nat} (valid : s.Valid) (jumps : Jumps p ends s) :
    Bounded (s.landAll p ends) := by
  induction ends generalizing s with
  | nil =>
      rw [State.landAll]
      split
      · exact .error ⟨.bodyTooLarge, by simp [InvariantFault.limits], rfl⟩
      · exact .ok _
  | cons jump rest ih =>
      obtain ⟨target, found⟩ := jumps jump (by simp)
      refine (land_bounded found fun _ => rfl).bind fun s₁ landed => ?_
      have landed := land_landed valid landed
      exact ih landed.valid (jumps.landed landed)

end Steps

variable {r : Resolution}

theorem emitCall_bounded {s : State} {id argc : Nat} {p : Position} (entry : r.CalleeEntry id argc)
    (few : argc ≤ maxArity) {depth : Nat} (pushed : s.body.depth = depth + argc)
    (room : depth + 1 ≤ Builder.maxDepth) : Bounded (emitCall r s id (UInt8.ofNat argc) p) := by
  obtain ⟨callee, found, _⟩ := entry
  have count : (UInt8.ofNat argc).toNat = argc := UInt8.toNat_ofNat_of_lt' (Nat.lt_succ_of_le few)
  have effect : (callOpcode callee (UInt8.ofNat argc)).stackEffect = (argc, 1) := by
    cases callee <;> simp only [callOpcode, Opcode.stackEffect, count]
  simp only [emitCall, found]
  exact emit_bounded _ effect (by cases callee <;> simp [callOpcode]) (by omega) (by omega)

theorem stages_bounded {stages : List Stage} {s : State} {depth : Nat} (valid : s.Valid)
    (entries : ∀ stage ∈ stages, r.CalleeEntry stage.id 1) (pushed : s.body.depth = depth + 1)
    (room : depth + 1 ≤ Builder.maxDepth) : Bounded (Generator.stages r stages s) := by
  induction stages generalizing s with
  | nil => exact .ok _
  | cons stage rest ih =>
      obtain ⟨head, tail⟩ := List.forall_mem_cons.mp entries
      refine (emitCall_bounded head (by decide) pushed room).bind fun s₁ call => ?_
      obtain ⟨depth₁, _, call⟩ := emitCall_generated valid head (by decide) pushed call
      exact ih call.valid tail depth₁

-- The store behind a definition takes the copy of its value.
theorem store_bounded {s : State} {b : Binding} {p : Position} (fits : b.Within 0 Environment.lastSlot)
    (enough : 1 ≤ s.body.depth) (room : s.body.depth - 1 ≤ Builder.maxDepth) :
    Bounded (match b with
      | .slot index => s.emit (.storeLocal index) p
      | .global name => s.emitIndexed (.str name) .storeGlobal p
      | .function _ => Diagnostic.invariant .defineOfFunction p) := by
  cases b with
  | slot index => exact emit_bounded _ rfl nofun enough room
  | global name => exact emitIndexed_bounded (fun _ => rfl) nofun enough room
  | function index => exact fits.elim

mutual

theorem visit_bounded (e : Expression) {s : State} {depth : Nat} (covered : r.Covers e)
    (admitted : e.Admitted depth) (valid : s.Valid) (room : Room s.body.depth depth) :
    Bounded (visit r e s) := by
  cases e with
  | constant value p => exact emitLiteral_bounded room.one
  | symbol name p =>
      cases covered with
      | @symbol _ _ b entry fits =>
      simp only [visit, entry]
      cases b with
      | slot index => exact emit_bounded _ rfl nofun (Nat.zero_le _) room.one
      | global name => exact emitIndexed_bounded (fun _ => rfl) nofun (Nat.zero_le _) room.one
      | function index => exact emit_bounded _ rfl nofun (Nat.zero_le _) room.one
  | define name value p =>
      cases covered with
      | @define _ _ _ b inner entry fits =>
      cases admitted with
      | define deep inside =>
      have full := room.full deep
      simp only [maxArity] at full
      rw [visit]
      refine (visit_bounded value inner inside valid (room.inner deep 0 (by decide))).bind
        fun s₁ first => ?_
      obtain ⟨depth₁, first⟩ := visit_generated value inner valid first
      refine (emit_bounded .dup rfl nofun (by omega) (by omega)).bind fun s₂ second => ?_
      have second := State.emit_slotless first.valid rfl second
      have depth₂ : s₂.body.depth = s.body.depth + 2 := by rw [second.depth, depth₁]; rfl
      rw [entry]
      have store := store_bounded (s := s₂) (p := p) fits (by omega) (by omega)
      cases b <;> exact store
  | function name params body p => cases covered
  | bind name bound body p =>
      cases covered with
      | @bind _ _ _ _ index outer entry fits inner =>
      cases admitted with
      | bind deep first second =>
      have inside : Room s.body.depth (depth + 1) := room.inner deep 0 (by decide)
      simp only [visit, entry]
      refine (visit_bounded bound outer first valid inside).bind fun s₁ first => ?_
      obtain ⟨depth₁, first⟩ := visit_generated bound outer valid first
      refine (emit_bounded (.storeLocal index) rfl nofun (by omega) (by have := room.one; omega)).bind
        fun s₂ stored => ?_
      have stored := State.emit_emitted first.valid (by simpa [Opcode.localSlot?] using fits) stored
      have depth₂ : s₂.body.depth = s.body.depth := by rw [stored.depth, depth₁]; rfl
      exact visit_bounded body inner second stored.valid (depth₂ ▸ inside)
  | branch condition yes no p =>
      cases covered with
      | branch tested chosen other =>
      cases admitted with
      | branch deep test one two =>
      have inside : Room s.body.depth (depth + 1) := room.inner deep 0 (by decide)
      have space := room.one
      rw [visit]
      refine (visit_bounded condition tested test valid inside).bind fun s₁ first => ?_
      obtain ⟨depth₁, first⟩ := visit_generated condition tested valid first
      refine (emitBranch_bounded (.jumpIfFalse 0) rfl nofun (by omega) (by omega)).bind
        fun ⟨toElse, s₂⟩ second => ?_
      obtain ⟨skip, rfl⟩ := State.emitBranch_emitted first.valid rfl second
      have depth₂ : s₂.body.depth = s.body.depth := by rw [skip.depth, depth₁]; rfl
      refine (visit_bounded yes chosen one skip.valid (depth₂ ▸ inside)).bind fun s₃ third => ?_
      obtain ⟨depth₃, third⟩ := visit_generated yes chosen skip.valid third
      refine (emitBranch_bounded (.jump 0) rfl nofun (Nat.zero_le _) (by omega)).bind
        fun ⟨toEnd, s₄⟩ fourth => ?_
      obtain ⟨leave, rfl⟩ := State.emitBranch_emitted third.valid rfl fourth
      have skips := skip.kept_later (third.toProgress.trans leave.toProgress (by simp))
      refine (land_bounded skips fun _ => rfl).bind fun s₅ fifth => ?_
      have fifth := land_landed leave.valid fifth
      have arm := arm_of_parts first depth₁ skip third depth₃ leave fifth
      have back := State.atDepth_progress fifth.valid s₂.body.depth
      refine (visit_bounded no other two back.valid (depth₂.symm ▸ inside)).bind fun s₆ sixth => ?_
      obtain ⟨depth₆, sixth⟩ := visit_generated no other back.valid sixth
      have balanced : s₆.body.depth = s₄.body.depth := by
        rw [depth₆, leave.depth, depth₃]
        rfl
      refine (join_bounded balanced).bind fun _ _ => ?_
      have middle : Progress [] s₅ s₆ := back.trans sixth.toProgress (by simp)
      have leaves : s₆.body.code[s₃.body.code.size]? = some ⟨.jump 0, some p⟩ :=
        (middle.kept _ (by rw [arm.grown]; omega) (by simp)).trans arm.jump
      exact land_bounded leaves fun _ => rfl
  | block body p =>
      cases covered with
      | block inner =>
      cases admitted with
      | block deep inside =>
      exact sequence_bounded p body inner inside valid room deep
  | cond clauses p =>
      cases covered with
      | cond tests consequents =>
      cases admitted with
      | cond deep first second =>
      exact conditional_bounded p clauses tests consequents first second valid rfl room deep (by simp [Jumps])
  | call name args p =>
      cases covered with
      | call entry inner =>
      cases admitted with
      | call deep few inside =>
      rw [visit]
      refine (arguments_bounded args inner inside valid room deep 0 (by simpa using few) rfl).bind
        fun s₁ first => ?_
      obtain ⟨depth₁, first⟩ := arguments_generated args inner valid first
      rw [if_neg (Nat.not_lt.mpr few)]
      exact emitCall_bounded entry few depth₁ room.one
  | compose first stages p =>
      cases covered with
      | compose inner entries =>
      cases admitted with
      | compose deep inside =>
      rw [visit]
      refine (visit_bounded first inner inside valid (room.inner deep 0 (by decide))).bind
        fun s₁ visited => ?_
      obtain ⟨depth₁, visited⟩ := visit_generated first inner valid visited
      exact stages_bounded visited.valid entries depth₁ room.one

theorem arguments_bounded (es : List Expression) {s : State} {stack depth : Nat}
    (covered : ∀ e ∈ es, r.Covers e) (admitted : ∀ e ∈ es, e.Admitted (depth + 1)) (valid : s.Valid)
    (room : Room stack depth) (deep : depth < maxNesting) (args : Nat) (few : args + es.length ≤ maxArity)
    (pushed : s.body.depth = stack + args) : Bounded (arguments r es s) := by
  cases es with
  | nil => exact .ok _
  | cons e rest =>
      obtain ⟨head, tail⟩ := List.forall_mem_cons.mp covered
      obtain ⟨first, others⟩ := List.forall_mem_cons.mp admitted
      rw [List.length_cons] at few
      refine (visit_bounded e head first valid (pushed ▸ room.inner deep args (by omega))).bind fun s₁ visited => ?_
      obtain ⟨depth₁, visited⟩ := visit_generated e head valid visited
      exact arguments_bounded rest tail others visited.valid room deep (args + 1) (by omega) (by omega)

theorem sequence_bounded (p : Position) (es : List Expression) {s : State} {depth : Nat}
    (covered : ∀ e ∈ es, r.Covers e) (admitted : ∀ e ∈ es, e.Admitted (depth + 1)) (valid : s.Valid)
    (room : Room s.body.depth depth) (deep : depth < maxNesting) : Bounded (sequence r p es s) := by
  cases es with
  | nil => exact emit_bounded _ rfl nofun (Nat.zero_le _) room.one
  | cons e rest =>
      obtain ⟨head, tail⟩ := List.forall_mem_cons.mp covered
      obtain ⟨first, others⟩ := List.forall_mem_cons.mp admitted
      refine (visit_bounded e head first valid (room.inner deep 0 (by decide))).bind
        fun s₁ visited => ?_
      obtain ⟨depth₁, visited⟩ := visit_generated e head valid visited
      exact following_bounded rest tail others visited.valid room deep depth₁

theorem following_bounded (es : List Expression) {s : State} {stack depth : Nat}
    (covered : ∀ e ∈ es, r.Covers e) (admitted : ∀ e ∈ es, e.Admitted (depth + 1)) (valid : s.Valid)
    (room : Room stack depth) (deep : depth < maxNesting) (pushed : s.body.depth = stack + 1) :
    Bounded (following r es s) := by
  cases es with
  | nil => exact .ok _
  | cons e rest =>
      obtain ⟨head, tail⟩ := List.forall_mem_cons.mp covered
      obtain ⟨first, others⟩ := List.forall_mem_cons.mp admitted
      have space := room.one
      refine (emit_bounded .pop rfl nofun (by omega) (by omega)).bind fun s₁ dropped => ?_
      have dropped := State.emit_slotless valid rfl dropped
      have depth₁ : s₁.body.depth = stack := by rw [dropped.depth, pushed]; rfl
      refine (visit_bounded e head first dropped.valid
        (depth₁ ▸ room.inner deep 0 (by decide))).bind fun s₂ visited => ?_
      obtain ⟨depth₂, visited⟩ := visit_generated e head dropped.valid visited
      exact following_bounded rest tail others visited.valid room deep (depth₁ ▸ depth₂)

theorem conditional_bounded (p : Position) (clauses : List (Expression × Expression)) {ends : List Nat}
    {s : State} {base depth : Nat} (tests : ∀ clause ∈ clauses, r.Covers clause.1)
    (consequents : ∀ clause ∈ clauses, r.Covers clause.2)
    (admitted : ∀ clause ∈ clauses, clause.1.Admitted (depth + 1))
    (admitted' : ∀ clause ∈ clauses, clause.2.Admitted (depth + 1)) (valid : s.Valid)
    (pushed : s.body.depth = base) (room : Room base depth) (deep : depth < maxNesting)
    (jumps : Jumps p ends s) : Bounded (conditional r p base clauses ends s) := by
  cases clauses with
  | nil =>
      refine (emit_bounded .pushNil rfl nofun (Nat.zero_le _) (pushed ▸ room.one)).bind
        fun s₁ nothing => ?_
      have nothing := State.emit_slotless valid rfl nothing
      exact landAll_bounded nothing.valid (jumps.progress nothing.toProgress)
  | cons clause rest =>
      obtain ⟨test, consequent⟩ := clause
      obtain ⟨tested, tests⟩ := List.forall_mem_cons.mp tests
      obtain ⟨chosen, consequents⟩ := List.forall_mem_cons.mp consequents
      obtain ⟨one, admitted⟩ := List.forall_mem_cons.mp admitted
      obtain ⟨two, admitted'⟩ := List.forall_mem_cons.mp admitted'
      have inside : Room base (depth + 1) := room.inner deep 0 (by decide)
      have space := room.one
      rw [conditional]
      refine (visit_bounded test tested one valid (pushed.symm ▸ inside)).bind fun s₁ first => ?_
      obtain ⟨depth₁, first⟩ := visit_generated test tested valid first
      refine (emitBranch_bounded (.jumpIfFalse 0) rfl nofun (by omega) (by omega)).bind
        fun ⟨toNext, s₂⟩ second => ?_
      obtain ⟨skip, rfl⟩ := State.emitBranch_emitted first.valid rfl second
      have depth₂ : s₂.body.depth = base := by rw [skip.depth, depth₁, pushed]; rfl
      refine (visit_bounded consequent chosen two skip.valid (depth₂ ▸ inside)).bind fun s₃ third => ?_
      obtain ⟨depth₃, third⟩ := visit_generated consequent chosen skip.valid third
      refine (join_bounded (by omega)).bind fun _ _ => ?_
      refine (emitBranch_bounded (.jump 0) rfl nofun (Nat.zero_le _) (by omega)).bind
        fun ⟨toEnd, s₄⟩ fourth => ?_
      obtain ⟨leave, rfl⟩ := State.emitBranch_emitted third.valid rfl fourth
      have skips := skip.kept_later (third.toProgress.trans leave.toProgress (by simp))
      refine (land_bounded skips fun _ => rfl).bind fun s₅ fifth => ?_
      have fifth := land_landed leave.valid fifth
      have arm := arm_of_parts first depth₁ skip third depth₃ leave fifth
      have back := State.atDepth_progress fifth.valid base
      have later : Jumps p (s₃.body.code.size :: ends) (s₅.atDepth base) :=
        List.forall_mem_cons.mpr ⟨⟨0, arm.jump⟩, (jumps.progress arm.toProgress).progress back⟩
      exact conditional_bounded p rest tests consequents admitted admitted' back.valid rfl room deep later

end

section Units

variable {s : State}

theorem finish_bounded {b : Builder} {p : Position} (depth : b.depth = 1) : Bounded (b.finish p) := by
  obtain ⟨name, arity, code, _, maxStack, slots⟩ := b
  cases depth
  exact .ok _

theorem definition_bounded {d : Definition} {done : List Definition} (covered : r.Covers d.body)
    (admitted : d.body.Admitted 1) (few : d.params.length ≤ maxArity) (room : done.length < r.functions.size)
    (entry : r.bindings[d.id]? = some (.function (UInt16.ofNat done.length)))
    (limit : done.length < Resolution.Table.limit) (valid : s.Valid) (finished : Finished r done s)
    (space : s.body.depth + 1 ≤ Builder.maxDepth) :
    Bounded (visit r (.function d.name d.params d.body d.position) s) := by
  obtain ⟨pool, methods, around⟩ := s
  have number : (UInt16.ofNat done.length).toNat = done.length := UInt16.toNat_ofNat_of_lt' limit
  rw [Definition.id] at entry
  simp only [visit, entry]
  rw [if_neg (Nat.not_lt.mpr few)]
  have fresh : Room 0 1 := by decide
  have valid' := valid_new valid.pool methods d.name (UInt8.ofNat d.params.length)
  refine (visit_bounded d.body covered admitted valid' fresh).bind fun s₁ visited => ?_
  have visited := visit_generated d.body covered valid' visited
  refine (finish_bounded visited.1).bind fun chunk _ => FailsWith.bind ?_ fun s₂ closed => ?_
  · have inside : (UInt16.ofNat done.length).toNat < s₁.methods.size := by
      rw [number, visited.2.methods]
      exact finished.size ▸ room
    simp only [State.closeFunction, inside, if_true]
    exact .ok _
  · rw [State.closeFunction_ok closed]
    exact emit_bounded _ rfl (by simp) (Nat.zero_le _) space

theorem form_bounded {e : Expression} {forms : List Expression} {done : List Definition}
    (rest : Rest r done (e :: forms)) (admitted : e.Admitted 0) (valid : s.Valid)
    (finished : Finished r done s) (bare : s.body.depth = 0) : Bounded (visit r e s) := by
  have room : Room s.body.depth 0 := by
    rw [bare]
    decide
  cases defined : e.definition? with
  | none => exact visit_bounded e (rest.plain e List.mem_cons_self defined) admitted valid room
  | some d =>
      have here := definitions_of_some defined forms
      obtain rfl := definition?_eq_some defined
      obtain ⟨covered, few⟩ := rest.bodies d (by simp [here])
      have count : r.functions.size = (done ++ d :: definitions forms).length := by
        rw [← Array.length_toList, rest.functions, List.length_map, here]
      have inside : done.length < r.functions.size := by
        rw [count, List.length_append, List.length_cons]
        omega
      cases admitted with
      | function _ _ admitted =>
      exact definition_bounded covered admitted few inside (rest.numbers done.length d (by simp [here]))
        (Nat.lt_of_lt_of_le inside rest.size) valid finished room.one

theorem following_forms_bounded {forms : List Expression} {done : List Definition} (rest : Rest r done forms)
    (admitted : ∀ e ∈ forms, e.Admitted 0) (valid : s.Valid) (finished : Finished r done s)
    (pushed : s.body.depth = 1) : Bounded (following r forms s) := by
  induction forms generalizing s done with
  | nil => exact .ok _
  | cons e forms ih =>
      obtain ⟨first, others⟩ := List.forall_mem_cons.mp admitted
      refine (emit_bounded .pop rfl nofun (by omega) (by simp [pushed])).bind fun s₁ dropped => ?_
      have dropped := State.emit_slotless valid rfl dropped
      have depth₁ : s₁.body.depth = 0 := by rw [dropped.depth, pushed]; rfl
      have finished := finished.later dropped.methods dropped.pool
      refine (form_bounded rest first dropped.valid finished depth₁).bind fun s₂ visited => ?_
      obtain ⟨⟨depth₂, _⟩, valid₂, done', rest, finished, _⟩ :=
        form_generated rest dropped.valid finished visited
      exact ih rest others valid₂ finished (depth₂.trans (congrArg (· + 1) depth₁))

theorem sequence_forms_bounded {forms : List Expression} {p : Position} (rest : Rest r [] forms)
    (admitted : ∀ e ∈ forms, e.Admitted 0) (valid : s.Valid) (finished : Finished r [] s)
    (bare : s.body.depth = 0) : Bounded (sequence r p forms s) := by
  cases forms with
  | nil => exact emit_bounded _ rfl nofun (Nat.zero_le _) (by simp [bare, Builder.maxDepth])
  | cons e forms =>
      obtain ⟨first, others⟩ := List.forall_mem_cons.mp admitted
      refine (form_bounded rest first valid finished bare).bind fun s₁ visited => ?_
      obtain ⟨⟨depth₁, _⟩, valid₁, done, rest, finished, _⟩ := form_generated rest valid finished visited
      exact following_forms_bounded rest others valid₁ finished (depth₁.trans (congrArg (· + 1) bare))

theorem collect_bounded {functions : Array Signature} {methods : Array (Option Chunk)} {p : Position}
    (present : ∀ method ∈ methods, method.isSome) : Bounded (collect functions methods p) := by
  intro d failed
  have listed := congrArg (Array.toList <$> ·) failed
  simp only [collect, Array.toList_mapM] at listed
  refine FailsWith.mapM (fun pair found => ?_) d listed
  obtain ⟨signature, method⟩ := pair
  rw [Array.toList_zip] at found
  obtain ⟨chunk, rfl⟩ := Option.isSome_iff_exists.mp (present method (by simpa using (List.of_mem_zip found).2))
  exact .ok _

end Units

end Generator

open Expression Generator in
theorem generate_bounded {r : Resolution} {name : String} {forms : List Expression} {p : Position}
    (covered : r.CoversProgram forms) (admitted : ∀ e ∈ forms, e.Admitted 0) :
    Bounded (generate r name (.block forms p)) := by
  have valid := valid_new ConstantPool.valid_empty (Array.replicate r.functions.size none) entryName 0
  have rest := rest_of_covers covered
  refine (sequence_forms_bounded rest admitted valid (finished_nil _ _) rfl).bind fun s visited => ?_
  obtain ⟨_, finished, depth, _⟩ := sequence_forms rest valid (finished_nil _ _) visited
  refine (finish_bounded depth).bind fun entry _ => FailsWith.bind ?_ fun methods _ => .ok _
  refine collect_bounded fun method listed => ?_
  obtain ⟨k, found⟩ := Array.mem_iff_getElem?.mp listed
  have count : s.methods.size = (definitions forms).length := by
    rw [finished.size, ← Array.length_toList, covered.functions, List.length_map]
  have inside : k < (definitions forms).length := count ▸ (Array.getElem?_eq_some_iff.mp found).1
  obtain ⟨chunk, same, _⟩ := finished.methods k _ (List.getElem?_eq_getElem inside)
  rw [found] at same
  cases same
  rfl

end LispMachine
