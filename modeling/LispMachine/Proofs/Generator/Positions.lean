import LispMachine.Generator
import LispMachine.Proofs.Except
import LispMachine.Proofs.Expression.Marks

set_option autoImplicit false

namespace LispMachine

def Instruction.At (P : Position → Prop) (i : Instruction) : Prop := ∃ p, i.position = some p ∧ P p

def Chunk.At (P : Position → Prop) (chunk : Chunk) : Prop := ∀ i ∈ chunk.code, i.At P

def Builder.At (P : Position → Prop) (b : Builder) : Prop := ∀ i ∈ b.code, i.At P

structure Diagnostic.Broken (P : Position → Prop) (d : Diagnostic) : Prop where
  stands : P d.position
  kind : d.cause.kind = .invariant

variable {P : Position → Prop} {p : Position}

theorem Diagnostic.Broken.fault {α : Type} {Q : α → Prop} (stands : P p) (fault : InvariantFault) :
    Yields (Broken P) Q (Diagnostic.invariant fault p) := ⟨stands, rfl⟩

open Diagnostic (Broken)

theorem retargetAt?_at {code code' : Array Instruction} {index : Nat} {target : UInt32}
    (placed : ∀ i ∈ code, i.At P) (retargeted : retargetAt? code index target = some code') :
    ∀ i ∈ code', i.At P := by
  unfold retargetAt? at retargeted
  obtain ⟨instruction, found, retargeted⟩ := Option.bind_eq_some_iff.mp retargeted
  obtain ⟨opcode, _, retargeted⟩ := Option.bind_eq_some_iff.mp retargeted
  cases retargeted
  intro i member
  rw [Array.set!_eq_setIfInBounds] at member
  rcases Array.mem_or_eq_of_mem_setIfInBounds member with member | rfl
  · exact placed i member
  · exact placed instruction (Array.mem_of_getElem? found)

namespace Builder

variable {b : Builder}

theorem emit_at (placed : b.At P) (opcode : Opcode) (stands : P p) :
    Yields (Broken P) (At P) (b.emit opcode p) := by
  obtain ⟨name, arity, code, depth, maxStack, slots⟩ := b
  simp only [emit]
  split
  · exact .fault stands _
  · split
    · exact .fault stands _
    · split
      · exact .fault stands _
      · intro i member
        rcases Array.mem_push.mp member with member | rfl
        · exact placed i member
        · exact ⟨p, rfl, stands⟩

theorem land_at (placed : b.At P) (jump : Nat) (stands : P p) :
    Yields (Broken P) (At P) (b.land jump p) := by
  obtain ⟨name, arity, code, depth, maxStack, slots⟩ := b
  simp only [land]
  split
  · exact .fault stands _
  · split
    next retargeted => exact retargetAt?_at placed retargeted
    next => exact .fault stands _

theorem join_at (expected : Nat) (stands : P p) :
    Yields (Broken P) (fun _ => True) (b.join expected p) := by
  unfold join
  split
  · trivial
  · exact .fault stands _

theorem finish_at (placed : b.At P) (stands : P p) : Yields (Broken P) (Chunk.At P) (b.finish p) :=
  (emit_at placed .ret stands).bind fun _ placed => placed

end Builder

namespace Generator

structure State.At (P : Position → Prop) (s : State) : Prop where
  body : s.body.At P
  methods : ∀ chunk, some chunk ∈ s.methods → chunk.At P

abbrev Placing (P : Position → Prop) (x : Except Diagnostic State) : Prop := Yields (Broken P) (State.At P) x

section Steps

variable {s : State}

theorem emit_at (placed : s.At P) (opcode : Opcode) (stands : P p) : Placing P (s.emit opcode p) := by
  obtain ⟨pool, methods, body⟩ := s
  exact (Builder.emit_at placed.body opcode stands).bind fun _ body => ⟨body, placed.methods⟩

theorem emitIndexed_at (placed : s.At P) (d : Datum) (opcode : UInt16 → Opcode) (stands : P p) :
    Placing P (s.emitIndexed d opcode p) := by
  obtain ⟨pool, methods, body⟩ := s
  simp only [State.emitIndexed]
  split
  · exact .fault stands _
  · exact (Builder.emit_at placed.body _ stands).bind fun _ body => ⟨body, placed.methods⟩

theorem emitLiteral_at (placed : s.At P) (value : Literal) (stands : P p) :
    Placing P (s.emitLiteral value p) := by
  unfold State.emitLiteral
  split
  case h_4 =>
    split
    · exact emit_at placed _ stands
    · exact emitIndexed_at placed _ _ stands
  case h_5 => exact emitIndexed_at placed _ _ stands
  all_goals exact emit_at placed _ stands

theorem emitBranch_at (placed : s.At P) (opcode : Opcode) (stands : P p) :
    Yields (Broken P) (fun found => found.2.At P) (s.emitBranch opcode p) :=
  (emit_at placed opcode stands).bind fun _ placed => placed

theorem land_at (placed : s.At P) (jump : Nat) (stands : P p) : Placing P (s.land jump p) := by
  obtain ⟨pool, methods, body⟩ := s
  exact (Builder.land_at placed.body jump stands).bind fun _ body => ⟨body, placed.methods⟩

theorem landAll_at (placed : s.At P) (jumps : List Nat) (stands : P p) : Placing P (s.landAll p jumps) := by
  induction jumps generalizing s with
  | nil =>
      rw [State.landAll]
      split
      · exact .fault stands _
      · exact placed
  | cons jump rest ih => exact (land_at placed jump stands).bind fun _ placed => ih placed

theorem atDepth_at (placed : s.At P) (depth : Nat) : (s.atDepth depth).At P := by
  obtain ⟨pool, methods, ⟨name, arity, code, _, maxStack, slots⟩⟩ := s
  exact ⟨placed.body, placed.methods⟩

theorem closeFunction_at {index : UInt16} {chunk : Chunk} {around : Builder} (placed : s.At P)
    (own : chunk.At P) (outside : around.At P) (stands : P p) :
    Placing P (s.closeFunction index chunk around p) := by
  obtain ⟨pool, methods, body⟩ := s
  simp only [State.closeFunction]
  split
  · refine ⟨outside, fun chunk' member => ?_⟩
    rw [Array.set!_eq_setIfInBounds] at member
    rcases Array.mem_or_eq_of_mem_setIfInBounds member with member | same
    · exact placed.methods chunk' member
    · cases same
      exact own
  · exact .fault stands _

end Steps

theorem emitCall_at (r : Resolution) {s : State} (placed : s.At P) (id : Nat) (argc : UInt8) (stands : P p) :
    Placing P (emitCall r s id argc p) := by
  unfold emitCall
  split
  · exact emit_at placed _ stands
  · exact .fault stands _

theorem stages_at (r : Resolution) {s : State} (placed : s.At P) (stages : List Stage)
    (marked : ∀ m ∈ stages.map Stage.mark, P m.position) : Placing P (Generator.stages r stages s) := by
  induction stages generalizing s with
  | nil => exact placed
  | cons stage rest ih =>
      obtain ⟨here, others⟩ := List.forall_mem_cons.mp marked
      exact (emitCall_at r placed _ _ here).bind fun _ placed => ih placed others

open Expression

theorem position_of_marks {e : Expression} (marked : ∀ m ∈ e.marks, P m.position) : P e.position := by
  obtain ⟨m, member, same⟩ := e.exists_mark
  exact same ▸ marked m member

mutual

theorem visit_at (r : Resolution) (e : Expression) {s : State} (placed : s.At P)
    (marked : ∀ m ∈ e.marks, P m.position) : Placing P (visit r e s) := by
  have here := position_of_marks marked
  cases e with
  | constant value p => exact emitLiteral_at placed value here
  | symbol name p =>
      rw [visit]
      split
      · exact emit_at placed _ here
      · exact emitIndexed_at placed _ _ here
      · exact emit_at placed _ here
      · exact .fault here _
  | define name value p =>
      obtain ⟨_, inside⟩ := List.forall_mem_cons.mp marked
      rw [visit]
      refine (visit_at r value placed inside).bind fun s₁ placed => ?_
      refine (emit_at placed .dup here).bind fun s₂ placed => ?_
      split
      · exact emit_at placed _ here
      · exact emitIndexed_at placed _ _ here
      · exact .fault here _
      · exact .fault here _
  | function name params body p =>
      obtain ⟨_, inside⟩ := List.forall_mem_cons.mp marked
      obtain ⟨pool, methods, around⟩ := s
      rw [visit]
      split
      · split
        · exact .fault here _
        · have start : State.At P ⟨pool, methods, .new name (UInt8.ofNat params.length)⟩ :=
            ⟨by simp [Builder.At, Builder.new], placed.methods⟩
          refine (visit_at r body start inside).bind fun s₁ inner => ?_
          refine (Builder.finish_at inner.body (position_of_marks inside)).bind fun chunk own => ?_
          refine (closeFunction_at inner own placed.body here).bind fun s₂ placed => ?_
          exact emit_at placed _ here
      · exact .fault here _
      · exact .fault here _
  | bind name bound body p =>
      obtain ⟨_, inside⟩ := List.forall_mem_cons.mp marked
      obtain ⟨first, second⟩ := List.forall_mem_append.mp inside
      rw [visit]
      split
      · refine (visit_at r bound placed first).bind fun s₁ placed => ?_
        exact (emit_at placed _ here).bind fun s₂ placed => visit_at r body placed second
      · exact .fault here _
      · exact .fault here _
  | branch condition yes no p =>
      obtain ⟨_, inside⟩ := List.forall_mem_cons.mp marked
      obtain ⟨inside, third⟩ := List.forall_mem_append.mp inside
      obtain ⟨first, second⟩ := List.forall_mem_append.mp inside
      rw [visit]
      refine (visit_at r condition placed first).bind fun s₁ placed => ?_
      refine (emitBranch_at placed _ here).bind fun ⟨toElse, s₂⟩ placed => ?_
      refine (visit_at r yes placed second).bind fun s₃ placed => ?_
      refine (emitBranch_at placed _ here).bind fun ⟨toEnd, s₄⟩ placed => ?_
      refine (land_at placed _ here).bind fun s₅ placed => ?_
      refine (visit_at r no (atDepth_at placed _) third).bind fun s₆ placed => ?_
      exact (Builder.join_at _ here).bind fun _ _ => land_at placed _ here
  | block body p =>
      obtain ⟨_, inside⟩ := List.forall_mem_cons.mp marked
      exact sequence_at r body placed here inside
  | cond clauses p =>
      obtain ⟨_, inside⟩ := List.forall_mem_cons.mp marked
      exact conditional_at r _ clauses [] placed here inside
  | call name args p =>
      obtain ⟨_, inside⟩ := List.forall_mem_cons.mp marked
      rw [visit]
      refine (arguments_at r args placed inside).bind fun s₁ placed => ?_
      split
      · exact .fault here _
      · exact emitCall_at r placed _ _ here
  | compose first stages p =>
      obtain ⟨_, inside⟩ := List.forall_mem_cons.mp marked
      obtain ⟨start, steps⟩ := List.forall_mem_append.mp inside
      rw [visit]
      exact (visit_at r first placed start).bind fun s₁ placed => stages_at r placed stages steps

theorem arguments_at (r : Resolution) (args : List Expression) {s : State} (placed : s.At P)
    (marked : ∀ m ∈ marksAll args, P m.position) : Placing P (arguments r args s) := by
  cases args with
  | nil => exact placed
  | cons e rest =>
      obtain ⟨first, others⟩ := List.forall_mem_append.mp marked
      rw [arguments]
      exact (visit_at r e placed first).bind fun s₁ placed => arguments_at r rest placed others

theorem sequence_at (r : Resolution) (body : List Expression) {s : State} {p : Position}
    (placed : s.At P) (stands : P p) (marked : ∀ m ∈ marksAll body, P m.position) :
    Placing P (sequence r p body s) := by
  cases body with
  | nil => exact emit_at placed _ stands
  | cons e rest =>
      obtain ⟨first, others⟩ := List.forall_mem_append.mp marked
      rw [sequence]
      exact (visit_at r e placed first).bind fun s₁ placed => following_at r rest placed others

theorem following_at (r : Resolution) (rest : List Expression) {s : State} (placed : s.At P)
    (marked : ∀ m ∈ marksAll rest, P m.position) : Placing P (following r rest s) := by
  cases rest with
  | nil => exact placed
  | cons e rest =>
      obtain ⟨first, others⟩ := List.forall_mem_append.mp marked
      rw [following]
      refine (emit_at placed _ (position_of_marks first)).bind fun s₁ placed => ?_
      exact (visit_at r e placed first).bind fun s₂ placed => following_at r rest placed others

theorem conditional_at (r : Resolution) (base : Nat) (clauses : List (Expression × Expression))
    (ends : List Nat) {s : State} {p : Position} (placed : s.At P) (stands : P p)
    (marked : ∀ m ∈ marksClauses clauses, P m.position) :
    Placing P (conditional r p base clauses ends s) := by
  cases clauses with
  | nil =>
      rw [conditional]
      exact (emit_at placed _ stands).bind fun s₁ placed => landAll_at placed ends stands
  | cons clause rest =>
      obtain ⟨test, consequent⟩ := clause
      obtain ⟨inside, others⟩ := List.forall_mem_append.mp marked
      obtain ⟨first, second⟩ := List.forall_mem_append.mp inside
      rw [conditional]
      refine (visit_at r test placed first).bind fun s₁ placed => ?_
      refine (emitBranch_at placed _ stands).bind fun ⟨toNext, s₂⟩ placed => ?_
      refine (visit_at r consequent placed second).bind fun s₃ placed => ?_
      refine (Builder.join_at _ (position_of_marks second)).bind fun _ _ => ?_
      refine (emitBranch_at placed _ stands).bind fun ⟨toEnd, s₄⟩ placed => ?_
      refine (land_at placed _ stands).bind fun s₅ placed => ?_
      exact conditional_at r base rest _ (atDepth_at placed _) stands others

end

theorem collect_at {functions : Array Signature} {methods : Array (Option Chunk)}
    (placed : ∀ chunk, some chunk ∈ methods → chunk.At P) (stands : P p) :
    Yields (Broken P) (fun chunks => ∀ chunk ∈ chunks, chunk.At P) (collect functions methods p) := by
  refine .mapM_array fun pair member => ?_
  obtain ⟨signature, method⟩ := pair
  rw [← Array.mem_toList_iff, Array.toList_zip] at member
  have listed : method ∈ methods := by simpa using (List.of_mem_zip member).2
  cases method with
  | some chunk => exact placed chunk listed
  | none => exact .fault stands _

end Generator

open Expression

theorem generate_at (r : Resolution) (name : String) {forms : List Expression} (stands : P p)
    (marked : ∀ m ∈ marksAll forms, P m.position) :
    Yields (Broken P) (fun unit => unit.entry.At P ∧ ∀ chunk ∈ unit.methods, chunk.At P)
      (generate r name (.block forms p)) := by
  have start : Generator.State.At P ⟨.empty, Array.replicate r.functions.size none, .new entryName 0⟩ :=
    ⟨by simp [Builder.At, Builder.new], by simp⟩
  refine (Generator.sequence_at r forms start stands marked).bind fun s placed => ?_
  refine (Builder.finish_at placed.body stands).bind fun entry own => ?_
  exact (Generator.collect_at placed.methods stands).bind fun methods others => ⟨own, others⟩

end LispMachine
