import LispMachine.Proofs.Generator.Lockstep

set_option autoImplicit false

namespace LispMachine

def Instruction.unplaced (i : Instruction) : Instruction := { i with position := none }

def Chunk.unplaced (chunk : Chunk) : Chunk := { chunk with code := chunk.code.map Instruction.unplaced }

def CompiledUnit.unplaced (unit : CompiledUnit) : CompiledUnit :=
  { unit with methods := unit.methods.map Chunk.unplaced, entry := unit.entry.unplaced }

open Diagnostic (Akin)

theorem Instruction.seen_false : Instruction.seen false = Instruction.unplaced := by
  funext i
  simp [Instruction.seen, Instruction.unplaced]

theorem Chunk.seen_false : Chunk.seen false = Chunk.unplaced := by
  funext chunk
  rw [Chunk.seen, Instruction.seen_false]
  rfl

namespace Generator

section Visits

variable {f : Relocation} {r r' : Resolution} {s s' : State}

theorem emitCall_relocate (same : r.Relocated f r') (like : s.Alike false s') (id : Nat) (argc : UInt8)
    (p q : Position) : InStep false (emitCall r s id argc p) (emitCall r' s' (f.number id) argc q) := by
  rw [emitCall, emitCall, same.callees]
  split
  · exact like.emitCall (by simp [Instruction.seen])
  · exact .broken _ _ _ _

theorem stages_relocate (same : r.Relocated f r') (like : s.Alike false s') (steps : List Stage) :
    InStep false (stages r steps s) (stages r' (steps.map (Stage.relocate f.move)) s') := by
  induction steps generalizing s s' with
  | nil => exact like
  | cons stage rest ih =>
      rw [List.map_cons, stages, stages, Stage.id, Stage.id, Stage.relocate, f.offset_move]
      exact (emitCall_relocate same like _ _ _ _).bind fun _ _ like => ih like

open Expression

mutual

theorem visit_relocate (same : r.Relocated f r') (e : Expression) {s s' : State} (like : s.Alike false s') :
    InStep false (visit r e s) (visit r' (e.relocate f.move) s') := by
  cases e with
  | constant value p => exact like.emitLiteral value _ _
  | symbol name p =>
      rw [relocate, visit, visit, f.offset_move, same.bindings]
      split
      · exact like.emit _ _ _ rfl
      · exact like.emitIndexed _ _ _ _ fun _ => rfl
      · exact like.emit _ _ _ rfl
      · exact .broken _ _ _ _
  | define name value p =>
      rw [relocate, visit, visit, f.offset_move, same.bindings]
      refine (visit_relocate same value like).bind fun s₁ s₂ like => ?_
      refine (like.emit .dup _ _ rfl).bind fun s₃ s₄ like => ?_
      split
      · exact like.emit _ _ _ rfl
      · exact like.emitIndexed _ _ _ _ fun _ => rfl
      · exact .broken _ _ _ _
      · exact .broken _ _ _ _
  | function name params body p =>
      obtain ⟨pool, methods, around⟩ := s
      obtain ⟨pool', methods', around'⟩ := s'
      rw [relocate, visit, visit, f.offset_move, same.bindings, position_relocate]
      split
      · split
        · exact .broken _ _ _ _
        · have start : State.Alike false ⟨pool, methods, .new name (UInt8.ofNat params.length)⟩
              ⟨pool', methods', .new name (UInt8.ofNat params.length)⟩ := ⟨like.pool, like.methods, .refl false _⟩
          refine (visit_relocate same body start).bind fun s₁ s₂ inner => ?_
          refine (inner.body.finish _ _).bind fun chunk chunk' own => ?_
          refine (inner.closeFunction own like.body _ _).bind fun s₃ s₄ like => ?_
          exact like.emit _ _ _ rfl
      · exact .broken _ _ _ _
      · exact .broken _ _ _ _
  | bind name bound body p =>
      rw [relocate, visit, visit, f.offset_move, same.bindings]
      split
      · refine (visit_relocate same bound like).bind fun s₁ s₂ like => ?_
        exact (like.emit (.storeLocal _) _ _ rfl).bind fun s₃ s₄ like => visit_relocate same body like
      · exact .broken _ _ _ _
      · exact .broken _ _ _ _
  | branch condition yes no p =>
      rw [relocate, visit, visit]
      refine (visit_relocate same condition like).bind fun s₁ s₂ like => ?_
      refine like.emitBranch (.jumpIfFalse 0) _ _ rfl fun toElse s₃ s₄ like => ?_
      refine (visit_relocate same yes like).bind fun s₅ s₆ like => ?_
      refine like.emitBranch (.jump 0) _ _ rfl fun toEnd s₇ s₈ like => ?_
      refine (like.land _ _ _).bind fun s₉ s₁₀ like => ?_
      refine (visit_relocate same no (like.atDepth _)).bind fun s₁₁ s₁₂ like => ?_
      exact (like.body.join _ _ _).bind fun _ _ _ => like.land _ _ _
  | block body p =>
      rw [relocate, visit, visit]
      exact sequence_relocate same body like _ _
  | cond clauses p =>
      rw [relocate, visit, visit, like.body.depth]
      exact conditional_relocate same _ clauses [] like _ _
  | call name args p =>
      rw [relocate, visit, visit, f.offset_move, length_relocateAll]
      refine (arguments_relocate same args like).bind fun s₁ s₂ like => ?_
      split
      · exact .broken _ _ _ _
      · exact emitCall_relocate same like _ _ _ _
  | compose first steps p =>
      rw [relocate, visit, visit]
      exact (visit_relocate same first like).bind fun s₁ s₂ like => stages_relocate same like steps

theorem arguments_relocate (same : r.Relocated f r') (args : List Expression) {s s' : State}
    (like : s.Alike false s') : InStep false (arguments r args s) (arguments r' (relocateAll f.move args) s') := by
  cases args with
  | nil => exact like
  | cons e rest =>
      rw [relocateAll, arguments, arguments]
      exact (visit_relocate same e like).bind fun s₁ s₂ like => arguments_relocate same rest like

theorem sequence_relocate (same : r.Relocated f r') (body : List Expression) {s s' : State}
    (like : s.Alike false s') (p q : Position) :
    InStep false (sequence r p body s) (sequence r' q (relocateAll f.move body) s') := by
  cases body with
  | nil => exact like.emit _ _ _ rfl
  | cons e rest =>
      rw [relocateAll, sequence, sequence]
      exact (visit_relocate same e like).bind fun s₁ s₂ like => following_relocate same rest like

theorem following_relocate (same : r.Relocated f r') (rest : List Expression) {s s' : State}
    (like : s.Alike false s') : InStep false (following r rest s) (following r' (relocateAll f.move rest) s') := by
  cases rest with
  | nil => exact like
  | cons e rest =>
      rw [relocateAll, following, following]
      refine (like.emit .pop _ _ rfl).bind fun s₁ s₂ like => ?_
      exact (visit_relocate same e like).bind fun s₃ s₄ like => following_relocate same rest like

theorem conditional_relocate (same : r.Relocated f r') (base : Nat)
    (clauses : List (Expression × Expression)) (ends : List Nat) {s s' : State} (like : s.Alike false s')
    (p q : Position) :
    InStep false (conditional r p base clauses ends s)
      (conditional r' q base (relocateClauses f.move clauses) ends s') := by
  cases clauses with
  | nil =>
      rw [relocateClauses, conditional, conditional]
      exact (like.emit .pushNil p q rfl).bind fun s₁ s₂ like => like.landAll p q ends
  | cons clause rest =>
      obtain ⟨test, consequent⟩ := clause
      rw [relocateClauses, conditional, conditional]
      refine (visit_relocate same test like).bind fun s₁ s₂ like => ?_
      refine like.emitBranch (.jumpIfFalse 0) p q rfl fun toNext s₃ s₄ like => ?_
      refine (visit_relocate same consequent like).bind fun s₅ s₆ like => ?_
      refine (like.body.join _ _ _).bind fun _ _ _ => ?_
      refine like.emitBranch (.jump 0) p q rfl fun toEnd s₇ s₈ like => ?_
      refine (like.land _ p q).bind fun s₉ s₁₀ like => ?_
      exact conditional_relocate same base rest _ (like.atDepth base) p q

end

end Visits

end Generator

open Expression

theorem generate_relocate {f : Relocation} {r r' : Resolution} (same : r.Relocated f r') (name : String)
    (forms : List Expression) (p q : Position) :
    EndsAlike Akin (fun unit unit' => unit.unplaced = unit'.unplaced) (generate r name (.block forms p))
      (generate r' name (.block (relocateAll f.move forms) q)) := by
  rw [generate, generate, ← same.functions]
  refine (Generator.sequence_relocate same forms ⟨rfl, rfl, .refl false _⟩ p q).bind fun s s' like => ?_
  refine (like.body.finish _ _).bind fun entry entry' own => ?_
  refine (Generator.collect_inStep r.functions like.methods _ _).bind fun methods methods' others => ?_
  rw [Chunk.seen_false] at own others
  show CompiledUnit.mk _ _ _ _ = CompiledUnit.mk _ _ _ _
  rw [like.pool, own, others]

end LispMachine
