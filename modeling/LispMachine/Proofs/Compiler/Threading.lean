import LispMachine.Proofs.Generator.Lockstep
import LispMachine.Proofs.Resolution.Agreement
import LispMachine.Proofs.Unfolding

set_option autoImplicit false

namespace LispMachine

open Expression

theorem Binding.Like.eq {b b' : Binding} (like : b.Like Eq b') : b' = b := by
  cases like with
  | slot | global => rfl
  | function same => rw [same]

theorem Callee.Like.eq {callee callee' : Callee} (like : callee.Like Eq callee') : callee' = callee := by
  cases like with
  | builtin => rfl
  | function same => rw [same]

namespace Generator

open Resolution (Parallel ParallelForm CalledAlike)

variable {r r' : Resolution} {chosen : Nat → Bool} {s s' : State}

theorem visit_calls (r : Resolution) (e : Expression) (steps : List Stage) (s : State) :
    visit r (e.calls steps) s = visit r e s >>= stages r steps := by
  induction steps generalizing e with
  | nil =>
      show visit r e s = visit r e s >>= stages r []
      cases visit r e s <;> rfl
  | cons stage rest ih =>
      have inner : visit r (.call stage.callee [e] stage.position) s =
          visit r e s >>= fun s => emitCall r s stage.id 1 stage.position := by
        rw [visit, arguments]
        cases visit r e s <;> rfl
      rw [calls, List.foldl_cons, ← calls, ih, inner, bind_assoc]
      rfl

theorem emitCall_unthread {id : Nat} (called : CalledAlike Eq r r' id) (alike : s.Alike true s')
    (argc : UInt8) (p : Position) : InStep true (emitCall r s id argc p) (emitCall r' s' id argc p) := by
  obtain ⟨callee, callee', found, found', like⟩ := called
  rw [like.eq] at found'
  rw [emitCall, emitCall, found, found']
  exact alike.emitCall rfl

theorem stages_unthread {steps : List Stage} (called : ∀ stage ∈ steps, CalledAlike Eq r r' stage.id)
    (alike : s.Alike true s') : InStep true (stages r steps s) (stages r' steps s') := by
  induction steps generalizing s s' with
  | nil => exact alike
  | cons stage rest ih =>
      obtain ⟨own, others⟩ := List.forall_mem_cons.mp called
      exact (emitCall_unthread own alike 1 stage.position).bind fun _ _ alike => ih others alike

def Threads (r r' : Resolution) (chosen : Nat → Bool) (e : Expression) : Prop :=
  ∀ s s', s.Alike true s' → InStep true (visit r e s) (visit r' (e.unthread chosen) s')

theorem arguments_unthread {args : List Expression} (each : ∀ e ∈ args, Threads r r' chosen e)
    (alike : s.Alike true s') :
    InStep true (arguments r args s) (arguments r' (unthreadAll chosen args) s') := by
  induction args generalizing s s' with
  | nil => exact alike
  | cons e rest ih =>
      obtain ⟨own, others⟩ := List.forall_mem_cons.mp each
      rw [unthreadAll, arguments, arguments]
      exact (own s s' alike).bind fun _ _ alike => ih others alike

theorem following_unthread {rest : List Expression} (each : ∀ e ∈ rest, Threads r r' chosen e)
    (alike : s.Alike true s') :
    InStep true (following r rest s) (following r' (unthreadAll chosen rest) s') := by
  induction rest generalizing s s' with
  | nil => exact alike
  | cons e rest ih =>
      obtain ⟨own, others⟩ := List.forall_mem_cons.mp each
      rw [unthreadAll, following, following]
      refine (alike.emit .pop _ _ rfl).bind fun s s' alike => ?_
      exact (own s s' alike).bind fun _ _ alike => ih others alike

theorem sequence_unthread {body : List Expression} (each : ∀ e ∈ body, Threads r r' chosen e)
    (alike : s.Alike true s') (p : Position) :
    InStep true (sequence r p body s) (sequence r' p (unthreadAll chosen body) s') := by
  cases body with
  | nil => exact alike.emit _ _ _ rfl
  | cons e rest =>
      obtain ⟨own, others⟩ := List.forall_mem_cons.mp each
      rw [unthreadAll, sequence, sequence]
      exact (own s s' alike).bind fun _ _ alike => following_unthread others alike

theorem conditional_unthread {clauses : List (Expression × Expression)}
    (tests : ∀ clause ∈ clauses, Threads r r' chosen clause.1)
    (consequents : ∀ clause ∈ clauses, Threads r r' chosen clause.2) (p : Position) (base : Nat)
    (ends : List Nat) (alike : s.Alike true s') :
    InStep true (conditional r p base clauses ends s)
      (conditional r' p base (unthreadClauses chosen clauses) ends s') := by
  induction clauses generalizing ends s s' with
  | nil =>
      rw [unthreadClauses, conditional, conditional]
      exact (alike.emit .pushNil p p rfl).bind fun _ _ alike => alike.landAll p p ends
  | cons clause rest ih =>
      obtain ⟨test, consequent⟩ := clause
      obtain ⟨tested, tests⟩ := List.forall_mem_cons.mp tests
      obtain ⟨own, consequents⟩ := List.forall_mem_cons.mp consequents
      rw [unthreadClauses, conditional, conditional]
      refine (tested s s' alike).bind fun s s' alike => ?_
      refine alike.emitBranch (.jumpIfFalse 0) p p rfl fun toNext s s' alike => ?_
      refine (own s s' alike).bind fun s s' alike => ?_
      refine (alike.body.join _ _ _).bind fun _ _ _ => ?_
      refine alike.emitBranch (.jump 0) p p rfl fun toEnd s s' alike => ?_
      refine (alike.land _ p p).bind fun s s' alike => ?_
      exact ih tests consequents _ (alike.atDepth base)

theorem threads_of_parallel {e : Expression} (parallel : Parallel Eq r r' e) : Threads r r' chosen e := by
  induction parallel with
  | constant => exact fun s s' alike => alike.emitLiteral _ _ _
  | symbol bound =>
      intro s s' alike
      obtain ⟨b, b', found, found', like⟩ := bound
      rw [like.eq] at found'
      rw [unthread, visit, visit, found, found']
      cases b with
      | slot index => exact alike.emit _ _ _ rfl
      | global name => exact alike.emitIndexed _ _ _ _ fun _ => rfl
      | function index => exact alike.emit _ _ _ rfl
  | define _ bound ih =>
      intro s s' alike
      obtain ⟨b, b', found, found', like⟩ := bound
      rw [like.eq] at found'
      rw [unthread, visit, visit, found, found']
      refine (ih s s' alike).bind fun s s' alike => ?_
      refine (alike.emit .dup _ _ rfl).bind fun s s' alike => ?_
      cases b with
      | slot index => exact alike.emit _ _ _ rfl
      | global name => exact alike.emitIndexed _ _ _ _ fun _ => rfl
      | function index => exact .broken _ _ _ _
  | bind _ found found' _ bound body =>
      intro s s' alike
      rw [unthread, visit, visit, found, found']
      refine (bound s s' alike).bind fun s s' alike => ?_
      exact (alike.emit (.storeLocal _) _ _ rfl).bind fun s s' alike => body s s' alike
  | branch _ _ _ condition yes no =>
      intro s s' alike
      rw [unthread, visit, visit]
      refine (condition s s' alike).bind fun s s' alike => ?_
      refine alike.emitBranch (.jumpIfFalse 0) _ _ rfl fun toElse s s' alike => ?_
      refine (yes s s' alike).bind fun s s' alike => ?_
      refine alike.emitBranch (.jump 0) _ _ rfl fun toEnd s s' alike => ?_
      refine (alike.land _ _ _).bind fun s s' alike => ?_
      refine (no _ _ (alike.atDepth _)).bind fun s s' alike => ?_
      exact (alike.body.join _ _ _).bind fun _ _ _ => alike.land _ _ _
  | block _ body =>
      intro s s' alike
      rw [unthread, visit, visit]
      exact sequence_unthread body alike _
  | cond _ _ tests consequents =>
      intro s s' alike
      rw [unthread, visit, visit, alike.body.depth]
      exact conditional_unthread tests consequents _ _ [] alike
  | call called _ args =>
      intro s s' alike
      rw [unthread, visit, visit, length_unthreadAll]
      refine (arguments_unthread args alike).bind fun s s' alike => ?_
      split
      · exact .broken _ _ _ _
      · exact emitCall_unthread called alike _ _
  | compose _ called first =>
      intro s s' alike
      have steps (s s' : State) (alike : s.Alike true s') := stages_unthread called alike
      rw [unthread]
      split
      · rw [visit, visit_calls]
        exact (first s s' alike).bind steps
      · rw [visit, visit]
        exact (first s s' alike).bind steps

theorem threads_of_form {e : Expression} (parallel : ParallelForm Eq r r' e) : Threads r r' chosen e := by
  cases parallel with
  | plain parallel => exact threads_of_parallel parallel
  | @function name params body p i j found found' same inside =>
      intro s s' alike
      obtain ⟨pool, methods, around⟩ := s
      obtain ⟨pool', methods', around'⟩ := s'
      rw [← same] at found'
      rw [unthread, visit, visit, found, found']
      dsimp only
      split
      · exact .broken _ _ _ _
      · have start : State.Alike true ⟨pool, methods, .new name (UInt8.ofNat params.length)⟩
            ⟨pool', methods', .new name (UInt8.ofNat params.length)⟩ :=
          ⟨alike.pool, alike.methods, .refl true _⟩
        refine (threads_of_parallel inside _ _ start).bind fun s s' inner => ?_
        refine (inner.body.finish _ _).bind fun chunk chunk' own => ?_
        refine (inner.closeFunction own alike.body _ _).bind fun s s' alike => ?_
        exact alike.emit _ _ _ rfl

end Generator

structure Chunk.SameCode (chunk chunk' : Chunk) : Prop where
  name : chunk.name = chunk'.name
  arity : chunk.arity = chunk'.arity
  maxLocals : chunk.maxLocals = chunk'.maxLocals
  maxStack : chunk.maxStack = chunk'.maxStack
  opcodes : chunk.code.map Instruction.opcode = chunk'.code.map Instruction.opcode
  places : ∀ {k : Nat} {i i' : Instruction}, chunk.code[k]? = some i → chunk'.code[k]? = some i' →
    i.opcode.isCall → i.position = i'.position

structure CompiledUnit.SameCode (unit unit' : CompiledUnit) : Prop where
  constants : unit.constants = unit'.constants
  entry : unit.entry.SameCode unit'.entry
  size : unit.methods.size = unit'.methods.size
  methods : ∀ {k : Nat} {chunk chunk' : Chunk}, unit.methods[k]? = some chunk →
    unit'.methods[k]? = some chunk' → chunk.SameCode chunk'

theorem getElem?_of_map_eq {α β : Type} {f : α → β} {xs ys : Array α} (same : xs.map f = ys.map f) {k : Nat}
    {x y : α} (left : xs[k]? = some x) (right : ys[k]? = some y) : f x = f y := by
  have there := congrArg (·[k]?) same
  simpa [left, right] using there

theorem Chunk.SameCode.of_seen {chunk chunk' : Chunk} (same : chunk.seen true = chunk'.seen true) :
    chunk.SameCode chunk' := by
  obtain ⟨name, arity, maxLocals, maxStack, code⟩ := Chunk.mk.inj same
  refine ⟨name, arity, maxLocals, maxStack, ?_, ?_⟩
  · simpa [Function.comp_def] using congrArg (Array.map Instruction.opcode) code
  · intro k i i' found found' call
    have instructions := getElem?_of_map_eq code found found'
    have call' : i'.opcode.isCall := by
      rw [← Instruction.opcode_seen true i', ← instructions, Instruction.opcode_seen]
      exact call
    simp only [Instruction.seen, call, call', Bool.and_self, if_true] at instructions
    rw [instructions]

theorem generate_unthread {r r' : Resolution} {forms : List Expression} (chosen : Nat → Bool)
    (functions : r'.functions = r.functions) (parallel : ∀ e ∈ forms, Resolution.ParallelForm Eq r r' e) (name : String)
    (p : Position) :
    EndsAlike Diagnostic.Akin CompiledUnit.SameCode (generate r name (.block forms p))
      (generate r' name (.block (unthreadAll chosen forms) p)) := by
  rw [generate, generate, functions]
  have each (e : Expression) (member : e ∈ forms) : Generator.Threads r r' chosen e :=
    Generator.threads_of_form (parallel e member)
  refine (Generator.sequence_unthread each ⟨rfl, rfl, .refl true _⟩ p).bind fun s s' alike => ?_
  refine (alike.body.finish _ _).bind fun entry entry' own => ?_
  refine (Generator.collect_inStep r.functions alike.methods _ _).bind fun methods methods' others => ?_
  have size : methods.size = methods'.size := by simpa using congrArg Array.size others
  exact ⟨alike.pool, .of_seen own, size, fun found found' => .of_seen (getElem?_of_map_eq others found found')⟩

theorem compileProgram_unthread {forms : List Expression} {p : Position} (chosen : Nat → Bool)
    (distinct : (nodesAll forms).Nodup) (admitted : ∀ e ∈ forms, e.Admitted 0) (name : String) :
    EndsAlike (fun _ _ => True) CompiledUnit.SameCode (compileProgram name (.block forms p))
      (compileProgram name (.block (unthreadAll chosen forms) p)) := by
  have alike := Resolution.resolve_unthread chosen admitted p
  unfold compileProgram
  cases resolved : resolve (.block forms p) <;>
    cases resolved' : resolve (.block (unthreadAll chosen forms) p) <;> rw [resolved, resolved'] at alike
  · trivial
  · exact alike.elim
  · exact alike.elim
  · obtain ⟨functions, parallel⟩ :=
      Resolution.resolve_unthread_parallel chosen distinct admitted resolved resolved'
    exact (generate_unthread chosen functions parallel name p).imp (fun _ _ _ => trivial) fun _ _ same => same

/-- Compositions can be written as nested calls, those that are chosen or one alone, each stage a call at the
position of the stage. The program is then resolved if and only if it was before, and compiled if and only if
it was before, to a unit with the same constants and the same code. -/
theorem compile_unthread {text : String} {program : Expression} (parsed : parse text = .ok program)
    (chosen : Nat → Bool) (name : String) :
    ((∃ r, resolve program = .ok r) ↔ ∃ r, resolve (program.unthread chosen) = .ok r) ∧
    ((∃ unit, compileProgram name program = .ok unit) ↔
      ∃ unit, compileProgram name (program.unthread chosen) = .ok unit) ∧
    ∀ unit unit', compileProgram name program = .ok unit →
      compileProgram name (program.unthread chosen) = .ok unit' → unit.SameCode unit' := by
  obtain ⟨forms, p, rfl, distinct, admitted⟩ := parse_forms parsed
  have alike := compileProgram_unthread (p := p) chosen distinct admitted name
  refine ⟨(Resolution.resolve_unthread chosen admitted p).ok_iff, alike.ok_iff, fun unit unit' one two => ?_⟩
  rw [one, show compileProgram name (.block (unthreadAll chosen forms) p) = _ from two] at alike
  exact alike

section Negated

open Unfolding

def negated : Expression :=
  .block
    [.compose (.constant (.bool true) ⟨1, 5, 4⟩) [⟨"not", ⟨1, 10, 9⟩⟩, ⟨"not", ⟨1, 14, 13⟩⟩] ⟨1, 1, 0⟩]
    ⟨1, 1, 0⟩

def negatedCalls : Expression :=
  .block
    [.call "not" [.call "not" [.constant (.bool true) ⟨1, 5, 4⟩] ⟨1, 10, 9⟩] ⟨1, 14, 13⟩] ⟨1, 1, 0⟩

theorem parse_negated : parse "(-> true not not)" = .ok negated := by
  with_unfolding_all rfl

theorem compile_negated : ∃ unit, compileProgram "negated" negated = .ok unit := by
  apply exists_of_toBool
  simp [negated]

theorem negated_unthreaded : ∃ unit unit', negated.unthread (· = 0) = negatedCalls ∧
    compileProgram "negated" negated = .ok unit ∧ compileProgram "negated" negatedCalls = .ok unit' ∧
    unit.SameCode unit' := by
  have calls : negated.unthread (· = 0) = negatedCalls := rfl
  obtain ⟨_, compiled, same⟩ := compile_unthread parse_negated (· = 0) "negated"
  rw [calls] at compiled same
  obtain ⟨unit, first⟩ := compile_negated
  obtain ⟨unit', second⟩ := compiled.mp ⟨unit, first⟩
  exact ⟨unit, unit', calls, first, second, same unit unit' first second⟩

end Negated

end LispMachine
