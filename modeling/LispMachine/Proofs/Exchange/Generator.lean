import Mathlib.Data.List.Perm.Subperm
import LispMachine.Proofs.Exchange
import LispMachine.Proofs.Generator.Limits

set_option autoImplicit false

namespace LispMachine

namespace ConstantPool

def named (pool : ConstantPool) : List Datum := pool.entries.toList.take limit

theorem mem_named {pool : ConstantPool} {i : UInt16} {d : Datum} (found : pool.get? i = some d) :
    d ∈ pool.named := by
  rw [get?, ← Array.getElem?_toList] at found
  apply List.mem_of_getElem? (i := i.toNat)
  rw [named, List.getElem?_take_of_lt (show i.toNat < limit from i.toNat_lt), found]

theorem length_named (pool : ConstantPool) : pool.named.length ≤ limit := List.length_take_le _ _

structure Among (known : List Datum) (pool : ConstantPool) : Prop where
  distinct : pool.entries.toList.Nodup
  indexed : ∀ d ∈ pool.entries.toList, (pool.index[d]?).isSome
  listed : ∀ d ∈ pool.entries.toList, d ∈ known

theorem among_empty (known : List Datum) : empty.Among known := by
  constructor <;> simp [empty]

-- There are no more known constants than a pool holds, so there is room for each of them.
theorem Among.add {known : List Datum} {pool : ConstantPool} (among : pool.Among known)
    (few : known.length ≤ limit) {d : Datum} (member : d ∈ known) :
    ∃ i pool', pool.add d = (some i, pool') ∧ pool'.Among known := by
  obtain ⟨entries, index⟩ := pool
  cases found : index[d]? with
  | some i => exact ⟨i, ⟨entries, index⟩, by simp only [ConstantPool.add, found], among⟩
  | none =>
      have fresh : d ∉ entries.toList := by
        intro old
        have held := among.indexed d old
        simp [found] at held
      have entered : (entries.push d).toList = entries.toList ++ [d] := Array.toList_push
      have distinct : (entries.push d).toList.Nodup := by
        rw [entered, List.nodup_append]
        refine ⟨among.distinct, List.nodup_singleton d, fun a old b new same => fresh ?_⟩
        rwa [← List.mem_singleton.mp new, ← same]
      have listed : ∀ a ∈ (entries.push d).toList, a ∈ known := by
        rw [entered, List.forall_mem_append, List.forall_mem_singleton]
        exact ⟨among.listed, member⟩
      have room : entries.size < limit := by
        have bound := (List.subperm_of_subset distinct listed).length_le
        rw [Array.length_toList, Array.size_push] at bound
        omega
      refine ⟨UInt16.ofNat entries.size, ⟨entries.push d, index.insert d (UInt16.ofNat entries.size)⟩, ?_,
        distinct, ?_, listed⟩
      · simp only [ConstantPool.add, found, room, if_true]
      · rw [entered, List.forall_mem_append, List.forall_mem_singleton]
        refine ⟨fun a old => ?_, by simp⟩
        have held := among.indexed a old
        rw [Std.HashMap.getElem?_insert]
        split
        · rfl
        · exact held

end ConstantPool

theorem not_atLimit {fault : InvariantFault} (other : fault ∉ InvariantFault.limits) (p : Position) :
    ¬ (Diagnostic.mk (.invariant fault) p).AtLimit := by
  rintro ⟨limit, listed, same⟩
  cases same
  exact other listed

abbrev Unlimited {α : Type} (Q : α → Prop) (x : Except Diagnostic α) : Prop :=
  Yields (fun d => ¬ d.AtLimit) Q x

theorem Builder.emit_unlimited (b : Builder) (op : Opcode) (p : Position) :
    Unlimited (fun b' => b'.code.size = b.code.size + 1) (b.emit op p) := by
  obtain ⟨name, arity, code, depth, maxStack, slots⟩ := b
  simp only [Builder.emit]
  split
  · exact not_atLimit (by simp [InvariantFault.limits]) p
  · split
    · exact not_atLimit (by simp [InvariantFault.limits]) p
    · split
      · exact not_atLimit (by simp [InvariantFault.limits]) p
      · exact Array.size_push _

theorem retargetAt?_size {code code' : Array Instruction} {index : Nat} {target : UInt32}
    (retargeted : retargetAt? code index target = some code') : code'.size = code.size := by
  obtain ⟨instruction, _, retargeted⟩ := Option.bind_eq_some_iff.mp retargeted
  obtain ⟨op, _, done⟩ := Option.bind_eq_some_iff.mp retargeted
  cases done
  exact Array.size_set! ..

theorem Builder.land_unlimited {b : Builder} (small : b.code.size < UInt32.size) (jump : Nat) (p : Position) :
    Unlimited (fun b' => b'.code.size = b.code.size) (b.land jump p) := by
  obtain ⟨name, arity, code, depth, maxStack, slots⟩ := b
  simp only [Builder.land]
  split
  next large => exact (Nat.not_le.mpr small large).elim
  · split
    next code' retargeted => exact retargetAt?_size retargeted
    · exact not_atLimit (by simp [InvariantFault.limits]) p

namespace Generator

open Expression
open Resolution (CalledAlike Parallel)

abbrev Keeps {α β : Type} (R : α → β → Prop) (x : Except Diagnostic α) (y : Except Diagnostic β) : Prop :=
  KeepsUp (fun d => ¬ d.AtLimit) R x y

structure State.Longer (pool : ConstantPool) (s s' : State) : Prop where
  size : s'.body.code.size = s.body.code.size + 1
  pool : s'.pool.Among pool.named

structure State.Beside (pool : ConstantPool) (s s' : State) : Prop where
  size : s'.body.code.size = s.body.code.size
  pool : s'.pool.Among pool.named

section Steps

variable {pool : ConstantPool} {s s' s₁ : State} {p : Position}

theorem State.Beside.longer (beside : s.Beside pool s') (grown : s₁.body.code.size = s.body.code.size + 1)
    {x : Except Diagnostic State} (unlimited : Unlimited (s'.Longer pool) x) :
    Unlimited (s₁.Beside pool) x := by
  refine unlimited.imp (fun _ => id) fun t longer => ⟨?_, longer.pool⟩
  rw [longer.size, beside.size, grown]

theorem emit_unlimited (among : s.pool.Among pool.named) (op : Opcode) (p : Position) :
    Unlimited (s.Longer pool) (s.emit op p) :=
  (s.body.emit_unlimited op p).bind fun _ size => ⟨size, among⟩

theorem emitIndexed_unlimited (among : s.pool.Among pool.named) {d : Datum} (listed : d ∈ pool.named)
    (op : UInt16 → Opcode) (p : Position) : Unlimited (s.Longer pool) (s.emitIndexed d op p) := by
  obtain ⟨i, pool', added, known⟩ := among.add pool.length_named listed
  obtain ⟨_, methods, body⟩ := s
  simp only [State.emitIndexed, added]
  exact (body.emit_unlimited (op i) p).bind fun _ size => ⟨size, known⟩

theorem emit_size {op : Opcode} (emitted : s.emit op p = .ok s₁) :
    s₁.body.code.size = s.body.code.size + 1 := by
  obtain ⟨body, inner, rfl⟩ := State.emit_ok emitted
  exact (s.body.emit_unlimited op p).of_ok inner

theorem emitIndexed_size {d : Datum} {op : UInt16 → Opcode} (emitted : s.emitIndexed d op p = .ok s₁) :
    s₁.body.code.size = s.body.code.size + 1 := by
  obtain ⟨pool, methods, body⟩ := s
  simp only [State.emitIndexed] at emitted
  split at emitted
  · cases emitted
  next pool' _ => exact emit_size (s := ⟨pool', methods, body⟩) emitted

theorem emit_keeps (beside : s.Beside pool s') (op op' : Opcode) (p p' : Position) :
    Keeps (State.Beside pool) (s.emit op p) (s'.emit op' p') := by
  intro s₁ emitted
  exact beside.longer (emit_size emitted) (emit_unlimited beside.pool op' p')

theorem emitIndexed_keeps (beside : s.Beside pool s') {d : Datum} (listed : d ∈ pool.named)
    (op : UInt16 → Opcode) (p : Position) :
    Keeps (State.Beside pool) (s.emitIndexed d op p) (s'.emitIndexed d op p) := by
  intro s₁ emitted
  exact beside.longer (emitIndexed_size emitted) (emitIndexed_unlimited beside.pool listed op p)

theorem emitLiteral_keeps (beside : s.Beside pool s') {value : Literal} {op : Opcode}
    (pushes : Pushes pool value op) (p : Position) :
    Keeps (State.Beside pool) (s.emitLiteral value p) (s'.emitLiteral value p) := by
  cases pushes with
  | nil | yes | no => exact emit_keeps beside _ _ p p
  | short low high =>
      simp only [State.emitLiteral, low, high, and_self, if_true]
      exact emit_keeps beside _ _ p p
  | @pooled d _ found =>
      have listed := ConstantPool.mem_named found
      cases d with
      | long n =>
          simp only [State.emitLiteral]
          split
          · exact emit_keeps beside _ _ p p
          · exact emitIndexed_keeps beside listed _ p
      | _ => exact emitIndexed_keeps beside listed _ p

theorem emitBranch_keeps (beside : s.Beside pool s') (op : Opcode) (p : Position)
    {next next' : OpenBranch × State → Except Diagnostic State}
    (later : ∀ branch branch' s s', s.Beside pool s' →
      Keeps (State.Beside pool) (next (branch, s)) (next' (branch', s'))) :
    Keeps (State.Beside pool) (s.emitBranch op p >>= next) (s'.emitBranch op p >>= next') := by
  rw [State.emitBranch, State.emitBranch, bind_assoc, bind_assoc]
  exact (emit_keeps beside op op p p).bind fun _ _ beside => later _ _ _ _ beside

theorem join_keeps (b b' : Builder) (expected expected' : Nat) (p : Position) :
    Keeps (fun _ _ => True) (b.join expected p) (b'.join expected' p) := by
  intro _ _
  rw [Builder.join]
  split
  · trivial
  · exact not_atLimit (by simp [InvariantFault.limits]) p

-- The branches of the two may be at different places, but they lead to the same one.
theorem land_keeps (beside : s.Beside pool s') (jump jump' : Nat) (p : Position) :
    Keeps (State.Beside pool) (s.land jump p) (s'.land jump' p) := by
  intro s₁ landed
  obtain ⟨body, inner, rfl⟩ := State.land_ok landed
  have small := (Builder.land_ok inner).1
  have kept := (Builder.land_unlimited small jump p).of_ok inner
  refine (Builder.land_unlimited (beside.size ▸ small) jump' p).bind fun b same => ⟨?_, beside.pool⟩
  calc b.code.size
      = s'.body.code.size := same
    _ = s.body.code.size := beside.size
    _ = body.code.size := kept.symm

theorem landAll_keeps (beside : s.Beside pool s') (jumps jumps' : List Nat) (same : jumps.length = jumps'.length)
    (p : Position) : Keeps (State.Beside pool) (s.landAll p jumps) (s'.landAll p jumps') := by
  induction jumps generalizing s s' jumps' with
  | nil =>
      cases List.length_eq_zero_iff.mp same.symm
      rw [State.landAll, State.landAll, beside.size]
      split
      · exact .error
      · exact .ok beside
  | cons jump rest ih =>
      cases jumps' with
      | nil => cases same
      | cons jump' rest' =>
          exact (land_keeps beside jump jump' p).bind fun _ _ beside => ih beside rest' (Nat.succ.inj same)

theorem State.Beside.atDepth (beside : s.Beside pool s') (depth depth' : Nat) :
    (s.atDepth depth).Beside pool (s'.atDepth depth') := ⟨beside.size, beside.pool⟩

end Steps

section Visits

variable {pool : ConstantPool} {numbers : UInt16 → UInt16 → Prop} {r r' : Resolution} {s s' : State}

theorem emitCall_keeps (beside : s.Beside pool s') {id : Nat} (called : CalledAlike numbers r r' id) (argc : UInt8)
    (p : Position) : Keeps (State.Beside pool) (emitCall r s id argc p) (emitCall r' s' id argc p) := by
  obtain ⟨callee, callee', found, found', _⟩ := called
  simp only [emitCall, found, found']
  exact emit_keeps beside _ _ p p

theorem stages_keeps (beside : s.Beside pool s') {steps : List Stage}
    (called : ∀ stage ∈ steps, CalledAlike numbers r r' stage.id) :
    Keeps (State.Beside pool) (stages r steps s) (stages r' steps s') := by
  induction steps generalizing s s' with
  | nil =>
      exact .ok beside
  | cons stage rest ih =>
      obtain ⟨own, others⟩ := List.forall_mem_cons.mp called
      exact (emitCall_keeps beside own 1 _).bind fun _ _ beside => ih beside others

def Again (pool : ConstantPool) (r r' : Resolution) (e : Expression) : Prop :=
  ∀ ⦃chunk : Chunk⦄ ⦃depth i stop : Nat⦄ ⦃s s' : State⦄, Laid r ⟨pool, chunk⟩ e depth i stop →
    s.Beside pool s' → Keeps (State.Beside pool) (visit r e s) (visit r' e s')

variable {chunk : Chunk} {depth i stop : Nat}

theorem arguments_keeps {args : List Expression} (each : ∀ e ∈ args, Again pool r r' e)
    (laid : LaidArguments r ⟨pool, chunk⟩ args depth i stop) (beside : s.Beside pool s') :
    Keeps (State.Beside pool) (arguments r args s) (arguments r' args s') := by
  induction args generalizing depth i s s' with
  | nil =>
      exact .ok beside
  | cons e rest ih =>
      obtain ⟨own, others⟩ := List.forall_mem_cons.mp each
      cases laid with
      | cons first laid => exact (own first beside).bind fun _ _ beside => ih others laid beside

theorem following_keeps {rest : List Expression} (each : ∀ e ∈ rest, Again pool r r' e)
    (laid : LaidFollowing r ⟨pool, chunk⟩ rest depth i stop) (beside : s.Beside pool s') :
    Keeps (State.Beside pool) (following r rest s) (following r' rest s') := by
  induction rest generalizing i s s' with
  | nil =>
      exact .ok beside
  | cons e rest ih =>
      obtain ⟨own, others⟩ := List.forall_mem_cons.mp each
      cases laid with
      | cons _ first laid =>
          refine (emit_keeps beside _ _ _ _).bind fun _ _ beside => ?_
          exact (own first beside).bind fun _ _ beside => ih others laid beside

theorem sequence_keeps {body : List Expression} {p : Position} (each : ∀ e ∈ body, Again pool r r' e)
    (laid : LaidSequence r ⟨pool, chunk⟩ p body depth i stop) (beside : s.Beside pool s') :
    Keeps (State.Beside pool) (sequence r p body s) (sequence r' p body s') := by
  cases laid with
  | nil => exact emit_keeps beside _ _ p p
  | cons first laid =>
      obtain ⟨own, others⟩ := List.forall_mem_cons.mp each
      exact (own first beside).bind fun _ _ beside => following_keeps others laid beside

theorem conditional_keeps {clauses : List (Expression × Expression)} {p : Position}
    (tests : ∀ clause ∈ clauses, Again pool r r' clause.1)
    (consequents : ∀ clause ∈ clauses, Again pool r r' clause.2)
    (laid : LaidClauses r ⟨pool, chunk⟩ p clauses depth i stop) (beside : s.Beside pool s')
    (base base' : Nat) {ends ends' : List Nat} (same : ends.length = ends'.length) :
    Keeps (State.Beside pool) (conditional r p base clauses ends s)
      (conditional r' p base' clauses ends' s') := by
  induction clauses generalizing i s s' ends ends' with
  | nil =>
      rw [conditional, conditional]
      exact (emit_keeps beside _ _ p p).bind fun _ _ beside => landAll_keeps beside ends ends' same p
  | cons clause rest ih =>
      obtain ⟨test, consequent⟩ := clause
      obtain ⟨tested, tests⟩ := List.forall_mem_cons.mp tests
      obtain ⟨chosen, consequents⟩ := List.forall_mem_cons.mp consequents
      cases laid with
      | cons first _ second _ _ others _ =>
          rw [conditional, conditional]
          refine (tested first beside).bind fun s₁ s₁' beside => ?_
          refine emitBranch_keeps beside _ p fun toNext toNext' s₂ s₂' beside => ?_
          refine (chosen second beside).bind fun s₃ s₃' beside => ?_
          refine (join_keeps _ _ _ _ _).bind fun _ _ _ => ?_
          refine emitBranch_keeps beside _ p fun toEnd toEnd' s₄ s₄' beside => ?_
          refine (land_keeps beside _ _ p).bind fun s₅ s₅' beside => ?_
          exact ih tests consequents others (beside.atDepth _ _) (congrArg Nat.succ same)

theorem again {e : Expression} (parallel : Parallel numbers r r' e) : Again pool r r' e := by
  induction parallel with
  | constant =>
      intro chunk depth i stop s s' laid beside
      cases laid with
      | constant pushes => exact emitLiteral_keeps beside pushes _
  | symbol bound =>
      intro chunk depth i stop s s' laid beside
      obtain ⟨b, b', found, found', like⟩ := bound
      cases laid with
      | symbol entry _ loads =>
      cases entry.symm.trans found
      simp only [visit, found, found']
      cases like with
      | slot => exact emit_keeps beside _ _ _ _
      | function => exact emit_keeps beside _ _ _ _
      | global =>
          cases loads with
          | global stored => exact emitIndexed_keeps beside (ConstantPool.mem_named stored) _ _
  | define _ bound ih =>
      intro chunk depth i stop s s' laid beside
      obtain ⟨b, b', found, found', like⟩ := bound
      cases laid with
      | define inner _ entry stores =>
      cases entry.symm.trans found
      simp only [visit, found, found']
      refine (ih inner beside).bind fun _ _ beside => (emit_keeps beside _ _ _ _).bind fun _ _ beside => ?_
      cases like with
      | slot => exact emit_keeps beside _ _ _ _
      | function => cases stores
      | global =>
          cases stores with
          | global stored => exact emitIndexed_keeps beside (ConstantPool.mem_named stored) _ _
  | bind _ found found' _ bound body =>
      intro chunk depth i stop s s' laid beside
      cases laid with
      | bind _ first _ second =>
      simp only [visit, found, found']
      refine (bound first beside).bind fun _ _ beside => (emit_keeps beside _ _ _ _).bind fun _ _ beside => ?_
      exact body second beside
  | branch _ _ _ condition yes no =>
      intro chunk depth i stop s s' laid beside
      cases laid with
      | branch tested _ one _ _ two _ =>
      rw [visit, visit]
      refine (condition tested beside).bind fun s₁ s₁' beside => ?_
      refine emitBranch_keeps beside _ _ fun toElse toElse' s₂ s₂' beside => ?_
      refine (yes one beside).bind fun s₃ s₃' beside => ?_
      refine emitBranch_keeps beside _ _ fun toEnd toEnd' s₄ s₄' beside => ?_
      refine (land_keeps beside _ _ _).bind fun s₅ s₅' beside => ?_
      refine (no two (beside.atDepth _ _)).bind fun s₆ s₆' beside => ?_
      exact (join_keeps _ _ _ _ _).bind fun _ _ _ => land_keeps beside _ _ _
  | block _ body =>
      intro chunk depth i stop s s' laid beside
      cases laid with
      | block laid => exact sequence_keeps body laid beside
  | cond _ _ tests consequents =>
      intro chunk depth i stop s s' laid beside
      cases laid with
      | cond laid => exact conditional_keeps tests consequents laid beside _ _ rfl
  | call called _ args =>
      intro chunk depth i stop s s' laid beside
      cases laid with
      | call laid _ =>
      rw [visit, visit]
      refine (arguments_keeps args laid beside).bind fun _ _ beside => ?_
      split
      · exact .error
      · exact emitCall_keeps beside called _ _
  | compose _ called first =>
      intro chunk depth i stop s s' laid beside
      cases laid with
      | compose laid _ =>
      rw [visit, visit]
      exact (first laid beside).bind fun _ _ beside => stages_keeps beside called

def Repeats (pool : ConstantPool) (r r' : Resolution) (e : Expression) : Prop :=
  ∀ ⦃s s₁ s' : State⦄, visit r e s = .ok s₁ → s'.pool.Among pool.named →
    s₁.body.code.size = s.body.code.size + 1 ∧ Unlimited (s'.Longer pool) (visit r' e s')

theorem Repeats.again {e : Expression} (repeats : Repeats pool r r' e) : Again pool r r' e := by
  intro chunk depth i stop s s' _ beside s₁ visited
  obtain ⟨grown, unlimited⟩ := repeats visited beside.pool
  exact beside.longer grown unlimited

theorem finish_unlimited (b : Builder) (p : Position) : Unlimited (fun _ => True) (b.finish p) :=
  (b.emit_unlimited .ret p).bind fun _ _ => trivial

theorem closeFunction_unlimited (s : State) (index : UInt16) (chunk : Chunk) (around : Builder) (p : Position) :
    Unlimited (fun t => t.pool = s.pool ∧ t.body = around) (s.closeFunction index chunk around p) := by
  simp only [State.closeFunction]
  split
  · exact ⟨rfl, rfl⟩
  · exact not_atLimit (by simp [InvariantFault.limits]) p

-- A body starts from no code, whatever is around it.
theorem function_repeats {name : String} {params : List String} {body : Expression} {p : Position} {i' j' : UInt16}
    (found : r.bindings[p.offset]? = some (.function i')) (found' : r'.bindings[p.offset]? = some (.function j'))
    (inner : Parallel numbers r r' body) (laid : Laid r ⟨pool, chunk⟩ body depth i stop) :
    Repeats pool r r' (.function name params body p) := by
  rintro ⟨before, methods, around⟩ s₁ ⟨before', methods', around'⟩ visited among
  simp only [visit, found, found'] at visited ⊢
  split at visited
  · cases visited
  next few =>
    rw [if_neg few]
    obtain ⟨s₂, generated, visited⟩ := bind_ok.mp visited
    obtain ⟨own, _, visited⟩ := bind_ok.mp visited
    obtain ⟨s₃, closed, emitted⟩ := bind_ok.mp visited
    have outside := ((closeFunction_unlimited s₂ i' own around p).of_ok closed).2
    constructor
    · rw [emit_size emitted, outside]
    · have start : State.Beside pool ⟨before, methods, .new name (UInt8.ofNat params.length)⟩
          ⟨before', methods', .new name (UInt8.ofNat params.length)⟩ := ⟨rfl, among⟩
      refine (again inner laid start s₂ generated).bind fun t₂ beside => ?_
      refine (finish_unlimited t₂.body _).bind fun own' _ => ?_
      refine (closeFunction_unlimited t₂ j' own' around' p).bind fun t₃ kept => ?_
      obtain ⟨same, outside'⟩ := kept
      refine (emit_unlimited (same ▸ beside.pool) (.loadFunction j') p).imp (fun _ => id) fun t₄ longer => ?_
      exact ⟨by rw [longer.size, outside'], longer.pool⟩

-- Between two functions a value is dropped, whichever is first.
theorem pair_keeps {α β : Type} {R : α → β → Prop} {f g : Expression} (one : Repeats pool r r' f)
    (two : Repeats pool r r' g) (beside : s.Beside pool s') (p q : Position) {k : State → Except Diagnostic α}
    {k' : State → Except Diagnostic β} (later : ∀ t t', t.Beside pool t' → Keeps R (k t) (k' t')) :
    Keeps R (visit r f s >>= fun s => s.emit .pop p >>= fun s => visit r g s >>= k)
      (visit r' g s' >>= fun s => s.emit .pop q >>= fun s => visit r' f s >>= k') := by
  intro a done
  obtain ⟨s₁, first, done⟩ := bind_ok.mp done
  obtain ⟨s₂, dropped, done⟩ := bind_ok.mp done
  obtain ⟨s₃, second, done⟩ := bind_ok.mp done
  have size₂ := emit_size dropped
  obtain ⟨size₃, second'⟩ := two second beside.pool
  refine second'.bind fun t₁ grown₁ => ?_
  refine (emit_unlimited grown₁.pool .pop q).bind fun t₂ grown₂ => ?_
  obtain ⟨size₁, first'⟩ := one first grown₂.pool
  refine first'.bind fun t₃ grown₃ => later s₃ t₃ ⟨?_, grown₃.pool⟩ a done
  rw [grown₃.size, grown₂.size, grown₁.size, beside.size, size₃, size₂, size₁]

section Sequences

variable {forms forms' : List Expression}

theorem following_exchange (exchanged : Exchanged forms forms') (each : ∀ e ∈ forms, Again pool r r' e)
    (functions : ∀ d : Definition, d.form ∈ forms → Repeats pool r r' d.form)
    (laid : LaidFollowing r ⟨pool, chunk⟩ forms depth i stop) (beside : s.Beside pool s') :
    Keeps (State.Beside pool) (following r forms s) (following r' forms' s') := by
  induction exchanged generalizing i s s' with
  | @here f g next rest =>
      cases laid with
      | cons _ _ laid =>
      cases laid with
      | cons _ _ laid =>
      refine (emit_keeps beside .pop .pop _ _).bind fun _ _ beside => ?_
      refine pair_keeps (functions f (by simp)) (functions g (by simp)) beside _ _ fun _ _ beside => ?_
      exact following_keeps (fun e listed => each e (by simp [listed])) laid beside
  | later _ ih =>
      obtain ⟨own, others⟩ := List.forall_mem_cons.mp each
      cases laid with
      | cons _ first laid =>
      refine (emit_keeps beside .pop .pop _ _).bind fun _ _ beside => ?_
      refine (own first beside).bind fun _ _ beside => ?_
      exact ih others (fun d listed => functions d (.tail _ listed)) laid beside

theorem sequence_exchange (exchanged : Exchanged forms forms') (each : ∀ e ∈ forms, Again pool r r' e)
    (functions : ∀ d : Definition, d.form ∈ forms → Repeats pool r r' d.form) {p : Position}
    (laid : LaidSequence r ⟨pool, chunk⟩ p forms depth i stop) (beside : s.Beside pool s') :
    Keeps (State.Beside pool) (sequence r p forms s) (sequence r' p forms' s') := by
  cases exchanged with
  | @here f g next rest =>
      cases laid with
      | cons _ laid =>
      cases laid with
      | cons _ _ laid =>
      refine pair_keeps (functions f (by simp)) (functions g (by simp)) beside _ _ fun _ _ beside => ?_
      exact following_keeps (fun e listed => each e (by simp [listed])) laid beside
  | later exchanged =>
      obtain ⟨own, others⟩ := List.forall_mem_cons.mp each
      cases laid with
      | cons first laid =>
      refine (own first beside).bind fun _ _ beside => ?_
      exact following_exchange exchanged others (fun d listed => functions d (.tail _ listed)) laid beside

end Sequences

end Visits

theorem collect_unlimited (functions : Array Signature) (methods : Array (Option Chunk)) (p : Position) :
    Unlimited (fun _ => True) (collect functions methods p) := by
  refine (Yields.mapM_array (R := fun _ => True) fun pair _ => ?_).imp (fun _ => id) fun _ _ => trivial
  obtain ⟨signature, method⟩ := pair
  cases method with
  | some chunk => trivial
  | none => exact not_atLimit (by simp [InvariantFault.limits]) p

end Generator

open Generator

theorem generate_exchange {numbers : UInt16 → UInt16 → Prop} {r r' : Resolution} {forms forms' : List Expression}
    {name : String} {p : Position} {unit : CompiledUnit} (exchanged : Exchanged forms forms')
    (generated : generate r name (.block forms p) = .ok unit) (implements : unit.Implements r forms p)
    (parallel : ∀ e ∈ forms, Resolution.ParallelForm numbers r r' e) :
    Unlimited (fun _ => True) (generate r' name (.block forms' p)) := by
  have functions (d : Definition) (listed : d.form ∈ forms) : Repeats unit.constants r r' d.form := by
    have defined : d ∈ Expression.definitions forms := List.mem_filterMap.mpr ⟨d.form, listed, rfl⟩
    obtain ⟨k, at_k⟩ := List.getElem?_of_mem defined
    obtain ⟨chunk, _, own⟩ := implements.linked.methods k d at_k
    obtain ⟨stop, _, laid, _⟩ := own.runs
    have alike := parallel d.form listed
    cases alike with
    | function found found' _ inner => exact function_repeats found found' inner laid
    | plain nested => cases nested
  have each (e : Expression) (listed : e ∈ forms) : Again unit.constants r r' e := by
    have alike := parallel e listed
    cases alike with
    | plain alike => exact again alike
    | @function name params body p => exact (functions ⟨name, params, body, p⟩ listed).again
  obtain ⟨stop, _, laid, _⟩ := implements.entry
  cases laid with
  | block laid =>
  obtain ⟨s, visited, _⟩ := bind_ok.mp generated
  have start : State.Beside unit.constants ⟨.empty, Array.replicate r.functions.size none, .new entryName 0⟩
      ⟨.empty, Array.replicate r'.functions.size none, .new entryName 0⟩ := ⟨rfl, ConstantPool.among_empty _⟩
  refine (sequence_exchange exchanged each functions laid start s visited).bind fun s' _ => ?_
  refine (finish_unlimited _ _).bind fun _ _ => ?_
  exact (collect_unlimited _ _ _).bind fun _ _ => trivial

end LispMachine
