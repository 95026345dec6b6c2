import LispMachine.Proofs.Generator.Code
import LispMachine.Proofs.Generator.Measures

set_option autoImplicit false

namespace LispMachine.Generator

open Expression

variable {r : Resolution} {s s' : State}

theorem valid_new {pool : ConstantPool} (valid : pool.Valid) (methods : Array (Option Chunk))
    (name : String) (arity : UInt8) : State.Valid ⟨pool, methods, .new name arity⟩ :=
  ⟨valid, Nat.zero_le _, Nat.zero_le _⟩

theorem finish_runs {e : Expression} {chunk : Chunk} {p : Position} (valid : s'.Valid)
    (lays : Lays r e s s') (empty : s.body.code.size = 0) (bare : s.body.depth = 0)
    (finished : s'.body.finish p = .ok chunk) :
    chunk.name = s'.body.name ∧ chunk.arity = s'.body.arity ∧
      ∀ pool, s'.pool.Within pool → Runs r ⟨pool, chunk⟩ e := by
  obtain ⟨body, emitted, done⟩ := bind_ok.mp finished
  cases done
  obtain ⟨depth, generated⟩ := lays
  have last : Emitted .ret p s' { s' with body } :=
    emitted_of_pool valid valid.pool (.refl _) nofun emitted
  have size : s.body.code.size ≤ s'.body.code.size := generated.size
  have grown : body.code.size = s'.body.code.size + 1 := last.grown
  refine ⟨last.name, last.arity, fun pool within => ?_⟩
  have stack := Builder.toNat_maxStack last.valid.maxStack
  have locals := Builder.toNat_maxLocals body.arity last.valid.slots
  have agrees : Agrees ⟨pool, ⟨body.name, body.arity, UInt16.ofNat (max body.arity.toNat body.slots),
      UInt16.ofNat body.maxStack, body.code⟩⟩ { s' with body } 0 body.code.size := by
    refine ⟨fun _ _ _ => rfl, Nat.le_of_eq stack.symm, ?_, within⟩
    rw [locals]
    exact Nat.le_max_right _ _
  have laid := (generated.trans last.generated).laid _ (empty.symm ▸ agrees)
  obtain ⟨laid, ret, _⟩ := laid
  rw [empty, bare] at laid
  rw [depth, bare] at ret
  exact ⟨_, p, laid, ret, grown⟩

namespace State

def bare (s : State) : State := { s with methods := #[] }

end State

theorem Generated.bare {claim : Method → Prop} (generated : Generated s s' claim) :
    Generated s.bare s'.bare claim where
  methods := rfl
  name := generated.name
  arity := generated.arity
  size := generated.size
  kept := generated.kept
  maxStack := generated.maxStack
  slots := generated.slots
  pool := generated.pool
  valid := ⟨generated.valid.pool, generated.valid.maxStack, generated.valid.slots⟩
  laid m agrees := generated.laid m ⟨agrees.code, agrees.maxStack, agrees.slots, agrees.pool⟩

theorem Lays.bare {e : Expression} (lays : Lays r e s s') : Lays r e s.bare s'.bare :=
  ⟨lays.1, lays.2.bare⟩

structure Finished (r : Resolution) (done : List Definition) (s : State) : Prop where
  size : s.methods.size = r.functions.size
  methods : ∀ (k : Nat) (d : Definition), done[k]? = some d → ∃ chunk,
    s.methods[k]? = some (some chunk) ∧ ∀ pool, s.pool.Within pool → chunk.Implements r pool d

theorem Finished.later {done : List Definition} (finished : Finished r done s)
    (same : s'.methods = s.methods) (within : s.pool.Within s'.pool) : Finished r done s' where
  size := same ▸ finished.size
  methods k d found := by
    obtain ⟨chunk, method, implements⟩ := finished.methods k d found
    exact ⟨chunk, same ▸ method, fun pool more => implements pool (within.trans more)⟩

theorem Finished.set {done : List Definition} {d : Definition} {chunk : Chunk} {pool : ConstantPool}
    {body : Builder} (finished : Finished r done s) (room : done.length < r.functions.size)
    (within : s.pool.Within pool) (implements : ∀ more, pool.Within more → chunk.Implements r more d) :
    Finished r (done ++ [d]) ⟨pool, s.methods.set! done.length (some chunk), body⟩ := by
  have inside : done.length < s.methods.size := finished.size ▸ room
  constructor
  case size => simpa using finished.size
  case methods =>
    intro k e found
    rw [List.getElem?_append] at found
    split at found
    next old =>
      obtain ⟨chunk', method, implements'⟩ := finished.methods k e found
      refine ⟨chunk', ?_, fun more wider => implements' more (within.trans wider)⟩
      have other : done.length ≠ k := by omega
      simpa [other] using method
    next new =>
      have here : k - done.length = 0 := by
        have := (List.getElem?_eq_some_iff.mp found).1
        simp at this
        omega
      rw [here] at found
      cases found
      have last : k = done.length := by omega
      subst last
      exact ⟨chunk, by simp [inside], implements⟩

theorem definition_generated {d : Definition} {done : List Definition} (covered : r.Covers d.body)
    (few : d.params.length ≤ maxArity) (room : done.length < r.functions.size)
    (entry : r.bindings[d.id]? = some (.function (UInt16.ofNat done.length)))
    (listed : r.functions[done.length]? = some d.signature) (limit : done.length < Resolution.Table.limit)
    (valid : s.Valid) (finished : Finished r done s)
    (visited : visit r (.function d.name d.params d.body d.position) s = .ok s') :
    Lays r (.function d.name d.params d.body d.position) s.bare s'.bare ∧ s'.Valid ∧
      Finished r (done ++ [d]) s' := by
  obtain ⟨pool, methods, around⟩ := s
  have number : (UInt16.ofNat done.length).toNat = done.length := UInt16.toNat_ofNat_of_lt' limit
  rw [Definition.id] at entry
  simp only [visit, entry] at visited
  split at visited
  · cases visited
  obtain ⟨s₁, inner, visited⟩ := bind_ok.mp visited
  obtain ⟨chunk, ended, visited⟩ := bind_ok.mp visited
  obtain ⟨s₃, closed, visited⟩ := bind_ok.mp visited
  have counted := fun valid' => finish_measured valid' valid.pool.size inner ended
  have inner := visit_generated d.body covered (valid_new valid.pool methods _ _) inner
  obtain ⟨name, arity, runs⟩ := finish_runs inner.2.valid inner rfl rfl ended
  have implements : ∀ more, s₁.pool.Within more → chunk.Implements r more d := by
    intro more within
    refine ⟨name.trans inner.2.name, ?_, runs more within, counted inner.2.valid⟩
    rw [arity, inner.2.arity]
    exact UInt8.toNat_ofNat_of_lt' (Nat.lt_succ_of_le few)
  have within : pool.Within s₁.pool := inner.2.pool
  have kept : s₁.methods = methods := inner.2.methods
  have back : s₃ = ⟨s₁.pool, methods.set! done.length (some chunk), around⟩ := by
    rw [State.closeFunction_ok closed, number, kept]
  subst back
  have valid₃ : State.Valid ⟨s₁.pool, methods.set! done.length (some chunk), around⟩ :=
    ⟨inner.2.valid.pool, valid.maxStack, valid.slots⟩
  have emitted := State.emit_slotless valid₃ rfl visited
  refine ⟨?_, emitted.valid, ?_⟩
  · have valid' : State.Valid ⟨s₁.pool, #[], around⟩ := ⟨valid₃.pool, valid₃.maxStack, valid₃.slots⟩
    have grows : Generated ⟨pool, #[], around⟩ ⟨s₁.pool, #[], around⟩ (fun _ => True) :=
      { Progress.refl valid' with pool := within, laid := fun _ _ => trivial }
    refine ⟨emitted.depth, (grows.trans emitted.generated.bare).imp fun m laid => ?_⟩
    rw [show s'.bare.body.code.size = around.code.size + 1 from emitted.grown]
    exact .function entry (number.symm ▸ listed) laid.2.1
  · exact (finished.set room within implements).later emitted.methods emitted.pool

structure Rest (r : Resolution) (done : List Definition) (forms : List Expression) : Prop where
  plain : ∀ e ∈ forms, e.definition? = none → r.Covers e
  bodies : ∀ d ∈ definitions forms, r.Covers d.body ∧ d.params.length ≤ maxArity
  functions : r.functions.toList = (done ++ definitions forms).map Definition.signature
  size : r.functions.size ≤ Resolution.Table.limit
  numbers : ∀ (k : Nat) (d : Definition), (done ++ definitions forms)[k]? = some d →
    r.bindings[d.id]? = some (.function (UInt16.ofNat k))

theorem rest_of_covers {forms : List Expression} (covered : r.CoversProgram forms) : Rest r [] forms where
  plain := covered.plain
  bodies d listed := ⟨covered.bodies d listed, covered.arity d listed⟩
  functions := covered.functions
  size := by
    rw [← Array.length_toList, covered.functions, List.length_map]
    exact covered.size
  numbers := covered.numbers

theorem finished_nil (pool : ConstantPool) (body : Builder) :
    Finished r [] ⟨pool, Array.replicate r.functions.size none, body⟩ :=
  ⟨by simp, by simp⟩

theorem form_generated {e : Expression} {forms : List Expression} {done : List Definition}
    (rest : Rest r done (e :: forms)) (valid : s.Valid) (finished : Finished r done s)
    (visited : visit r e s = .ok s') :
    Lays r e s.bare s'.bare ∧ s'.Valid ∧ ∃ done', Rest r done' forms ∧ Finished r done' s' ∧
      done' ++ definitions forms = done ++ definitions (e :: forms) := by
  cases defined : e.definition? with
  | none =>
      have lays := visit_generated e (rest.plain e List.mem_cons_self defined) valid visited
      have same := definitions_of_none defined forms
      refine ⟨lays.bare, lays.2.valid, done, ?_, finished.later lays.2.methods lays.2.pool, by rw [same]⟩
      exact
        { plain := fun e' listed => rest.plain e' (List.mem_cons_of_mem _ listed)
          bodies := same ▸ rest.bodies
          functions := same ▸ rest.functions
          size := rest.size
          numbers := same ▸ rest.numbers }
  | some d =>
      have split : done ++ definitions (e :: forms) = (done ++ [d]) ++ definitions forms := by
        rw [definitions_of_some defined, List.append_assoc, List.singleton_append]
      obtain rfl := definition?_eq_some defined
      obtain ⟨covered, few⟩ := rest.bodies d (by rw [definitions_of_some defined]; simp)
      have here : (done ++ definitions (.function d.name d.params d.body d.position :: forms))[done.length]? =
          some d := by
        rw [split]
        simp
      have listed : r.functions[done.length]? = some d.signature := by
        rw [← Array.getElem?_toList, rest.functions, List.getElem?_map, here]
        rfl
      have room : done.length < r.functions.size := (Array.getElem?_eq_some_iff.mp listed).1
      obtain ⟨lays, valid, finished⟩ := definition_generated covered few room (rest.numbers _ d here)
        listed (Nat.lt_of_lt_of_le room rest.size) valid finished visited
      refine ⟨lays, valid, done ++ [d], ?_, finished, split.symm⟩
      exact
        { plain := fun e' listed => rest.plain e' (List.mem_cons_of_mem _ listed)
          bodies := fun d' listed => rest.bodies d' (by
            rw [definitions_of_some defined]
            exact List.mem_cons_of_mem _ listed)
          functions := split ▸ rest.functions
          size := rest.size
          numbers := split ▸ rest.numbers }

theorem following_forms {forms : List Expression} {done : List Definition} {depth : Nat}
    (rest : Rest r done forms) (valid : s.Valid) (finished : Finished r done s)
    (pushed : s.body.depth = depth + 1) (visited : following r forms s = .ok s') :
    s'.body.depth = depth + 1 ∧ s'.Valid ∧ Finished r (done ++ definitions forms) s' ∧
      Generated s.bare s'.bare
        (fun m => LaidFollowing r m forms depth s.body.code.size s'.body.code.size) := by
  induction forms generalizing s done with
  | nil =>
      cases visited
      refine ⟨pushed, valid, ?_, .none ⟨valid.pool, valid.maxStack, valid.slots⟩ fun _ => .nil⟩
      simpa [definitions] using finished
  | cons e forms ih =>
      obtain ⟨s₁, first, visited⟩ := bind_ok.mp visited
      obtain ⟨s₂, second, third⟩ := bind_ok.mp visited
      have first := State.emit_slotless valid rfl first
      have depth₁ : s₁.body.depth = depth := by rw [first.depth, pushed]; rfl
      obtain ⟨⟨depth₂, second⟩, valid₂, done', rest, finished, same⟩ :=
        form_generated rest first.valid (finished.later first.methods first.pool) second
      have depth₂ : s₂.body.depth = depth + 1 := depth₁ ▸ depth₂
      obtain ⟨depth₃, valid₃, finished, third⟩ := ih rest valid₂ finished depth₂ third
      refine ⟨depth₃, valid₃, same ▸ finished, ((first.generated.bare.trans second).trans third).imp ?_⟩
      rintro m ⟨⟨⟨drop, _⟩, laid⟩, others⟩
      rw [pushed] at drop
      rw [show s₁.bare.body.depth = depth from depth₁,
        show s₁.bare.body.code.size = s.body.code.size + 1 from first.grown] at laid
      exact .cons drop laid others

theorem sequence_forms {forms : List Expression} {p : Position}
    (rest : Rest r [] forms) (valid : s.Valid) (finished : Finished r [] s)
    (visited : sequence r p forms s = .ok s') :
    s'.Valid ∧ Finished r (definitions forms) s' ∧ Lays r (.block forms p) s.bare s'.bare := by
  cases forms with
  | nil =>
      obtain ⟨depth, size, pushed⟩ := pushNil_generated valid visited
      refine ⟨pushed.valid, finished.later pushed.methods pushed.pool, depth, ?_⟩
      refine pushed.bare.imp fun m placed => ?_
      rw [show s'.bare.body.code.size = s.body.code.size + 1 from size]
      exact .block (.nil placed)
  | cons e forms =>
      obtain ⟨s₁, first, others⟩ := bind_ok.mp visited
      obtain ⟨⟨depth₁, first⟩, valid₁, done, rest, finished, same⟩ :=
        form_generated rest valid finished first
      obtain ⟨depth₂, valid₂, finished, second⟩ := following_forms rest valid₁ finished depth₁ others
      refine ⟨valid₂, ?_, depth₂, (first.trans second).imp ?_⟩
      · rw [same] at finished
        exact finished
      · rintro m ⟨laid, others⟩
        exact .block (.cons laid others)

theorem collect_ok {functions : Array Signature} {methods : Array (Option Chunk)} {p : Position}
    {chunks : Array Chunk} (same : methods.size = functions.size)
    (collected : collect functions methods p = .ok chunks) :
    chunks.size = functions.size ∧
      ∀ (k : Nat) (chunk : Chunk), methods[k]? = some (some chunk) → chunks[k]? = some chunk := by
  have listed := congrArg (Array.toList <$> ·) collected
  simp only [collect, Array.toList_mapM] at listed
  obtain ⟨length, each⟩ := mapM_ok listed
  refine ⟨by simpa [same] using length, fun k chunk found => ?_⟩
  have inside : k < functions.size := same ▸ (Array.getElem?_eq_some_iff.mp found).1
  have pair : (functions.zip methods).toList[k]? = some (functions[k], some chunk) := by
    rw [Array.toList_zip, List.getElem?_zip_eq_some]
    simp [found, inside]
  obtain ⟨chunk', found', equal⟩ := each k _ pair
  cases equal
  simpa using found'

end LispMachine.Generator

namespace LispMachine

open Expression Generator

theorem generate_implements {r : Resolution} {name : String} {forms : List Expression} {p : Position}
    {unit : CompiledUnit} (covered : r.CoversProgram forms)
    (generated : generate r name (.block forms p) = .ok unit) : unit.Implements r forms p := by
  obtain ⟨s, visited, generated⟩ := bind_ok.mp generated
  obtain ⟨entry, ended, generated⟩ := bind_ok.mp generated
  obtain ⟨methods, collected, done⟩ := bind_ok.mp generated
  cases done
  obtain ⟨valid, finished, lays⟩ := sequence_forms (rest_of_covers covered)
    (valid_new ConstantPool.valid_empty _ _ _) (finished_nil _ _) visited
  have counted := finish_measured valid (Nat.zero_le _) visited ended
  have valid : s.bare.Valid := ⟨valid.pool, valid.maxStack, valid.slots⟩
  have runs := finish_runs valid lays rfl rfl ended
  constructor
  case name => exact runs.1.trans lays.2.name
  case entry => exact runs.2.2 s.pool (.refl _)
  case measured => exact counted
  case linked =>
    obtain ⟨size, each⟩ := collect_ok finished.size collected
    refine ⟨covered.functions, ?_, fun k d listed => ?_⟩
    · rw [size, ← Array.length_toList, covered.functions, List.length_map]
    · obtain ⟨chunk, found, implements⟩ := finished.methods k d listed
      exact ⟨chunk, each k chunk found, implements s.pool (.refl _)⟩

end LispMachine
