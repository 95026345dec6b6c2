import Mathlib.Data.List.Nodup
import LispMachine.Proofs.Scoping.Tracking

set_option autoImplicit false

namespace LispMachine

open Expression

theorem Builtin.mem_all (b : Builtin) : b ∈ all := by
  cases b <;> decide

theorem Builtin.ofName?_eq_none_iff {name : String} :
    ofName? name = none ↔ ∀ b ∈ all, b.name ≠ name := by
  simp [ofName?]

namespace Definition.Compatible

theorem nil : Compatible [] := ⟨.nil, nofun, Nat.zero_le _⟩

theorem of_append {defs more : List Definition} (compatible : Compatible (defs ++ more)) :
    Compatible defs where
  distinct := (List.nodup_append.mp (List.map_append ▸ compatible.distinct)).1
  builtin d listed := compatible.builtin d (List.mem_append_left _ listed)
  few := by
    have few := compatible.few
    rw [List.length_append] at few
    omega

theorem append_singleton_iff {defs : List Definition} {d : Definition} (compatible : Compatible defs) :
    Compatible (defs ++ [d]) ↔ Builtin.ofName? d.name = none ∧ (∀ e ∈ defs, e.name ≠ d.name) ∧
      defs.length < 65536 := by
  constructor
  · intro together
    refine ⟨?_, ?_, ?_⟩
    · exact Builtin.ofName?_eq_none_iff.mpr (together.builtin d (by simp))
    · have distinct := together.distinct
      rw [List.map_append, List.nodup_append] at distinct
      simpa using distinct.2.2
    · have few := together.few
      rw [List.length_append] at few
      exact few
  · rintro ⟨builtin, fresh, room⟩
    constructor
    · rw [List.map_append, List.nodup_append]
      exact ⟨compatible.distinct, List.nodup_singleton _, by simpa using fresh⟩
    · rw [List.forall_mem_append, List.forall_mem_singleton]
      exact ⟨compatible.builtin, Builtin.ofName?_eq_none_iff.mp builtin⟩
    · rw [List.length_append]
      exact room

theorem eq_of_name {defs : List Definition} (compatible : Compatible defs) {d e : Definition}
    (first : d ∈ defs) (second : e ∈ defs) (same : d.name = e.name) : d = e :=
  List.inj_on_of_nodup_map compatible.distinct first second same

theorem callable_builtin {defs : List Definition} (compatible : Compatible defs) {name : String}
    {b : Builtin} (named : Builtin.ofName? name = some b) (argc : Nat) :
    Callable defs name argc ↔ argc = b.arity := by
  constructor
  · rintro (⟨other, _, rfl, rfl⟩ | ⟨d, listed, rfl, _⟩)
    · rw [Builtin.ofName?_name] at named
      cases named
      rfl
    · rw [Builtin.ofName?_eq_none_iff.mpr (compatible.builtin d listed)] at named
      cases named
  · rintro rfl
    exact .inl ⟨b, b.mem_all, Builtin.eq_of_ofName? named, rfl⟩

theorem callable_function {defs : List Definition} (compatible : Compatible defs) {d : Definition}
    (listed : d ∈ defs) (argc : Nat) : Callable defs d.name argc ↔ argc = d.params.length := by
  constructor
  · rintro (⟨b, member, same, _⟩ | ⟨e, other, same, rfl⟩)
    · exact absurd same (compatible.builtin d listed b member)
    · rw [compatible.eq_of_name other listed same]
  · rintro rfl
    exact .inr ⟨d, listed, rfl, rfl⟩

end Definition.Compatible

namespace Resolution

structure Table.Serves (table : Table) (defs : List Definition) : Prop where
  lists : table.Lists defs
  index : Numbers Definition.name UInt16.ofNat defs table.index
  compatible : Definition.Compatible defs

variable {table : Table} {defs : List Definition}

theorem Table.Serves.empty : Table.empty.Serves [] := ⟨.empty, .empty, .nil⟩

theorem addFunction_decides (serves : table.Serves defs) {d : Definition}
    (arity : d.params.length ≤ maxArity) :
    Decides (Definition.Compatible (defs ++ [d])) (·.Serves (defs ++ [d]))
      (table.addFunction d.name d.params d.position) := by
  obtain ⟨signatures, index, nodes⟩ := table
  have size : signatures.size = defs.length := by
    simpa using congrArg List.length serves.lists.signatures
  have guards := serves.compatible.append_singleton_iff (d := d)
  have absent : index.contains d.name = false ↔ ∀ e ∈ defs, e.name ≠ d.name := by
    rw [Std.HashMap.contains_eq_isSome_getElem?, Bool.eq_false_iff, Ne, serves.index.isSome_iff]
    simp
  generalize added : Table.addFunction ⟨signatures, index, nodes⟩ d.name d.params d.position = result
  have whole := added
  simp only [Table.addFunction] at added
  split at added
  next builtin =>
    cases added
    exact fun compatible => by simp [(guards.mp compatible).1] at builtin
  next builtin =>
    split at added
    next twice =>
      cases added
      exact fun compatible => by simp [absent.mpr (guards.mp compatible).2.1] at twice
    next once =>
      split at added
      next full =>
        cases added
        exact fun compatible => absurd (guards.mp compatible).2.2 (by simpa [size, Table.limit] using full)
      next room =>
        rw [if_neg (by omega)] at added
        cases added
        have fresh := absent.mp (by simpa using once)
        have compatible := guards.mpr
          ⟨by simpa using builtin, fresh, by simpa [size, Table.limit] using room⟩
        exact ⟨compatible, serves.lists.addFunction whole, size ▸ serves.index.insert fresh, compatible⟩

theorem ofForms_decides {forms : List Expression} (serves : table.Serves defs)
    (admitted : ∀ e ∈ forms, e.Admitted 0) :
    Decides (Definition.Compatible (defs ++ definitions forms)) (·.Serves (defs ++ definitions forms))
      (forms.foldlM Table.add table) := by
  induction forms generalizing table defs with
  | nil =>
      rw [definitions, List.filterMap_nil, List.append_nil]
      exact ⟨serves.compatible, serves⟩
  | cons e rest ih =>
      obtain ⟨first, others⟩ := List.forall_mem_cons.mp admitted
      rw [List.foldlM_cons]
      cases defined : e.definition? with
      | none =>
          rw [Table.Lists.add_of_none defined, definitions_of_none defined]
          exact ih serves others
      | some d =>
          rw [definition?_eq_some defined] at first ⊢
          cases first with
          | function _ arity _ =>
              rw [definitions_of_some rfl, List.append_cons]
              exact ((addFunction_decides serves arity).bind fun _ added => ih added others).congr
                (and_iff_right_of_imp Definition.Compatible.of_append)

theorem resolveName_eq (serves : table.Serves defs) {env : Environment} {s : Scopes}
    (tracks : env.Tracks s) (name : String) : resolveName table env name = s.meaning? defs name := by
  rw [resolveName, tracks.lookup, serves.index name]
  rfl

theorem expectArity_decides (name : String) (expected got : Nat) (p : Position) (callee : Callee) :
    Decides (got = expected) (fun _ => True) (expectArity name expected got p callee) := by
  unfold expectArity
  split
  next same => exact ⟨same, trivial⟩
  next different => exact different

theorem Table.Lists.arity_eq (lists : table.Lists defs) {index : UInt16} {d : Definition}
    (found : defs[index.toNat]? = some d) :
    (table.signatures[index.toNat]?.map (·.arity.toNat)).getD 0 = d.params.length := by
  have few : d.params.length < UInt8.size := Nat.lt_succ_of_le (lists.arity d (List.mem_of_getElem? found))
  rw [← Array.getElem?_toList, lists.signatures, List.getElem?_map, found]
  exact UInt8.toNat_ofNat_of_lt' few

-- Builtins and functions have no name in common, so it does not matter which come first.
theorem resolveCallee_decides (serves : table.Serves defs) (env : Environment) (name : String)
    (argc : Nat) (p : Position) :
    Decides (Definition.Callable defs name argc) (fun _ => True)
      (resolveCallee table env name argc p) := by
  unfold resolveCallee
  split
  next b named =>
    exact (expectArity_decides ..).congr (serves.compatible.callable_builtin named argc).symm
  next unnamed =>
    split
    next index found =>
      obtain ⟨d, at_index, rfl⟩ := serves.lists.index name index found
      simp only [serves.lists.arity_eq at_index]
      exact (expectArity_decides ..).congr
        (serves.compatible.callable_function (List.mem_of_getElem? at_index) argc).symm
    next missing =>
      have uncallable : ¬ Definition.Callable defs name argc := by
        rintro (⟨b, member, same, _⟩ | ⟨d, listed, same, _⟩)
        · exact Builtin.ofName?_eq_none_iff.mp unnamed b member same
        · have held := serves.index.isSome_iff.mpr ⟨d, listed, same⟩
          rw [missing] at held
          cases held
      split <;> exact uncallable

end Resolution

end LispMachine
