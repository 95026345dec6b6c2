import LispMachine.Proofs.Environment
import LispMachine.Proofs.Scoping

set_option autoImplicit false

namespace LispMachine

theorem isSome_findIdx? {α : Type} {key : α → String} {items : List α} {name : String} :
    (items.findIdx? (key · = name)).isSome ↔ ∃ item ∈ items, key item = name := by
  simp [List.findIdx?_isSome]

def Numbers {α β : Type} (key : α → String) (number : Nat → β) (items : List α)
    (table : Std.HashMap String β) : Prop :=
  ∀ name, table[name]? = (items.findIdx? (key · = name)).map number

namespace Numbers

variable {α β : Type} {key : α → String} {number : Nat → β} {items : List α}
  {table : Std.HashMap String β}

theorem empty : Numbers key number [] ∅ := by
  intro name
  simp

theorem isSome_iff (numbers : Numbers key number items table) {name : String} :
    (table[name]?).isSome ↔ ∃ item ∈ items, key item = name := by
  rw [numbers name, Option.isSome_map]
  exact isSome_findIdx?

theorem insert (numbers : Numbers key number items table) {item : α}
    (fresh : ∀ other ∈ items, key other ≠ key item) :
    Numbers key number (items ++ [item]) (table.insert (key item) (number items.length)) := by
  intro name
  rw [Std.HashMap.getElem?_insert, List.findIdx?_append]
  by_cases same : key item = name
  · subst same
    have absent : items.findIdx? (key · = key item) = none := by simpa using fresh
    simp [absent]
  · simp [same, numbers name]

end Numbers

namespace Scopes

@[simp] theorem count_cons (scope : List String) (outer : List (List String)) :
    count (scope :: outer) = scope.length + count outer := by
  simp [count]

@[simp] theorem slots_enter (s : Scopes) : s.enter.slots = s.slots := by
  simp [slots, enter]

theorem slots_le_declare (s : Scopes) (name : String) : s.slots ≤ (s.declare name).slots := by
  obtain ⟨locals, globals⟩ := s
  cases locals with
  | nil => exact Nat.le_refl _
  | cons scope outer =>
      simp only [declare, slots, count_cons]
      split <;> simp

@[simp] theorem declareAll_nil (s : Scopes) : s.declareAll [] = s := rfl

@[simp] theorem declareAll_cons (s : Scopes) (name : String) (names : List String) :
    s.declareAll (name :: names) = (s.declare name).declareAll names := rfl

@[simp] theorem declareAll_append (s : Scopes) (names more : List String) :
    s.declareAll (names ++ more) = (s.declareAll names).declareAll more :=
  List.foldl_append

@[simp] theorem locals_declare_eq_nil {s : Scopes} {name : String} :
    (s.declare name).locals = [] ↔ s.locals = [] := by
  obtain ⟨locals, globals⟩ := s
  cases locals <;> simp [declare]

@[simp] theorem locals_declareAll_eq_nil {s : Scopes} {names : List String} :
    (s.declareAll names).locals = [] ↔ s.locals = [] := by
  induction names generalizing s with
  | nil => rfl
  | cons name rest ih => exact ih.trans locals_declare_eq_nil

theorem slots_le_declareAll (s : Scopes) (names : List String) :
    s.slots ≤ (s.declareAll names).slots := by
  induction names generalizing s with
  | nil => exact Nat.le_refl _
  | cons name rest ih => exact Nat.le_trans (s.slots_le_declare name) (ih (s.declare name))

theorem declareAll_nested (scope : List String) (outer : List (List String)) (globals names : List String) :
    ∃ inner, declareAll ⟨scope :: outer, globals⟩ names = ⟨inner :: outer, globals⟩ := by
  induction names generalizing scope with
  | nil => exact ⟨scope, rfl⟩
  | cons name rest ih => exact ih _

@[simp] theorem after_define (s : Scopes) (name : String) (value : Expression) (p : Position) :
    s.after (.define name value p) = (s.after value).declare name := by
  simp [after, Expression.declares]

@[simp] theorem after_branch (s : Scopes) (condition yes no : Expression) (p : Position) :
    s.after (.branch condition yes no p) = ((s.after condition).after yes).after no := by
  simp [after, Expression.declares]

theorem after_sequence (s : Scopes) (e : Expression) (rest : List Expression) :
    s.declareAll (Expression.declaresAll (e :: rest)) =
      (s.after e).declareAll (Expression.declaresAll rest) := by
  simp [after, Expression.declaresAll]

theorem after_clauses (s : Scopes) (test consequent : Expression)
    (rest : List (Expression × Expression)) :
    s.declareAll (Expression.declaresTests ((test, consequent) :: rest)) =
      (s.after test).declareAll (Expression.declaresTests rest) := by
  simp [after, Expression.declaresTests]

theorem declareAll_nodup {names more globals : List String} {outer : List (List String)}
    (distinct : (names ++ more).Nodup) :
    declareAll ⟨names :: outer, globals⟩ more = ⟨(names ++ more) :: outer, globals⟩ := by
  induction more generalizing names with
  | nil => simp
  | cons name rest ih =>
      have fresh : name ∉ names := fun member =>
        (List.nodup_append.mp distinct).2.2 name member name List.mem_cons_self rfl
      have next : declare ⟨names :: outer, globals⟩ name = ⟨(names ++ [name]) :: outer, globals⟩ := by
        simp [declare, fresh]
      rw [List.append_cons] at distinct ⊢
      rw [declareAll_cons, next, ih distinct]

-- Parameters have no name in common, so each takes a slot of its own.
theorem enter_declareAll {s : Scopes} {params : List String} (outside : s.locals = [])
    (distinct : params.Nodup) : s.enter.declareAll params = s.call params := by
  rw [enter, outside]
  exact declareAll_nodup distinct

theorem isSome_slot? {name : String} {locals : List (List String)} :
    (slot? name locals).isSome ↔ ∃ scope ∈ locals, name ∈ scope := by
  induction locals with
  | nil => simp [slot?]
  | cons scope outer ih =>
      have held : (scope.findIdx? (· = name)).isSome ↔ name ∈ scope := by simp [List.findIdx?_isSome]
      rw [slot?]
      simp only [List.mem_cons, exists_eq_or_imp, ← held, ← ih]
      cases scope.findIdx? (· = name) with
      | some k => simp
      | none => simp

theorem isSome_meaning? {s : Scopes} {defs : List Definition} {name : String} :
    (s.meaning? defs name).isSome ↔
      (∃ scope ∈ s.locals, name ∈ scope) ∨ name ∈ s.globals ∨ ∃ d ∈ defs, d.name = name := by
  rw [← isSome_slot?, meaning?, lookup]
  cases slot? name s.locals with
  | some k => simp
  | none =>
      by_cases global : name ∈ s.globals
      · simp [global]
      · simp [global, Definition.number?, List.findIdx?_isSome]

end Scopes

open Scopes

inductive Tracked (globals : List String) : List Scope → List (List String) → Prop
  | top {scope} : scope.kind = .global →
      (∀ name, scope.names[name]? = if name ∈ globals then some (.global name) else none) →
      Tracked globals [scope] []
  | nested {scope rest names outer} : scope.kind ≠ .global → scope.savedSlot = count outer →
      Numbers id (fun k => Binding.slot (UInt16.ofNat (count outer + k))) names scope.names →
      Tracked globals rest outer → Tracked globals (scope :: rest) (names :: outer)

theorem Tracked.findSome? {globals : List String} {scopes : List Scope} {locals : List (List String)}
    (tracked : Tracked globals scopes locals) (name : String) :
    scopes.findSome? (·.names[name]?) = Scopes.lookup ⟨locals, globals⟩ name := by
  induction tracked with
  | top _ held => simp [Scopes.lookup, slot?, held name]
  | @nested scope rest names outer _ _ numbers _ ih =>
      rw [List.findSome?_cons, numbers name]
      cases found : names.findIdx? (· = name) with
      | some k => simp [Scopes.lookup, slot?, found]
      | none => simpa [Scopes.lookup, slot?, found] using ih

namespace Environment

structure Tracks (env : Environment) (s : Scopes) : Prop where
  scopes : Tracked s.globals env.scopes s.locals
  next : env.nextSlot = s.slots
  room : s.slots ≤ lastSlot

namespace Tracks

variable {env after : Environment} {s : Scopes} {name : String}

theorem global : Environment.global.Tracks .top where
  scopes := .top rfl (by simp [Scopes.top, Environment.global])
  next := rfl
  room := Nat.zero_le _

theorem lookup (tracks : env.Tracks s) (name : String) : env.lookup name = s.lookup name :=
  tracks.scopes.findSome? name

theorem push (tracks : env.Tracks s) : (env.push .block).Tracks s.enter where
  scopes := .nested nofun tracks.next .empty tracks.scopes
  next := by
    rw [slots_enter]
    exact tracks.next
  room := by
    rw [slots_enter]
    exact tracks.room

-- Outside all scopes no slots are in use, so that a function starts like a block.
theorem push_function (tracks : env.Tracks s) (outside : s.locals = []) :
    (env.push .function).Tracks s.enter where
  scopes := .nested nofun tracks.next .empty tracks.scopes
  next := by
    rw [slots_enter, slots, outside]
    rfl
  room := by
    rw [slots_enter]
    exact tracks.room

theorem pop {names globals : List String} {outer : List (List String)}
    (tracks : env.Tracks ⟨names :: outer, globals⟩) : env.pop.Tracks ⟨outer, globals⟩ := by
  obtain ⟨inner, scopes, next⟩ := env
  have limit := tracks.room
  cases tracks.scopes with
  | nested _ saved _ rest =>
      cases scopes with
      | nil => cases rest
      | cons scope scopes =>
          refine ⟨rest, saved, ?_⟩
          simp only [slots, count_cons] at limit ⊢
          omega

theorem pop_enter (names : List String) (tracks : env.Tracks (s.enter.declareAll names)) :
    env.pop.Tracks s := by
  obtain ⟨inner, same⟩ := declareAll_nested [] s.locals s.globals names
  rw [enter, same] at tracks
  exact tracks.pop

theorem pop_call {params : List String} (outside : s.locals = []) (names : List String)
    (tracks : env.Tracks ((s.call params).declareAll names)) : env.pop.Tracks s := by
  obtain ⟨inner, same⟩ := declareAll_nested params [] s.globals names
  rw [call, same, ← outside] at tracks
  exact tracks.pop

theorem mem_inner {names globals : List String} {below : List (List String)}
    (tracks : env.Tracks ⟨names :: below, globals⟩) :
    (∃ index, env.inner.names[name]? = some (.slot index)) ↔ name ∈ names := by
  obtain ⟨inner, outer, next⟩ := env
  cases tracks.scopes with
  | nested _ _ numbers _ =>
      rw [numbers name]
      constructor
      · rintro ⟨index, found⟩
        obtain ⟨k, found, _⟩ := Option.map_eq_some_iff.mp found
        simpa using isSome_findIdx?.mp (Option.isSome_of_eq_some found)
      · intro member
        have held : (names.findIdx? (id · = name)).isSome := isSome_findIdx?.mpr ⟨name, member, rfl⟩
        obtain ⟨k, found⟩ := Option.isSome_iff_exists.mp held
        rw [found]
        exact ⟨_, rfl⟩

theorem declare {index : UInt16} (tracks : env.Tracks s) (inside : s.locals ≠ [])
    (declared : env.declare name = (some index, after)) : after.Tracks (s.declare name) := by
  obtain ⟨inner, outer, next⟩ := env
  obtain ⟨locals, globals⟩ := s
  cases tracks.scopes with
  | top => exact absurd rfl inside
  | @nested _ _ names below kind saved numbers rest =>
      rcases declare_cases declared with ⟨found, rfl⟩ | ⟨absent, room, new, rfl⟩
      · have member : name ∈ names := tracks.mem_inner.mp ⟨index, found⟩
        simpa [Scopes.declare, member] using tracks
      · have missing : name ∉ names := fun member =>
          (tracks.mem_inner.mpr member).elim absent
        have next_eq : next = names.length + count below := tracks.next.trans (count_cons ..)
        have number : index = UInt16.ofNat (count below + names.length) := by
          rw [← UInt16.ofNat_toNat (x := index), new, next_eq, Nat.add_comm]
        have added : Scopes.declare ⟨names :: below, globals⟩ name =
            ⟨(names ++ [name]) :: below, globals⟩ := by
          simp [Scopes.declare, missing]
        have slots : Scopes.slots ⟨(names ++ [name]) :: below, globals⟩ = next + 1 := by
          simp [Scopes.slots, next_eq]
          omega
        rw [added]
        refine ⟨.nested kind saved ?_ rest, slots.symm, slots ▸ room⟩
        rw [number]
        exact numbers.insert fun other listed => ne_of_mem_of_not_mem listed missing

theorem declarable (tracks : env.Tracks s) (inside : s.locals ≠ [])
    (room : (s.declare name).slots ≤ lastSlot) :
    ∃ index after, env.declare name = (some index, after) := by
  obtain ⟨⟨kind, table, saved⟩, outer, next⟩ := env
  obtain ⟨locals, globals⟩ := s
  cases locals with
  | nil => exact absurd rfl inside
  | cons names below =>
      simp only [Environment.declare]
      split
      next index found => exact ⟨index, _, rfl⟩
      next absent =>
        have missing : name ∉ names := fun member => (tracks.mem_inner.mpr member).elim absent
        have next_eq : next = names.length + count below := tracks.next.trans (count_cons ..)
        simp only [Scopes.declare, missing, Scopes.slots, if_false, count_cons, List.length_append,
          List.length_singleton] at room
        rw [if_pos (by omega)]
        exact ⟨_, _, rfl⟩

theorem kind_eq_global_iff (tracks : env.Tracks s) : env.inner.kind = .global ↔ s.locals = [] := by
  obtain ⟨inner, outer, next⟩ := env
  obtain ⟨locals, globals⟩ := s
  cases tracks.scopes with
  | top kind _ => exact iff_of_true kind rfl
  | nested kind _ _ _ => exact iff_of_false kind nofun

theorem define {b : Binding} (tracks : env.Tracks s)
    (defined : env.define name = (some b, after)) : after.Tracks (s.declare name) := by
  rcases define_cases defined with ⟨kind, _, rfl⟩ | ⟨kind, index, _, declared⟩
  · obtain ⟨inner, outer, next⟩ := env
    obtain ⟨locals, globals⟩ := s
    obtain rfl : locals = [] := tracks.kind_eq_global_iff.mp kind
    cases tracks.scopes with
    | top _ held =>
        refine ⟨.top kind fun other => ?_, tracks.next, tracks.room⟩
        rw [Scope.names_insert, held other]
        by_cases same : name = other
        · simp [Scopes.declare, same]
        · simp [Scopes.declare, same, Ne.symm same]
  · exact tracks.declare (fun outside => kind (tracks.kind_eq_global_iff.mpr outside)) declared

theorem definable (tracks : env.Tracks s) (room : (s.declare name).slots ≤ lastSlot) :
    ∃ b after, env.define name = (some b, after) := by
  unfold Environment.define
  split
  · exact ⟨_, _, rfl⟩
  next kind =>
    obtain ⟨index, after, declared⟩ :=
      tracks.declarable (fun outside => kind (tracks.kind_eq_global_iff.mpr outside)) room
    rw [declared]
    exact ⟨_, _, rfl⟩

end Tracks

end Environment

end LispMachine
