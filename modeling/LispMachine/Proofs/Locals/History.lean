import LispMachine.Proofs.Locals.Live
import LispMachine.Proofs.Resolution.Resolved

set_option autoImplicit false

namespace LispMachine

/-- A read gives what was last stored in its local. If nothing was, it gives what the slot holds from
a local whose scope has been left, or `nil`. -/
structure Read.Explained (read : Read) : Prop where
  owner : ∃ owner, read.owner? = some owner
  own : ∀ v, read.own? = some v → read.value = v
  leftover : read.own? = none → read.value = read.leftover
  retired : read.own? = none → ∀ store, read.last? = some store →
    ∀ scope ∈ read.opened, scope.number ≠ store.owner.scope

structure Held (stores : List Store) (owner : Local) (slot : UInt16) : Prop where
  placed : ∀ store ∈ stores, store.owner = owner → store.slot = slot
  current : ∀ store, stores.find? (·.owner = owner) = some store →
    stores.find? (·.slot = slot) = some store

namespace Held

variable {stores : List Store} {owner other : Local} {slot slot' : UInt16}

theorem of_unstored (unstored : ∀ store ∈ stores, store.owner ≠ owner) : Held stores owner slot where
  placed store member same := absurd same (unstored store member)
  current store found :=
    absurd (by simpa using List.find?_some found) (unstored store (List.mem_of_find?_eq_some found))

theorem store_own (held : Held stores owner slot) (v : Value) :
    Held (⟨owner, slot, v⟩ :: stores) owner slot where
  placed := List.forall_mem_cons.mpr ⟨fun _ => rfl, held.placed⟩
  current := by simp

theorem store_other (held : Held stores owner slot) (v : Value) (apart : other ≠ owner)
    (elsewhere : slot' ≠ slot) : Held (⟨other, slot', v⟩ :: stores) owner slot where
  placed := List.forall_mem_cons.mpr ⟨fun same => absurd same apart, held.placed⟩
  current := by simpa [apart, elsewhere] using held.current

end Held

namespace Aligned

variable {opened : List Opened} {scopes : List Scope} {first first' : Opened} {scope scope' : Scope}

theorem replace (aligned : Aligned (first :: opened) (scope :: scopes)) (kind : scope'.kind = scope.kind)
    (names : first'.Names scope') : Aligned (first' :: opened) (scope' :: scopes) := by
  cases aligned with
  | function isFunction _ outer => exact .function (kind.trans isFunction) names outer
  | block isBlock _ rest => exact .block (kind.trans isBlock) names rest

theorem names (aligned : Aligned (first :: opened) (scope :: scopes)) : first.Names scope := by
  cases aligned <;> assumption

theorem kind_ne_global (aligned : Aligned (first :: opened) (scope :: scopes)) :
    scope.kind ≠ .global := by
  cases aligned with
  | function kind => simp [kind]
  | block kind => simp [kind]

theorem lookup (aligned : Aligned opened scopes) {name : String} {slot : UInt16}
    (found : scopes.findSome? (·.names[name]?) = some (.slot slot)) :
    ∃ scope, opened.find? (name ∈ ·.names) = some scope ∧
      Live opened scopes ⟨scope.number, name⟩ slot := by
  have missing {scope : Scope} (outermost : scope.Outermost) :
      [scope].findSome? (·.names[name]?) ≠ some (.slot slot) := by
    simpa using outermost.slotless name slot
  induction aligned with
  | global outermost => exact absurd found (missing outermost)
  | @function first scope outer _ names outermost =>
      rw [List.findSome?_cons] at found
      split at found
      next b held =>
        cases found
        exact ⟨first, by simp [names.mem held], .here held⟩
      next => exact absurd found (missing outermost)
  | @block first scope opened scopes _ names rest ih =>
      rw [List.findSome?_cons] at found
      split at found
      next b held =>
        cases found
        exact ⟨first, by simp [names.mem held], .here held⟩
      next absent =>
        obtain ⟨inner, declared, live⟩ := ih found
        refine ⟨inner, ?_, .outer live⟩
        have undeclared : name ∉ first.names := by
          intro member
          obtain ⟨i, held⟩ := names.slot name member
          rw [absent] at held
          cases held
        simpa [undeclared] using declared

end Aligned

/-- What holds between two expressions of a call, with the scopes of `env` open. -/
structure Kept (env : Environment) (opened : List Opened) (past : Past) : Prop where
  sound : env.Sound
  aligned : Aligned opened env.scopes
  distinct : (opened.map Opened.number).Nodup
  entered : ∀ scope ∈ opened, scope.number < past.entered
  numbered : ∀ store ∈ past.stores, store.owner.scope < past.entered
  declared : ∀ store ∈ past.stores, ∀ scope ∈ opened, scope.number = store.owner.scope →
    store.owner.name ∈ scope.names
  held : ∀ {owner : Local} {slot : UInt16}, Live opened env.scopes owner slot →
    Held past.stores owner slot
  explained : ∀ read ∈ past.reads, read.Explained

namespace Kept

variable {env env' : Environment} {opened : List Opened} {first : Opened} {past : Past} {name : String}
  {slot : UInt16}

-- A name that is declared now has not been stored before.
theorem extend (kept : Kept env (first :: opened) past) (sound : env'.Sound)
    (outer : env'.outer = env.outer) (kind : env'.inner.kind = env.inner.kind)
    (names : Opened.Names ⟨first.number, first.names ++ [name]⟩ env'.inner)
    (old : ∀ other slot, env'.inner.names[other]? = some (.slot slot) → other ∈ first.names →
      env.inner.names[other]? = some (.slot slot)) :
    Kept env' (Opened.extend (first :: opened) [name]) past := by
  constructor
  case sound => exact sound
  case aligned =>
    rw [Environment.scopes, outer]
    exact kept.aligned.replace kind names
  case distinct => exact kept.distinct
  case entered => simpa [Opened.extend] using kept.entered
  case numbered => exact kept.numbered
  case declared =>
    intro store member scope inside number
    rcases List.mem_cons.mp inside with rfl | inside
    · exact List.mem_append_left _ (kept.declared store member first List.mem_cons_self number)
    · exact kept.declared store member scope (List.mem_cons_of_mem _ inside) number
  case held =>
    intro owner slot live
    rw [Environment.scopes, outer] at live
    cases live with
    | outer live => exact kept.held (.outer live)
    | @here _ _ _ _ other _ found =>
        by_cases known : other ∈ first.names
        · exact kept.held (.here (old other slot found known))
        · apply Held.of_unstored
          intro store member same
          have inside := kept.declared store member first List.mem_cons_self (by rw [same])
          rw [same] at inside
          exact known inside
  case explained => exact kept.explained

theorem declare (kept : Kept env (first :: opened) past)
    (declared : env.declare name = (some slot, env')) :
    Kept env' (Opened.extend (first :: opened) [name]) past := by
  have sound := kept.sound.declare declared
  have names := kept.aligned.names
  rcases Environment.declare_cases declared with ⟨found, rfl⟩ | ⟨absent, _, _, rfl⟩
  · -- The name is there already.
    refine kept.extend sound rfl rfl ?_ fun _ _ found _ => found
    constructor
    · intro other member
      rcases List.mem_append.mp member with known | new
      · exact names.slot other known
      · exact ⟨slot, List.mem_singleton.mp new ▸ found⟩
    · exact fun other missing => names.only other fun known => missing (List.mem_append_left _ known)
  · have unknown : name ∉ first.names := by
      intro member
      obtain ⟨i, found⟩ := names.slot name member
      exact absent i found
    apply kept.extend sound rfl rfl
    · constructor
      · intro other member
        rw [Scope.names_insert]
        split
        · exact ⟨slot, rfl⟩
        next different =>
          rcases List.mem_append.mp member with known | new
          · exact names.slot other known
          · exact absurd (List.mem_singleton.mp new).symm different
      · intro other missing
        rw [List.mem_append, not_or] at missing
        rw [Scope.names_insert, if_neg fun same => missing.2 (by simp [same])]
        exact names.only other missing.1
    · intro other slot' found known
      have different : name ≠ other := by
        rintro rfl
        exact unknown known
      rw [Scope.names_insert, if_neg different] at found
      exact found

theorem define {b : Binding} (kept : Kept env opened past)
    (defined : env.define name = (some b, env')) :
    Kept env' (Opened.extend opened [name]) past := by
  have sound := kept.sound.define defined
  cases opened with
  | cons first opened =>
      rcases Environment.define_cases defined with ⟨kind, _, _⟩ | ⟨_, slot, _, declared⟩
      · exact absurd kind kept.aligned.kind_ne_global
      · exact kept.declare declared
  | nil =>
      obtain ⟨inner, outer, next⟩ := env
      have aligned := kept.aligned
      cases aligned with
      | global outermost =>
          rcases Environment.define_cases defined with ⟨_, _, rfl⟩ | ⟨kind, _⟩
          · refine { kept with sound, aligned := .global ⟨outermost.kind, fun other slot => ?_⟩, held := ?_ }
            · rw [Scope.names_insert]
              split
              · simp
              · exact outermost.slotless other slot
            · intro owner slot live
              cases live
          · exact absurd outermost.kind kind

theorem defined_slot {b : Binding} (kept : Kept env (first :: opened) past)
    (defined : env.define name = (some b, env')) :
    ∃ slot, b = .slot slot ∧ env'.inner.names[name]? = some (.slot slot) := by
  rcases Environment.define_cases defined with ⟨kind, _, _⟩ | ⟨_, slot, bound, declared⟩
  · exact absurd kind kept.aligned.kind_ne_global
  · exact ⟨slot, bound, Environment.names_of_declare declared⟩

theorem defined_global {b : Binding} (kept : Kept env [] past)
    (defined : env.define name = (some b, env')) : b = .global name := by
  obtain ⟨inner, outer, next⟩ := env
  have aligned := kept.aligned
  cases aligned with
  | global outermost =>
      rcases Environment.define_cases defined with ⟨_, global, _⟩ | ⟨kind, _⟩
      · exact global
      · exact absurd outermost.kind kind

theorem push (kept : Kept env opened past) :
    Kept (env.push .block) (⟨past.entered, []⟩ :: opened) ⟨past.entered + 1, past.stores, past.reads⟩ where
  sound := kept.sound.push .block
  aligned := .block rfl (.empty _ _ _) kept.aligned
  distinct := by
    rw [List.map_cons, List.nodup_cons]
    refine ⟨fun again => ?_, kept.distinct⟩
    obtain ⟨scope, member, same⟩ := List.mem_map.mp again
    exact absurd (kept.entered scope member) (same ▸ Nat.lt_irrefl _)
  entered := by
    refine List.forall_mem_cons.mpr ⟨Nat.lt_succ_self _, fun scope member => ?_⟩
    exact Nat.lt_succ_of_lt (kept.entered scope member)
  numbered store member := Nat.lt_succ_of_lt (kept.numbered store member)
  declared store member scope inside number := by
    rcases List.mem_cons.mp inside with rfl | inside
    · exact absurd (kept.numbered store member) (number ▸ Nat.lt_irrefl _)
    · exact kept.declared store member scope inside number
  held live := by
    cases live with
    | here found => simp [Environment.push] at found
    | outer live => exact kept.held live
  explained := kept.explained

theorem call (kept : Kept env [] past) : Kept (env.push .function) [⟨0, []⟩] ⟨1, [], []⟩ := by
  obtain ⟨inner, outer, next⟩ := env
  have aligned := kept.aligned
  cases aligned with
  | global outermost =>
      constructor
      case sound => exact kept.sound.push .function
      case aligned => exact .function rfl (.empty _ _ _) outermost
      case held =>
        intro owner slot live
        cases live with
        | here found => simp [Environment.push] at found
        | outer live => cases live
      all_goals simp

theorem pop (kept : Kept env (first :: opened) past) : Kept env.pop opened past := by
  obtain ⟨inner, outer, next⟩ := env
  have aligned := kept.aligned
  have distinct := (List.nodup_cons.mp kept.distinct).2
  have entered := (List.forall_mem_cons.mp kept.entered).2
  have declared : ∀ store ∈ past.stores, ∀ scope ∈ opened, scope.number = store.owner.scope →
      store.owner.name ∈ scope.names :=
    fun store member scope inside => kept.declared store member scope (List.mem_cons_of_mem _ inside)
  cases outer with
  | nil => cases aligned with
    | block _ _ rest => cases rest
  | cons scope outer =>
      have inside : Aligned opened (scope :: outer) := by
        cases aligned with
        | function _ _ outermost => exact .global outermost
        | block _ _ rest => exact rest
      exact ⟨kept.sound.pop, inside, distinct, entered, kept.numbered, declared,
        fun live => kept.held (.outer live), kept.explained⟩

theorem store (kept : Kept env (first :: opened) past)
    (found : env.inner.names[name]? = some (.slot slot)) (v : Value) :
    Kept env (first :: opened)
      { past with stores := ⟨⟨first.number, name⟩, slot, v⟩ :: past.stores } := by
  have live : Live (first :: opened) env.scopes ⟨first.number, name⟩ slot := .here found
  refine { kept with numbered := ?_, declared := ?_, held := ?_ }
  · exact List.forall_mem_cons.mpr ⟨kept.entered first List.mem_cons_self, kept.numbered⟩
  · refine List.forall_mem_cons.mpr ⟨fun scope member number => ?_, kept.declared⟩
    rcases List.mem_cons.mp member with rfl | member
    · exact kept.aligned.names.mem found
    · have again := List.mem_map.mpr ⟨scope, member, number⟩
      exact absurd again (List.nodup_cons.mp kept.distinct).1
  · intro other slot' live'
    by_cases same : other = ⟨first.number, name⟩
    · subst same
      rw [live'.slot_unique live kept.aligned kept.distinct]
      exact (kept.held live).store_own v
    · apply (kept.held live').store_other v (Ne.symm same)
      rintro rfl
      exact same (live'.unshared live kept.aligned kept.sound)

theorem addReads (kept : Kept env opened past) (reads : List Read)
    (explained : ∀ read ∈ reads, read.Explained) :
    Kept env opened { past with reads := reads ++ past.reads } :=
  { kept with explained := List.forall_mem_append.mpr ⟨explained, kept.explained⟩ }

theorem explain (kept : Kept env opened past) (found : env.lookup name = some (.slot slot)) {v : Value}
    (holds : v = ((past.stores.find? (·.slot = slot)).map Store.value).getD .nil) :
    Read.Explained ⟨name, slot, v, opened, past.stores⟩ := by
  obtain ⟨scope, declared, live⟩ := kept.aligned.lookup found
  have owner : Read.owner? ⟨name, slot, v, opened, past.stores⟩ = some ⟨scope.number, name⟩ := by
    simp [Read.owner?, declared]
  have held := kept.held live
  constructor
  case owner => exact ⟨_, owner⟩
  case own =>
    intro w stored
    simp only [Read.own?, owner, Option.some.injEq, Option.map_eq_some_iff] at stored
    obtain ⟨store, latest, rfl⟩ := stored
    rw [holds, held.current store latest]
    rfl
  case leftover => exact fun _ => holds
  case retired =>
    intro unstored store last inner member number
    have slotted : store.slot = slot := by simpa using List.find?_some last
    have stored := List.mem_of_find?_eq_some last
    -- If its scope were open, the local would be the one that is read.
    obtain ⟨slot', live'⟩ := Live.of_mem kept.aligned member
      (kept.declared store stored inner member number)
    have same : store.owner = ⟨inner.number, store.owner.name⟩ := by rw [number]
    rw [← (kept.held live').placed store stored same, slotted] at live'
    have shared := live'.unshared live kept.aligned kept.sound
    simp only [Read.own?, owner, Option.map_eq_none_iff, List.find?_eq_none] at unstored
    exact unstored store stored (by simpa using same.trans shared)

end Kept

end LispMachine
