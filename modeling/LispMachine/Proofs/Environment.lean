import LispMachine.Scope

set_option autoImplicit false

namespace LispMachine

def Binding.Within (low high : Nat) : Binding → Prop
  | .slot index => low ≤ index.toNat ∧ index.toNat < high
  | .global _ => True
  | .function _ => False

theorem Binding.Within.mono {low high high' : Nat} {b : Binding} (within : b.Within low high)
    (higher : high ≤ high') : b.Within low high' := by
  cases b with
  | slot index => exact ⟨within.1, Nat.lt_of_lt_of_le within.2 higher⟩
  | global name => trivial
  | function index => exact within

namespace Scope

structure Within (scope : Scope) (low high : Nat) : Prop where
  range : ∀ {name : String} {b : Binding}, scope.names[name]? = some b → b.Within low high
  unshared : ∀ {a b : String} {index : UInt16}, scope.names[a]? = some (.slot index) →
    scope.names[b]? = some (.slot index) → a = b

def insert (scope : Scope) (name : String) (b : Binding) : Scope :=
  { scope with names := scope.names.insert name b }

theorem names_insert (scope : Scope) (name other : String) (b : Binding) :
    (scope.insert name b).names[other]? = if name = other then some b else scope.names[other]? := by
  simp [insert, Std.HashMap.getElem?_insert]

theorem within_empty (kind : ScopeKind) (saved low high : Nat) :
    Within ⟨kind, ∅, saved⟩ low high := by
  constructor <;> simp

theorem Within.insert_slot {scope : Scope} {low next : Nat} (within : scope.Within low next)
    (above : low ≤ next) (name : String) {index : UInt16} (new : index.toNat = next) :
    (scope.insert name (.slot index)).Within low (next + 1) := by
  -- A slot that was there before lies below the new one.
  have old {a : String} (found : scope.names[a]? = some (.slot index)) : False := by
    have range : low ≤ index.toNat ∧ index.toNat < next := within.range found
    omega
  constructor
  · intro other b found
    rw [names_insert] at found
    split at found
    · cases found
      exact ⟨by omega, by omega⟩
    · exact (within.range found).mono (Nat.le_succ next)
  · intro a b i first second
    rw [names_insert] at first second
    split at first <;> split at second
    next one two => exact one.symm.trans two
    next => cases first; exact (old second).elim
    next => cases second; exact (old first).elim
    next => exact within.unshared first second

theorem Within.insert_global {scope : Scope} {low high : Nat} (within : scope.Within low high)
    (name : String) : (scope.insert name (.global name)).Within low high := by
  constructor
  · intro other b found
    rw [names_insert] at found
    split at found
    · cases found
      trivial
    · exact within.range found
  · intro a b i first second
    rw [names_insert] at first second
    split at first
    · cases first
    · split at second
      · cases second
      · exact within.unshared first second

end Scope

/-- Scopes from the innermost out, and the first slot that none of them owns. -/
inductive Stacked : List Scope → Nat → Prop
  | bottom {scope next} : next ≤ Environment.lastSlot → scope.Within 0 next → Stacked [scope] next
  | function {scope rest next} : next ≤ Environment.lastSlot → scope.kind = .function →
      scope.Within 0 next → Stacked rest scope.savedSlot → Stacked (scope :: rest) next
  | nested {scope rest next} : next ≤ Environment.lastSlot → scope.kind ≠ .function →
      scope.savedSlot ≤ next → scope.Within scope.savedSlot next → Stacked rest scope.savedSlot →
      Stacked (scope :: rest) next

namespace Stacked

theorem le_lastSlot {scopes : List Scope} {next : Nat} (stacked : Stacked scopes next) :
    next ≤ Environment.lastSlot := by
  cases stacked <;> assumption

theorem inner {scope : Scope} {rest : List Scope} {next : Nat} (stacked : Stacked (scope :: rest) next) :
    ∃ low, low ≤ next ∧ scope.Within low next := by
  cases stacked with
  | bottom _ within => exact ⟨0, Nat.zero_le _, within⟩
  | function _ _ within _ => exact ⟨0, Nat.zero_le _, within⟩
  | nested _ _ saved within _ => exact ⟨scope.savedSlot, saved, within⟩

theorem slot_lt_lastSlot {scopes : List Scope} {next : Nat} (stacked : Stacked scopes next)
    {scope : Scope} (member : scope ∈ scopes) {name : String} {b : Binding}
    (found : scope.names[name]? = some b) : b.Within 0 Environment.lastSlot := by
  have relax {low high : Nat} (within : b.Within low high) (limit : high ≤ Environment.lastSlot) :
      b.Within 0 Environment.lastSlot := by
    cases b with
    | slot index => exact ⟨Nat.zero_le _, Nat.lt_of_lt_of_le within.2 limit⟩
    | global name => trivial
    | function index => exact within
  induction stacked with
  | bottom limit within =>
      rw [List.mem_singleton.mp member] at found
      exact relax (within.range found) limit
  | function limit _ within _ ih =>
      rcases List.mem_cons.mp member with rfl | member
      · exact relax (within.range found) limit
      · exact ih member
  | nested limit _ _ within _ ih =>
      rcases List.mem_cons.mp member with rfl | member
      · exact relax (within.range found) limit
      · exact ih member

theorem replace_inner {scope scope' : Scope} {rest : List Scope} {next next' : Nat}
    (stacked : Stacked (scope :: rest) next) (kind : scope'.kind = scope.kind)
    (saved : scope'.savedSlot = scope.savedSlot) (grown : next ≤ next')
    (limit : next' ≤ Environment.lastSlot)
    (within : ∀ low, low ≤ next → scope.Within low next → scope'.Within low next') :
    Stacked (scope' :: rest) next' := by
  cases stacked with
  | bottom _ old => exact .bottom limit (within 0 (Nat.zero_le _) old)
  | function _ isFunction old outer =>
      exact .function limit (kind.trans isFunction) (within 0 (Nat.zero_le _) old) (saved ▸ outer)
  | nested _ noFunction low old outer =>
      refine .nested limit (kind ▸ noFunction) ?_ ?_ (saved ▸ outer)
      · rw [saved]
        omega
      · rw [saved]
        exact within _ low old

end Stacked

namespace Environment

def Sound (env : Environment) : Prop := Stacked env.scopes env.nextSlot

theorem sound_global : global.Sound :=
  .bottom (Nat.zero_le _) (Scope.within_empty _ _ _ _)

theorem Sound.push {env : Environment} (sound : env.Sound) (kind : ScopeKind) :
    (env.push kind).Sound := by
  by_cases function : kind = .function
  · subst function
    exact .function (Nat.zero_le _) rfl (Scope.within_empty _ _ _ _) sound
  · have next : (env.push kind).nextSlot = env.nextSlot := by
      cases kind with
      | function => exact absurd rfl function
      | _ => rfl
    rw [Sound, next]
    exact .nested sound.le_lastSlot function (Nat.le_refl _) (Scope.within_empty _ _ _ _) sound

theorem Sound.pop {env : Environment} (sound : env.Sound) : env.pop.Sound := by
  obtain ⟨inner, outer, nextSlot⟩ := env
  cases outer with
  | nil => exact sound
  | cons scope outer =>
      cases sound with
      | function _ _ _ rest => exact rest
      | nested _ _ _ _ rest => exact rest

theorem declare_of_local {env : Environment} {name : String} {index : UInt16}
    (held : env.inner.names[name]? = some (.slot index)) : env.declare name = (some index, env) := by
  simp only [declare, held]

theorem declare_of_new {env : Environment} {name : String} {index : UInt16}
    (absent : ∀ i, env.inner.names[name]? ≠ some (.slot i)) (room : env.nextSlot < lastSlot)
    (new : index.toNat = env.nextSlot) :
    env.declare name =
      (some index, ⟨env.inner.insert name (.slot index), env.outer, env.nextSlot + 1⟩) := by
  have number : UInt16.ofNat env.nextSlot = index := by rw [← new, UInt16.ofNat_toNat]
  obtain ⟨⟨kind, names, saved⟩, outer, next⟩ := env
  unfold declare
  dsimp only at *
  split
  next found => exact absurd found (absent _)
  next => rw [number, if_pos room, Scope.insert]

theorem define_of_global {env : Environment} (kind : env.inner.kind = .global) (name : String) :
    env.define name =
      (some (.global name), ⟨env.inner.insert name (.global name), env.outer, env.nextSlot⟩) := by
  obtain ⟨⟨kind', names, saved⟩, outer, next⟩ := env
  cases kind
  rfl

theorem define_of_local {env after : Environment} (kind : env.inner.kind ≠ .global) {name : String}
    {index : UInt16} (declared : env.declare name = (some index, after)) :
    env.define name = (some (.slot index), after) := by
  unfold define
  split
  next global => exact absurd global kind
  next => rw [declared]; rfl

theorem declare_cases {env env' : Environment} {name : String} {index : UInt16}
    (declared : env.declare name = (some index, env')) :
    env.inner.names[name]? = some (.slot index) ∧ env' = env ∨
      (∀ i, env.inner.names[name]? ≠ some (.slot i)) ∧ env.nextSlot < lastSlot ∧
        index.toNat = env.nextSlot ∧
        env' = ⟨env.inner.insert name (.slot index), env.outer, env.nextSlot + 1⟩ := by
  obtain ⟨⟨kind, names, saved⟩, outer, next⟩ := env
  simp only [declare] at declared
  split at declared
  next i found =>
    cases declared
    exact .inl ⟨found, rfl⟩
  next absent =>
    split at declared <;> cases declared
    next room =>
      refine .inr ⟨absent, room, ?_, rfl⟩
      apply UInt16.toNat_ofNat_of_lt'
      simp only [lastSlot] at room
      simp only [UInt16.size]
      omega

theorem names_of_declare {env env' : Environment} {name : String} {index : UInt16}
    (declared : env.declare name = (some index, env')) : env'.inner.names[name]? = some (.slot index) := by
  rcases declare_cases declared with ⟨found, rfl⟩ | ⟨_, _, _, rfl⟩
  · exact found
  · rw [Scope.names_insert, if_pos rfl]

theorem define_cases {env env' : Environment} {name : String} {b : Binding}
    (defined : env.define name = (some b, env')) :
    env.inner.kind = .global ∧ b = .global name ∧
        env' = ⟨env.inner.insert name (.global name), env.outer, env.nextSlot⟩ ∨
      env.inner.kind ≠ .global ∧ ∃ index, b = .slot index ∧ env.declare name = (some index, env') := by
  unfold define at defined
  split at defined
  next kind =>
    cases defined
    exact .inl ⟨kind, rfl, rfl⟩
  next kind =>
    refine .inr ⟨kind, ?_⟩
    cases declared : env.declare name with
    | mk index after =>
        simp only [declared] at defined
        cases index with
        | none => cases defined
        | some index =>
            cases defined
            exact ⟨index, rfl, rfl⟩

theorem names_of_define {env after : Environment} {name : String} {b : Binding}
    (defined : env.define name = (some b, after)) :
    after.inner.names[name]? = some b := by
  rcases define_cases defined with ⟨_, rfl, rfl⟩ | ⟨_, index, rfl, declared⟩
  · rw [Scope.names_insert, if_pos rfl]
  · exact names_of_declare declared

theorem Sound.declare {env env' : Environment} {name : String} {index : UInt16} (sound : env.Sound)
    (declared : env.declare name = (some index, env')) : env'.Sound := by
  rcases declare_cases declared with ⟨_, rfl⟩ | ⟨_, room, new, rfl⟩
  · exact sound
  · exact Stacked.replace_inner sound rfl rfl (Nat.le_succ _) room
      fun low above within => within.insert_slot above name new

theorem Sound.define {env env' : Environment} {name : String} {b : Binding} (sound : env.Sound)
    (defined : env.define name = (some b, env')) : env'.Sound := by
  rcases define_cases defined with ⟨_, _, rfl⟩ | ⟨_, index, _, declared⟩
  · exact Stacked.replace_inner sound rfl rfl (Nat.le_refl _) sound.le_lastSlot
      fun low _ within => within.insert_global name
  · exact sound.declare declared

theorem Sound.lookup {env : Environment} {name : String} {b : Binding} (sound : env.Sound)
    (found : env.lookup name = some b) : b.Within 0 lastSlot := by
  obtain ⟨scope, member, held⟩ := List.exists_of_findSome?_eq_some found
  exact Stacked.slot_lt_lastSlot sound member held

theorem declare_within {env env' : Environment} {name : String} {index : UInt16} (sound : env.Sound)
    (declared : env.declare name = (some index, env')) : index.toNat < lastSlot := by
  rcases declare_cases declared with ⟨held, _⟩ | ⟨_, room, new, _⟩
  · have within : Binding.Within 0 lastSlot (.slot index) :=
      Stacked.slot_lt_lastSlot sound List.mem_cons_self held
    exact within.2
  · omega

theorem define_within {env env' : Environment} {name : String} {b : Binding} (sound : env.Sound)
    (defined : env.define name = (some b, env')) : b.Within 0 lastSlot := by
  rcases define_cases defined with ⟨_, rfl, _⟩ | ⟨_, index, rfl, declared⟩
  · trivial
  · exact ⟨Nat.zero_le _, declare_within sound declared⟩

end Environment

end LispMachine
