import LispMachine.Proofs.Environment

set_option autoImplicit false

namespace LispMachine

namespace Environment

inductive Operation
  | push (kind : ScopeKind)
  | pop
  | declare (name : String)
  | define (name : String)

def perform (env : Environment) : Operation → Option Environment
  | .push kind => some (env.push kind)
  | .pop => some env.pop
  | .declare name =>
      match env.declare name with
      | (index, after) => index.map fun _ => after
  | .define name =>
      match env.define name with
      | (binding, after) => binding.map fun _ => after

def performAll (env : Environment) (history : List Operation) : Option Environment :=
  history.foldlM perform env

def live : List Scope → List Scope
  | [] => []
  | scope :: outer => if scope.kind = .function then [scope] else scope :: live outer

def Holds (scopes : List Scope) (k : Nat) (name : String) (index : UInt16) : Prop :=
  ∃ scope, scopes[k]? = some scope ∧ scope.names[name]? = some (.slot index)

structure Unshared (scopes : List Scope) (next : Nat) : Prop where
  below : ∀ {k : Nat} {name : String} {index : UInt16}, Holds (live scopes) k name index →
    index.toNat < next
  apart : ∀ {j k : Nat} {a b : String} {index : UInt16}, Holds (live scopes) j a index →
    Holds (live scopes) k b index → j = k ∧ a = b

end Environment

open Environment

section Live

variable {scopes : List Scope} {scope : Scope} {name : String} {k : Nat} {index : UInt16}

theorem holds_zero : Holds (scope :: scopes) 0 name index ↔ scope.names[name]? = some (.slot index) := by
  simp [Holds]

theorem holds_succ : Holds (scope :: scopes) (k + 1) name index ↔ Holds scopes k name index := by
  simp [Holds]

theorem not_holds_nil : ¬ Holds [] k name index := by
  simp [Holds]

theorem Scope.Within.unshared_single {next : Nat} (within : scope.Within 0 next)
    (alone : live (scope :: scopes) = [scope]) : Unshared (scope :: scopes) next := by
  have first {k : Nat} {name : String} {index : UInt16} (held : Holds [scope] k name index) :
      k = 0 ∧ scope.names[name]? = some (.slot index) := by
    cases k with
    | zero => exact ⟨rfl, holds_zero.mp held⟩
    | succ k => exact (not_holds_nil (holds_succ.mp held)).elim
  constructor
  · intro k name index held
    rw [alone] at held
    have range : 0 ≤ index.toNat ∧ index.toNat < next := within.range (first held).2
    exact range.2
  · intro j k a b index one two
    rw [alone] at one two
    obtain ⟨rfl, left⟩ := first one
    obtain ⟨rfl, right⟩ := first two
    exact ⟨rfl, within.unshared left right⟩

theorem Scope.Within.unshared_nested {low next : Nat} (within : scope.Within low next)
    (above : low ≤ next) (outer : Unshared scopes low)
    (nested : live (scope :: scopes) = scope :: live scopes) : Unshared (scope :: scopes) next := by
  have range {name : String} {index : UInt16} (held : scope.names[name]? = some (.slot index)) :
      low ≤ index.toNat ∧ index.toNat < next := within.range held
  constructor
  · intro k name index held
    rw [nested] at held
    cases k with
    | zero => exact (range (holds_zero.mp held)).2
    | succ k => exact Nat.lt_of_lt_of_le (outer.below (holds_succ.mp held)) above
  · intro j k a b index one two
    rw [nested] at one two
    cases j with
    | zero =>
        rw [holds_zero] at one
        cases k with
        | zero => exact ⟨rfl, within.unshared one (holds_zero.mp two)⟩
        | succ k =>
            have lower := outer.below (holds_succ.mp two)
            have higher := (range one).1
            omega
    | succ j =>
        rw [holds_succ] at one
        cases k with
        | zero =>
            have lower := outer.below one
            have higher := (range (holds_zero.mp two)).1
            omega
        | succ k =>
            obtain ⟨same, names⟩ := outer.apart one (holds_succ.mp two)
            exact ⟨congrArg (· + 1) same, names⟩

theorem Stacked.unshared {next : Nat} (stacked : Stacked scopes next) : Unshared scopes next := by
  induction stacked with
  | bottom _ within => exact within.unshared_single (by simp [live])
  | function _ kind within _ _ => exact within.unshared_single (if_pos kind)
  | nested _ kind above within _ ih => exact within.unshared_nested above ih (if_neg kind)

end Live

namespace Environment

theorem Sound.perform {env after : Environment} {operation : Operation} (sound : env.Sound)
    (performed : env.perform operation = some after) : after.Sound := by
  cases operation with
  | push kind =>
      cases performed
      exact sound.push kind
  | pop =>
      cases performed
      exact sound.pop
  | declare name =>
      obtain ⟨index, declared, rfl⟩ := Option.map_eq_some_iff.mp performed
      exact sound.declare (Prod.ext declared rfl)
  | define name =>
      obtain ⟨binding, defined, rfl⟩ := Option.map_eq_some_iff.mp performed
      exact sound.define (Prod.ext defined rfl)

theorem Sound.performAll {env after : Environment} {history : List Operation} (sound : env.Sound)
    (performed : env.performAll history = some after) : after.Sound := by
  induction history generalizing env with
  | nil =>
      cases performed
      exact sound
  | cons operation rest ih =>
      rw [Environment.performAll, List.foldlM_cons] at performed
      obtain ⟨middle, first, others⟩ := Option.bind_eq_some_iff.mp performed
      exact ih (sound.perform first) others

/-- Behind every history no operation of which fails, the locals in use have slots of their own below the
next slot. To declare a local of the innermost scope again gives its slot and changes nothing. -/
theorem locals_unshared {history : List Operation} {env : Environment}
    (performed : global.performAll history = some env) :
    Unshared env.scopes env.nextSlot ∧
      ∀ (name : String) (index : UInt16), env.inner.names[name]? = some (.slot index) →
        env.declare name = (some index, env) := by
  have sound := sound_global.performAll performed
  exact ⟨Stacked.unshared sound, fun name index held => declare_of_local held⟩

section Reentered

def reentered : List Operation :=
  [.pop, .push .function, .declare "x", .push .function, .declare "a", .declare "b", .pop, .push .block,
    .define "x", .push .global, .define "g", .declare "y", .define "x"]

theorem reentered_unshared : ∃ env, global.performAll reentered = some env ∧
    Holds (live env.scopes) 2 "x" 0 ∧ Holds (live env.scopes) 1 "x" 1 ∧
    env.inner.names["y"]? = some (.slot 2) ∧ Unshared env.scopes env.nextSlot ∧
    env.declare "y" = (some 2, env) := by
  obtain ⟨env, performed, outer, inner, newest⟩ : ∃ env, global.performAll reentered = some env ∧
      Holds (live env.scopes) 2 "x" 0 ∧ Holds (live env.scopes) 1 "x" 1 ∧
      env.inner.names["y"]? = some (.slot 2) := by
    simp [performAll, reentered, perform, push, pop, declare, define, global, Holds, live, scopes, lastSlot,
      Std.HashMap.getElem_insert]
  obtain ⟨unshared, again⟩ := locals_unshared performed
  exact ⟨env, performed, outer, inner, newest, unshared, again "y" 2 newest⟩

end Reentered

end Environment

end LispMachine
