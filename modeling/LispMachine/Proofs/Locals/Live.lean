import LispMachine.Proofs.Environment
import LispMachine.Proofs.Locals.Tracing

set_option autoImplicit false

namespace LispMachine

structure Scope.Outermost (scope : Scope) : Prop where
  kind : scope.kind = .global
  slotless : ∀ (name : String) (slot : UInt16), scope.names[name]? ≠ some (.slot slot)

structure Opened.Names (opened : Opened) (scope : Scope) : Prop where
  slot : ∀ name ∈ opened.names, ∃ slot, scope.names[name]? = some (.slot slot)
  only : ∀ name ∉ opened.names, scope.names[name]? = none

inductive Aligned : List Opened → List Scope → Prop
  | global {scope} : scope.Outermost → Aligned [] [scope]
  | function {first scope outer} : scope.kind = .function → first.Names scope → outer.Outermost →
      Aligned [first] [scope, outer]
  | block {first scope opened scopes} : scope.kind = .block → first.Names scope →
      Aligned opened scopes → Aligned (first :: opened) (scope :: scopes)

inductive Live : List Opened → List Scope → Local → UInt16 → Prop
  | here {first opened scope scopes name slot} : scope.names[name]? = some (.slot slot) →
      Live (first :: opened) (scope :: scopes) ⟨first.number, name⟩ slot
  | outer {first opened scope scopes owner slot} : Live opened scopes owner slot →
      Live (first :: opened) (scope :: scopes) owner slot

theorem Opened.Names.empty (number : Nat) (kind : ScopeKind) (saved : Nat) :
    Opened.Names ⟨number, []⟩ ⟨kind, ∅, saved⟩ := by
  constructor <;> simp

theorem Opened.Names.mem {opened : Opened} {scope : Scope} (names : opened.Names scope) {name : String}
    {b : Binding} (found : scope.names[name]? = some b) : name ∈ opened.names := by
  apply Decidable.byContradiction
  intro missing
  rw [names.only name missing] at found
  cases found

namespace Live

variable {opened : List Opened} {scopes : List Scope} {owner other : Local} {slot slot' : UInt16} {next : Nat}

theorem inside (live : Live opened scopes owner slot) (aligned : Aligned opened scopes) :
    ∃ scope ∈ opened, scope.number = owner.scope ∧ owner.name ∈ scope.names := by
  induction live with
  | here found =>
      refine ⟨_, List.mem_cons_self, rfl, ?_⟩
      cases aligned with
      | function _ names _ => exact names.mem found
      | block _ names _ => exact names.mem found
  | outer live ih =>
      cases aligned with
      | function => cases live
      | block _ _ rest =>
          obtain ⟨scope, member, found⟩ := ih rest
          exact ⟨scope, List.mem_cons_of_mem _ member, found⟩

theorem of_mem (aligned : Aligned opened scopes) {scope : Opened} (member : scope ∈ opened)
    {name : String} (declared : name ∈ scope.names) :
    ∃ slot, Live opened scopes ⟨scope.number, name⟩ slot := by
  induction aligned with
  | global => cases member
  | function _ names _ =>
      cases List.mem_singleton.mp member
      obtain ⟨slot, found⟩ := names.slot name declared
      exact ⟨slot, .here found⟩
  | block _ names _ ih =>
      rcases List.mem_cons.mp member with rfl | member
      · obtain ⟨slot, found⟩ := names.slot name declared
        exact ⟨slot, .here found⟩
      · obtain ⟨slot, live⟩ := ih member
        exact ⟨slot, .outer live⟩

theorem slot_lt (live : Live opened scopes owner slot) (aligned : Aligned opened scopes)
    (stacked : Stacked scopes next) : slot.toNat < next := by
  induction live generalizing next with
  | here found =>
      obtain ⟨low, _, within⟩ := stacked.inner
      exact (within.range found).2
  | outer live ih =>
      cases aligned with
      | function => cases live
      | block kind _ rest =>
          cases stacked with
          | bottom => cases live
          | function _ function => rw [kind] at function; cases function
          | nested _ _ saved _ outer => exact Nat.lt_of_lt_of_le (ih rest outer) saved

theorem unshared (live : Live opened scopes owner slot) (live' : Live opened scopes other slot)
    (aligned : Aligned opened scopes) (stacked : Stacked scopes next) : owner = other := by
  induction aligned generalizing next with
  | global => cases live
  | function =>
      obtain ⟨low, _, within⟩ := stacked.inner
      cases live with
      | outer live => cases live
      | here found =>
          cases live' with
          | outer live' => cases live'
          | here found' => rw [within.unshared found found']
  | block kind names rest ih =>
      cases stacked with
      | bottom => cases rest
      | function _ function => rw [kind] at function; cases function
      | nested _ _ saved within outer =>
          -- The slots of the scopes around it are below those of the innermost one.
          cases live with
          | here found =>
              cases live' with
              | here found' => rw [within.unshared found found']
              | outer live' =>
                  have low := (within.range found).1
                  have high := live'.slot_lt rest outer
                  omega
          | outer live =>
              cases live' with
              | here found' =>
                  have low := (within.range found').1
                  have high := live.slot_lt rest outer
                  omega
              | outer live' => exact ih live live' outer

-- A local has one slot, since no two open scopes have the same number.
theorem slot_unique (live : Live opened scopes owner slot) (live' : Live opened scopes owner slot')
    (aligned : Aligned opened scopes) (distinct : (opened.map Opened.number).Nodup) : slot = slot' := by
  induction aligned with
  | global => cases live
  | function =>
      cases live with
      | outer live => cases live
      | here found =>
          cases live' with
          | outer live' => cases live'
          | here found' => rw [found] at found'; cases found'; rfl
  | block _ _ rest ih =>
      rw [List.map_cons, List.nodup_cons] at distinct
      -- A local of the innermost scope and one of the scopes around it have different numbers.
      cases live with
      | here found =>
          cases live' with
          | here found' => rw [found] at found'; cases found'; rfl
          | outer live' =>
              obtain ⟨scope, member, number, _⟩ := live'.inside rest
              exact absurd (List.mem_map.mpr ⟨scope, member, number⟩) distinct.1
      | outer live =>
          cases live' with
          | here found' =>
              obtain ⟨scope, member, number, _⟩ := live.inside rest
              exact absurd (List.mem_map.mpr ⟨scope, member, number⟩) distinct.1
          | outer live' => exact ih live live' distinct.2

end Live

end LispMachine
