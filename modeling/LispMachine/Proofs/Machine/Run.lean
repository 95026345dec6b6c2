import LispMachine.Machine

set_option autoImplicit false

namespace LispMachine.Machine

variable {σ : Type} [LineSink σ]

inductive Reaches (unit : CompiledUnit) (limit : Nat) : State σ → State σ → Prop
  | refl {s : State σ} : Reaches unit limit s s
  | head {s s₁ s₂ : State σ} : step unit limit s = .next s₁ → Reaches unit limit s₁ s₂ →
      Reaches unit limit s s₂

inductive Halts (unit : CompiledUnit) (limit : Nat) : State σ → Except Fault Value → World σ → Prop
  | stop {s : State σ} {result world} : step unit limit s = .stop result world →
      Halts unit limit s result world
  | next {s s₁ : State σ} {result world} : step unit limit s = .next s₁ →
      Halts unit limit s₁ result world → Halts unit limit s result world

variable {unit : CompiledUnit} {limit : Nat}

theorem Reaches.single {s s₁ : State σ} (stepped : step unit limit s = .next s₁) :
    Reaches unit limit s s₁ := .head stepped .refl

theorem Reaches.trans {s s₁ s₂ : State σ} (first : Reaches unit limit s s₁)
    (second : Reaches unit limit s₁ s₂) : Reaches unit limit s s₂ := by
  induction first with
  | refl => exact second
  | head stepped _ ih => exact .head stepped (ih second)

theorem Reaches.halts {s s₁ : State σ} {result : Except Fault Value} {world : World σ}
    (reaches : Reaches unit limit s s₁) (halts : Halts unit limit s₁ result world) :
    Halts unit limit s result world := by
  induction reaches with
  | refl => exact halts
  | head stepped _ ih => exact .next stepped (ih halts)

theorem Reaches.invariant {P : State σ → Prop} (kept : ∀ s s₁, P s → step unit limit s = .next s₁ → P s₁)
    {s s₁ : State σ} (reaches : Reaches unit limit s s₁) (initial : P s) : P s₁ := by
  induction reaches with
  | refl => exact initial
  | head stepped _ ih => exact ih (kept _ _ initial stepped)

theorem Halts.runFor {s : State σ} {result : Except Fault Value} {world : World σ}
    (halts : Halts unit limit s result world) :
    ∃ least, ∀ fuel, least ≤ fuel → Machine.runFor unit limit fuel s = some (result, world) := by
  induction halts with
  | stop stopped =>
      refine ⟨1, fun fuel enough => ?_⟩
      obtain ⟨fuel, rfl⟩ := Nat.exists_eq_add_of_le' enough
      simp only [Machine.runFor, stopped]
  | next stepped _ ih =>
      obtain ⟨least, found⟩ := ih
      refine ⟨least + 1, fun fuel enough => ?_⟩
      obtain ⟨fuel, rfl⟩ := Nat.exists_eq_add_of_le' (Nat.le_of_add_left_le enough)
      simp only [Machine.runFor, stepped]
      exact found fuel (by omega)

theorem run_of_halts {m : Machine σ} {result : Except Fault Value} {world : World σ}
    (halts : Halts unit m.limit (start unit ⟨∅, m.world.output⟩) result world) :
    ∃ least, ∀ fuel, least ≤ fuel → m.run fuel unit = some (result, { m with world }) := by
  obtain ⟨least, found⟩ := halts.runFor
  refine ⟨least, fun fuel enough => ?_⟩
  simp only [Machine.run, found fuel enough]

theorem reaches_of_runFor {fuel : Nat} {s : State σ} {result : Except Fault Value} {world : World σ}
    (found : Machine.runFor unit limit fuel s = some (result, world)) :
    ∃ s₁, Reaches unit limit s s₁ ∧ step unit limit s₁ = .stop result world := by
  induction fuel generalizing s with
  | zero => cases found
  | succ fuel ih =>
      simp only [Machine.runFor] at found
      split at found
      next stepped =>
        obtain ⟨s₁, reaches, stopped⟩ := ih found
        exact ⟨s₁, .head stepped reaches, stopped⟩
      next stopped =>
        cases found
        exact ⟨s, .refl, stopped⟩

end LispMachine.Machine
