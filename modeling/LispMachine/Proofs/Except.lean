set_option autoImplicit false

namespace LispMachine

theorem bind_ok {ε α β : Type} {first : Except ε α} {next : α → Except ε β} {result : β} :
    first >>= next = .ok result ↔ ∃ a, first = .ok a ∧ next a = .ok result := by
  cases first with
  | error e => simp [bind, Except.bind]
  | ok a => simp [bind, Except.bind]

theorem map_ok {ε α β : Type} {x : Except ε α} {g : α → β} {b : β} (mapped : x.map g = .ok b) :
    ∃ a, x = .ok a ∧ b = g a := by
  cases x with
  | error e => cases mapped
  | ok a =>
      cases mapped
      exact ⟨a, rfl, rfl⟩

theorem mapM_ok {ε α β : Type} {f : α → Except ε β} {xs : List α} {ys : List β}
    (mapped : xs.mapM f = .ok ys) : ys.length = xs.length ∧
      ∀ (k : Nat) (x : α), xs[k]? = some x → ∃ y, ys[k]? = some y ∧ f x = .ok y := by
  induction xs generalizing ys with
  | nil =>
      cases mapped
      simp
  | cons x rest ih =>
      rw [List.mapM_cons] at mapped
      obtain ⟨y, head, mapped⟩ := bind_ok.mp mapped
      obtain ⟨others, tail, done⟩ := bind_ok.mp mapped
      cases done
      obtain ⟨length, others⟩ := ih tail
      refine ⟨by simp [length], fun k x' found => ?_⟩
      cases k with
      | zero =>
          cases found
          exact ⟨y, rfl, head⟩
      | succ k => exact others k x' found

theorem exists_of_toBool {ε α : Type} {x : Except ε α} (succeeds : x.toBool) : ∃ a, x = .ok a := by
  cases x with
  | ok a => exact ⟨a, rfl⟩
  | error e => cases succeeds

theorem eq_ok_of_toOption {ε α : Type} {x : Except ε α} {a : α} (succeeds : x.toOption = some a) :
    x = .ok a := by
  cases x with
  | ok b => exact congrArg Except.ok (Option.some.inj succeeds)
  | error e => cases succeeds

def FailsWith {ε α : Type} (P : ε → Prop) (x : Except ε α) : Prop := ∀ e, x = .error e → P e

namespace FailsWith

variable {ε α β : Type} {P : ε → Prop}

theorem ok (a : α) : FailsWith P (.ok a : Except ε α) := nofun

theorem error {e : ε} (holds : P e) : FailsWith P (.error e : Except ε α) := by
  intro e' same
  cases same
  exact holds

theorem bind {first : Except ε α} {next : α → Except ε β} (head : FailsWith P first)
    (tail : ∀ a, first = .ok a → FailsWith P (next a)) : FailsWith P (first >>= next) := by
  intro e failed
  cases found : first with
  | error e' =>
      rw [found] at failed
      cases failed
      exact head e found
  | ok a =>
      rw [found] at failed
      exact tail a found e failed

theorem mono {Q : ε → Prop} {x : Except ε α} (fails : FailsWith P x) (weaker : ∀ e, P e → Q e) :
    FailsWith Q x := fun e failed => weaker e (fails e failed)

theorem map {x : Except ε α} (fails : FailsWith P x) (g : α → β) : FailsWith P (x.map g) := by
  cases x with
  | error e => exact error (fails e rfl)
  | ok a => exact ok (g a)

theorem foldlM {f : β → α → Except ε β} {xs : List α} {b : β} (each : ∀ b a, FailsWith P (f b a)) :
    FailsWith P (xs.foldlM f b) := by
  induction xs generalizing b with
  | nil => exact ok b
  | cons x rest ih =>
      rw [List.foldlM_cons]
      exact (each b x).bind fun b _ => ih

theorem mapM {f : α → Except ε β} {xs : List α} (each : ∀ x ∈ xs, FailsWith P (f x)) :
    FailsWith P (xs.mapM f) := by
  induction xs with
  | nil => exact ok []
  | cons x rest ih =>
      rw [List.mapM_cons]
      obtain ⟨head, tail⟩ := List.forall_mem_cons.mp each
      exact head.bind fun y _ => (ih tail).bind fun ys _ => ok _

end FailsWith

def Decides {ε α : Type} (fits : Prop) (P : α → Prop) (x : Except ε α) : Prop :=
  match x with
  | .ok a => fits ∧ P a
  | .error _ => ¬ fits

namespace Decides

variable {ε α β : Type} {fits more : Prop} {P : α → Prop} {Q : β → Prop} {x : Except ε α}

theorem ok {a : α} (holds : P a) : Decides True P (.ok a : Except ε α) := ⟨trivial, holds⟩

theorem ok_iff (decides : Decides fits P x) : (∃ a, x = .ok a) ↔ fits := by
  cases x with
  | ok a => exact iff_of_true ⟨a, rfl⟩ decides.1
  | error e => exact iff_of_false nofun decides

theorem of_ok (decides : Decides fits P x) {a : α} (succeeds : x = .ok a) : P a := by
  subst succeeds
  exact decides.2

theorem congr (decides : Decides fits P x) (same : fits ↔ more) : Decides more P x :=
  propext same ▸ decides

theorem bind {next : α → Except ε β} (first : Decides fits P x)
    (second : ∀ a, P a → Decides more Q (next a)) : Decides (fits ∧ more) Q (x >>= next) := by
  cases x with
  | error e => exact fun both => first both.1
  | ok a =>
      have later := second a first.2
      show Decides (fits ∧ more) Q (next a)
      exact later.congr ⟨fun h => ⟨first.1, h⟩, And.right⟩

theorem known (decides : Decides fits P x) (always : ∀ a, P a → more) : Decides (fits ∧ more) P x := by
  cases x with
  | error e => exact fun both => decides both.1
  | ok a => exact ⟨⟨decides.1, always a decides.2⟩, decides.2⟩

end Decides

def Yields {ε α : Type} (P : ε → Prop) (Q : α → Prop) : Except ε α → Prop
  | .ok a => Q a
  | .error e => P e

namespace Yields

variable {ε α β : Type} {P : ε → Prop} {Q : α → Prop} {R : β → Prop}

theorem bind {first : Except ε α} {next : α → Except ε β} (head : Yields P Q first)
    (tail : ∀ a, Q a → Yields P R (next a)) : Yields P R (first >>= next) := by
  cases first with
  | ok a => exact tail a head
  | error e => exact head

theorem imp {P' : ε → Prop} {Q' : α → Prop} {x : Except ε α} (yields : Yields P Q x)
    (failures : ∀ e, P e → P' e) (results : ∀ a, Q a → Q' a) : Yields P' Q' x := by
  cases x with
  | ok a => exact results a yields
  | error e => exact failures e yields

theorem fails {x : Except ε α} (yields : Yields P Q x) : FailsWith P x := by
  rintro e rfl
  exact yields

theorem of_ok {x : Except ε α} (yields : Yields P Q x) {a : α} (succeeds : x = .ok a) : Q a := by
  subst succeeds
  exact yields

theorem foldlM {f : α → β → Except ε α} {xs : List β} {a : α} (holds : Q a)
    (each : ∀ a, ∀ x ∈ xs, Q a → Yields P Q (f a x)) : Yields P Q (xs.foldlM f a) := by
  induction xs generalizing a with
  | nil => exact holds
  | cons x rest ih =>
      rw [List.foldlM_cons]
      refine (each a x (.head _) holds).bind fun b holds => ih holds ?_
      exact fun a x member => each a x (.tail _ member)

theorem mapM {f : α → Except ε β} {xs : List α} (each : ∀ x ∈ xs, Yields P R (f x)) :
    Yields P (fun ys => ∀ y ∈ ys, R y) (xs.mapM f) := by
  induction xs with
  | nil => exact List.forall_mem_nil R
  | cons x rest ih =>
      rw [List.mapM_cons]
      obtain ⟨head, tail⟩ := List.forall_mem_cons.mp each
      refine head.bind fun y first => (ih tail).bind fun ys others => ?_
      exact List.forall_mem_cons.mpr ⟨first, others⟩

theorem mapM_array {f : α → Except ε β} {xs : Array α} (each : ∀ x ∈ xs, Yields P R (f x)) :
    Yields P (fun ys => ∀ y ∈ ys, R y) (xs.mapM f) := by
  have listed : Yields P (fun ys => ∀ y ∈ ys, R y) (Array.toList <$> xs.mapM f) := by
    rw [Array.toList_mapM]
    exact mapM fun x member => each x (Array.mem_toList_iff.mp member)
  cases found : xs.mapM f with
  | error e =>
      rw [found] at listed
      exact listed
  | ok ys =>
      rw [found] at listed
      exact fun y member => listed y (Array.mem_toList_iff.mpr member)

end Yields

def EndsAlike {ε α β : Type} (E : ε → ε → Prop) (R : α → β → Prop) : Except ε α → Except ε β → Prop
  | .ok a, .ok b => R a b
  | .error d, .error e => E d e
  | _, _ => False

namespace EndsAlike

variable {ε α β γ δ : Type} {E : ε → ε → Prop} {R : α → β → Prop} {S : γ → δ → Prop}

theorem bind {x : Except ε α} {y : Except ε β} {f : α → Except ε γ} {g : β → Except ε δ}
    (first : EndsAlike E R x y) (second : ∀ a b, R a b → EndsAlike E S (f a) (g b)) :
    EndsAlike E S (x >>= f) (y >>= g) := by
  cases x <;> cases y
  · exact first
  · exact first.elim
  · exact first.elim
  · exact second _ _ first

theorem map_iff {x : Except ε α} {y : Except ε β} {f : α → γ} {g : β → δ} :
    EndsAlike E S (f <$> x) (g <$> y) ↔ EndsAlike E (fun a b => S (f a) (g b)) x y := by
  cases x <;> cases y <;> exact Iff.rfl

theorem ok_iff {x : Except ε α} {y : Except ε β} (alike : EndsAlike E R x y) : (∃ a, x = .ok a) ↔ ∃ b, y = .ok b := by
  cases x <;> cases y
  · exact iff_of_false nofun nofun
  · exact alike.elim
  · exact alike.elim
  · exact iff_of_true ⟨_, rfl⟩ ⟨_, rfl⟩

theorem imp {E' : ε → ε → Prop} {R' : α → β → Prop} {x : Except ε α} {y : Except ε β}
    (alike : EndsAlike E R x y) (failures : ∀ d e, E d e → E' d e) (results : ∀ a b, R a b → R' a b) :
    EndsAlike E' R' x y := by
  cases x <;> cases y
  · exact failures _ _ alike
  · exact alike
  · exact alike
  · exact results _ _ alike

end EndsAlike

def KeepsUp {ε α β : Type} (P : ε → Prop) (R : α → β → Prop) (x : Except ε α) (y : Except ε β) : Prop :=
  ∀ a, x = .ok a → Yields P (R a) y

theorem KeepsUp.ok {ε α β : Type} {P : ε → Prop} {R : α → β → Prop} {a : α} {b : β} (related : R a b) :
    KeepsUp P R (.ok a) (.ok b) := by
  rintro _ ⟨⟩
  exact related

theorem KeepsUp.error {ε α β : Type} {P : ε → Prop} {R : α → β → Prop} {e : ε} {y : Except ε β} :
    KeepsUp P R (.error e) y := nofun

theorem KeepsUp.bind {ε α β γ δ : Type} {P : ε → Prop} {R : α → β → Prop} {S : γ → δ → Prop}
    {x : Except ε α} {y : Except ε β} {f : α → Except ε γ} {g : β → Except ε δ} (first : KeepsUp P R x y)
    (second : ∀ a b, R a b → KeepsUp P S (f a) (g b)) : KeepsUp P S (x >>= f) (y >>= g) := by
  intro c done
  obtain ⟨a, head, tail⟩ := bind_ok.mp done
  exact (first a head).bind fun b related => second a b related c tail

end LispMachine
