import LispMachine.Proofs.Locals.History

set_option autoImplicit false

namespace LispMachine

structure Environment.Within (env after : Environment) : Prop where
  outer : after.outer = env.outer
  saved : after.inner.savedSlot = env.inner.savedSlot

namespace Environment.Within

theorem refl (env : Environment) : env.Within env := ⟨rfl, rfl⟩

theorem trans {env middle after : Environment} (first : env.Within middle) (second : middle.Within after) :
    env.Within after :=
  ⟨second.outer.trans first.outer, second.saved.trans first.saved⟩

theorem declare {env after : Environment} {name : String} {slot : UInt16}
    (declared : env.declare name = (some slot, after)) : env.Within after := by
  rcases declare_cases declared with ⟨_, rfl⟩ | ⟨_, _, _, rfl⟩
  · exact .refl _
  · exact ⟨rfl, rfl⟩

theorem define {env after : Environment} {name : String} {b : Binding}
    (defined : env.define name = (some b, after)) : env.Within after := by
  rcases define_cases defined with ⟨_, _, rfl⟩ | ⟨_, _, _, declared⟩
  · exact ⟨rfl, rfl⟩
  · exact .declare declared

theorem pop {env after : Environment} {kind : ScopeKind} (inside : (env.push kind).Within after) :
    after.pop = env := by
  have outer : after.outer = env.inner :: env.outer := inside.outer
  have saved : after.inner.savedSlot = env.nextSlot := inside.saved
  simp only [Environment.pop, outer, saved]

end Environment.Within

namespace Resolution

variable {r : Resolution} {table : Table}

open Expression

mutual

theorem Resolved.within {e : Expression} {env after : Environment}
    (resolved : Resolved r table e env after) : env.Within after := by
  cases resolved with
  | constant | symbol => exact .refl _
  | define value defined _ => exact value.within.trans (.define defined)
  | bind bound declared _ body =>
      rw [(Environment.Within.declare declared |>.trans body.within).pop]
      exact bound.within
  | branch condition yes no => exact (condition.within.trans yes.within).trans no.within
  | block body =>
      rw [body.within.pop]
      exact .refl _
  | cond clauses => exact clauses.within
  | call _ args => exact args.within
  | compose first _ => exact first.within

theorem ResolvedAll.within {es : List Expression} {env after : Environment}
    (resolved : ResolvedAll r table es env after) : env.Within after := by
  cases resolved with
  | nil => exact .refl _
  | cons head rest => exact head.within.trans rest.within

theorem ResolvedClauses.within {clauses : List (Expression × Expression)} {env after : Environment}
    (resolved : ResolvedClauses r table clauses env after) : env.Within after := by
  cases resolved with
  | nil => exact .refl _
  | cons test consequent rest =>
      have others := rest.within
      rw [consequent.within.pop] at others
      exact test.within.trans others

end

theorem Declared.within {names : List String} {env after : Environment}
    (declared : Declared names env after) : env.Within after := by
  induction declared with
  | nil => exact .refl _
  | cons first _ ih => exact (Environment.Within.declare first).trans ih

end Resolution

namespace Kept

open Expression Resolution

variable {r : Resolution} {table : Table} {past : Past}

mutual

theorem skip {e : Expression} {env after : Environment} {opened : List Opened}
    (resolved : Resolved r table e env after) (kept : Kept env opened past) :
    Kept after (Opened.extend opened e.declares) past := by
  cases resolved with
  | constant | symbol => simpa [declares] using kept
  | define value defined _ => simpa [declares] using (skip value kept).define defined
  | bind bound declared _ body =>
      rw [(Environment.Within.declare declared |>.trans body.within).pop, declares]
      exact skip bound kept
  | branch condition yes no => simpa [declares] using skip no (skip yes (skip condition kept))
  | block body =>
      rw [body.within.pop]
      simpa [declares] using kept
  | cond clauses =>
      rw [declares]
      exact skipClauses clauses kept
  | call _ args =>
      rw [declares]
      exact skipAll args kept
  | compose first _ =>
      rw [declares]
      exact skip first kept

theorem skipAll {es : List Expression} {env after : Environment} {opened : List Opened}
    (resolved : ResolvedAll r table es env after) (kept : Kept env opened past) :
    Kept after (Opened.extend opened (declaresAll es)) past := by
  cases resolved with
  | nil => simpa [declaresAll] using kept
  | cons head rest => simpa [declaresAll] using skipAll rest (skip head kept)

theorem skipClauses {clauses : List (Expression × Expression)} {env after : Environment}
    {opened : List Opened} (resolved : ResolvedClauses r table clauses env after)
    (kept : Kept env opened past) :
    Kept after (Opened.extend opened (declaresTests clauses)) past := by
  cases resolved with
  | nil => simpa [declaresTests] using kept
  | cons test consequent rest =>
      rw [consequent.within.pop] at rest
      simpa [declaresTests] using skipClauses rest (skip test kept)

end

end Kept

end LispMachine
