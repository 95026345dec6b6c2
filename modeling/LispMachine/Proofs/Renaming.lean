import Mathlib.Data.List.Forall2
import LispMachine.Expression
import LispMachine.Proofs.Environment

set_option autoImplicit false

namespace LispMachine

def replaced (old new name : String) : String := if name = old then new else name

section Replaced

variable {old new name other : String}

theorem replaced_of_ne (different : name ≠ old) : replaced old new name = name := if_neg different

theorem replaced_inj (fresh : name ≠ new) (fresh' : other ≠ new) :
    replaced old new name = replaced old new other ↔ name = other := by
  unfold replaced
  grind

end Replaced

namespace Expression

mutual

/-- The expression with `new` for `old` as a symbol, a bound name or a parameter. Callees and the names of
functions stay. -/
def rename (old new : String) : Expression → Expression
  | .constant value p => .constant value p
  | .symbol name p => .symbol (replaced old new name) p
  | .define name value p => .define (replaced old new name) (value.rename old new) p
  | .function name params body p =>
      .function name (params.map (replaced old new)) (body.rename old new) p
  | .bind name bound body p =>
      .bind (replaced old new name) (bound.rename old new) (body.rename old new) p
  | .branch condition yes no p =>
      .branch (condition.rename old new) (yes.rename old new) (no.rename old new) p
  | .block body p => .block (renameAll old new body) p
  | .cond clauses p => .cond (renameClauses old new clauses) p
  | .call callee args p => .call callee (renameAll old new args) p
  | .compose first stages p => .compose (first.rename old new) stages p

def renameAll (old new : String) : List Expression → List Expression
  | [] => []
  | e :: rest => e.rename old new :: renameAll old new rest

def renameClauses (old new : String) : List (Expression × Expression) → List (Expression × Expression)
  | [] => []
  | (test, consequent) :: rest =>
      (test.rename old new, consequent.rename old new) :: renameClauses old new rest

end

mutual

def names : Expression → List String
  | .constant _ _ => []
  | .symbol name _ => [name]
  | .define name value _ => name :: value.names
  | .function name params body _ => name :: (params ++ body.names)
  | .bind name bound body _ => name :: (bound.names ++ body.names)
  | .branch condition yes no _ => condition.names ++ yes.names ++ no.names
  | .block body _ => namesAll body
  | .cond clauses _ => namesClauses clauses
  | .call callee args _ => callee :: namesAll args
  | .compose first stages _ => first.names ++ stages.map Stage.callee

def namesAll : List Expression → List String
  | [] => []
  | e :: rest => e.names ++ namesAll rest

def namesClauses : List (Expression × Expression) → List String
  | [] => []
  | (test, consequent) :: rest => test.names ++ consequent.names ++ namesClauses rest

end

mutual

def uses (name : String) : Expression → List Nat
  | .constant _ _ => []
  | .symbol other p => if other = name then [p.offset] else []
  | .define other value p => (if other = name then [p.offset] else []) ++ value.uses name
  | .function _ _ body _ => body.uses name
  | .bind _ bound body _ => bound.uses name ++ body.uses name
  | .branch condition yes no _ => condition.uses name ++ yes.uses name ++ no.uses name
  | .block body _ => usesAll name body
  | .cond clauses _ => usesClauses name clauses
  | .call _ args _ => usesAll name args
  | .compose first _ _ => first.uses name

def usesAll (name : String) : List Expression → List Nat
  | [] => []
  | e :: rest => e.uses name ++ usesAll name rest

def usesClauses (name : String) : List (Expression × Expression) → List Nat
  | [] => []
  | (test, consequent) :: rest => test.uses name ++ consequent.uses name ++ usesClauses name rest

end

section Renamed

variable (old new : String)

@[simp] theorem position_rename (e : Expression) : (e.rename old new).position = e.position := by
  cases e <;> rfl

@[simp] theorem length_renameAll (es : List Expression) : (renameAll old new es).length = es.length := by
  induction es with
  | nil => rfl
  | cons e rest ih => simp [renameAll, ih]

end Renamed

end Expression

/-- The same scope with `new` for `old`. What it has under `new` before is left open. -/
structure Scope.Renamed (old new : String) (scope scope' : Scope) : Prop where
  kind : scope'.kind = scope.kind
  savedSlot : scope'.savedSlot = scope.savedSlot
  names : ∀ name, name ≠ new → scope'.names[replaced old new name]? = scope.names[name]?

theorem Scope.Renamed.insert {old new : String} {scope scope' : Scope} (renamed : scope.Renamed old new scope')
    {name : String} (fresh : name ≠ new) (b : Binding) :
    (scope.insert name b).Renamed old new (scope'.insert (replaced old new name) b) where
  kind := renamed.kind
  savedSlot := renamed.savedSlot
  names other fresh' := by
    rw [Scope.names_insert, Scope.names_insert, renamed.names other fresh']
    simp only [replaced_inj fresh fresh']

namespace Environment

structure Renamed (old new : String) (env env' : Environment) : Prop where
  inner : env.inner.Renamed old new env'.inner
  outer : List.Forall₂ (Scope.Renamed old new) env.outer env'.outer
  nextSlot : env'.nextSlot = env.nextSlot

namespace Renamed

variable {old new : String} {env env' : Environment}

theorem global : Environment.global.Renamed old new .global :=
  ⟨⟨rfl, rfl, by simp [Environment.global]⟩, .nil, rfl⟩

theorem push (renamed : env.Renamed old new env') (kind : ScopeKind) :
    (env.push kind).Renamed old new (env'.push kind) where
  inner := ⟨rfl, renamed.nextSlot, by simp [Environment.push]⟩
  outer := .cons renamed.inner renamed.outer
  nextSlot := by
    cases kind with
    | function => rfl
    | _ => exact renamed.nextSlot

theorem pop (renamed : env.Renamed old new env') : env.pop.Renamed old new env'.pop := by
  obtain ⟨inner, outer, next⟩ := env
  obtain ⟨inner', outer', next'⟩ := env'
  obtain ⟨own, others, same⟩ := renamed
  cases others with
  | nil => exact ⟨own, .nil, same⟩
  | cons scope others => exact ⟨scope, others, own.savedSlot⟩

theorem lookup (renamed : env.Renamed old new env') {name : String} (fresh : name ≠ new) :
    env'.lookup (replaced old new name) = env.lookup name := by
  have each : List.Forall₂ (Scope.Renamed old new) env.scopes env'.scopes :=
    .cons renamed.inner renamed.outer
  unfold Environment.lookup
  generalize env.scopes = scopes, env'.scopes = scopes' at each
  induction each with
  | nil => rfl
  | cons own _ ih => rw [List.findSome?_cons, List.findSome?_cons, own.names name fresh, ih]

theorem declare (renamed : env.Renamed old new env') {name : String} (fresh : name ≠ new)
    {index : UInt16} {after : Environment} (declared : env.declare name = (some index, after)) :
    ∃ after', env'.declare (replaced old new name) = (some index, after') ∧
      after.Renamed old new after' := by
  have held := renamed.inner.names name fresh
  have next := renamed.nextSlot
  rcases declare_cases declared with ⟨found, rfl⟩ | ⟨absent, room, number, rfl⟩
  · exact ⟨env', declare_of_local (held.trans found), renamed⟩
  · rw [← held] at absent
    rw [← next] at room number
    exact ⟨_, declare_of_new absent room number, renamed.inner.insert fresh _, renamed.outer,
      congrArg (· + 1) next⟩

-- A global keeps its name, so that `name` is then not the one that is exchanged.
theorem define (renamed : env.Renamed old new env') {name : String} (fresh : name ≠ new)
    {b : Binding} {after : Environment} (defined : env.define name = (some b, after))
    (kept : name = old → ∃ index, b = .slot index) :
    ∃ after', env'.define (replaced old new name) = (some b, after') ∧ after.Renamed old new after' := by
  rcases define_cases defined with ⟨kind, rfl, rfl⟩ | ⟨kind, index, rfl, declared⟩
  · have other : name ≠ old := by
      intro same
      obtain ⟨index, impossible⟩ := kept same
      cases impossible
    have inserted := renamed.inner.insert fresh (.global name)
    rw [replaced_of_ne other] at inserted ⊢
    exact ⟨_, define_of_global (renamed.inner.kind.trans kind) name, inserted, renamed.outer,
      renamed.nextSlot⟩
  · obtain ⟨after', declared, like⟩ := renamed.declare fresh declared
    exact ⟨after', define_of_local (renamed.inner.kind ▸ kind) declared, like⟩

end Renamed

end Environment

end LispMachine
