import Std.Data.HashMap

set_option autoImplicit false

namespace LispMachine

inductive ScopeKind
  | global
  | function
  | block
  deriving DecidableEq

inductive Binding
  | slot (index : UInt16)
  | global (name : String)
  | function (index : UInt16)
  deriving DecidableEq

/-- The names declared in one scope, and the first slot that was free when it was entered. -/
structure Scope where
  kind : ScopeKind
  names : Std.HashMap String Binding
  savedSlot : Nat

structure Environment where
  inner : Scope
  outer : List Scope
  nextSlot : Nat

namespace Environment

def global : Environment := ⟨⟨.global, ∅, 0⟩, [], 0⟩

-- The slot that is never handed out, so that the number of slots fits in sixteen bits.
def lastSlot : Nat := 65535

def depth (env : Environment) : Nat := env.outer.length + 1

def push (env : Environment) (kind : ScopeKind) : Environment :=
  { inner := ⟨kind, ∅, env.nextSlot⟩
    outer := env.inner :: env.outer
    nextSlot := match kind with
      | .function => 0
      | _ => env.nextSlot }

def pop (env : Environment) : Environment :=
  match env.outer with
  | [] => env
  | scope :: outer => ⟨scope, outer, env.inner.savedSlot⟩

-- The slot of a local name of the innermost scope, a new one unless the scope has it already. The
-- last slot fails, though the name is bound to it.
def declare (env : Environment) (name : String) : Option UInt16 × Environment :=
  match env with
  | ⟨⟨kind, names, savedSlot⟩, outer, nextSlot⟩ =>
      match names[name]? with
      | some (.slot index) => (some index, ⟨⟨kind, names, savedSlot⟩, outer, nextSlot⟩)
      | _ =>
          let index := UInt16.ofNat nextSlot
          let names := names.insert name (.slot index)
          if nextSlot < lastSlot then (some index, ⟨⟨kind, names, savedSlot⟩, outer, nextSlot + 1⟩)
          else (none, ⟨⟨kind, names, savedSlot⟩, outer, nextSlot⟩)

def define (env : Environment) (name : String) : Option Binding × Environment :=
  match env.inner.kind with
  | .global =>
      match env with
      | ⟨⟨kind, names, savedSlot⟩, outer, nextSlot⟩ =>
          let names := names.insert name (.global name)
          (some (.global name), ⟨⟨kind, names, savedSlot⟩, outer, nextSlot⟩)
  | _ =>
      match env.declare name with
      | (index, env) => (index.map .slot, env)

def scopes (env : Environment) : List Scope := env.inner :: env.outer

def lookup (env : Environment) (name : String) : Option Binding :=
  env.scopes.findSome? (·.names[name]?)

end Environment

end LispMachine
