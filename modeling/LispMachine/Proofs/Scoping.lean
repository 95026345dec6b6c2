import Mathlib.Algebra.GroupWithZero.Nat
import LispMachine.Proofs.Resolution.Functions

set_option autoImplicit false

namespace LispMachine

namespace Expression

mutual

-- The names that an expression declares in the scope it stands in, evaluated or not.
def declares : Expression → List String
  | .constant _ _ | .symbol _ _ | .function _ _ _ _ | .block _ _ => []
  | .define name value _ => value.declares ++ [name]
  | .bind _ bound _ _ => bound.declares
  | .branch condition yes no _ => condition.declares ++ (yes.declares ++ no.declares)
  | .cond clauses _ => declaresTests clauses
  | .call _ args _ => declaresAll args
  | .compose first _ _ => first.declares

def declaresAll : List Expression → List String
  | [] => []
  | e :: rest => e.declares ++ declaresAll rest

def declaresTests : List (Expression × Expression) → List String
  | [] => []
  | (test, _) :: rest => test.declares ++ declaresTests rest

end

end Expression

namespace Definition

def number? (defs : List Definition) (name : String) : Option UInt16 :=
  (defs.findIdx? (·.name = name)).map UInt16.ofNat

def Callable (defs : List Definition) (name : String) (argc : Nat) : Prop :=
  (∃ b ∈ Builtin.all, b.name = name ∧ b.arity = argc) ∨
    ∃ d ∈ defs, d.name = name ∧ d.params.length = argc

instance (defs : List Definition) (name : String) (argc : Nat) : Decidable (Callable defs name argc) :=
  inferInstanceAs (Decidable (_ ∨ _))

end Definition

/-- The names in scope: those of the open scopes of a call, the innermost scope first and the names of
each in the order of their declarations, and the globals. -/
structure Scopes where
  locals : List (List String)
  globals : List String

namespace Scopes

def top : Scopes := ⟨[], []⟩

def enter (s : Scopes) : Scopes := ⟨[] :: s.locals, s.globals⟩

-- A call sees its parameters and the globals that precede the function.
def call (s : Scopes) (params : List String) : Scopes := ⟨[params], s.globals⟩

def declare (s : Scopes) (name : String) : Scopes :=
  match s.locals with
  | [] => ⟨[], name :: s.globals⟩
  | scope :: outer => ⟨(if name ∈ scope then scope else scope ++ [name]) :: outer, s.globals⟩

def declareAll (s : Scopes) (names : List String) : Scopes := names.foldl declare s

def after (s : Scopes) (e : Expression) : Scopes := s.declareAll e.declares

def count (locals : List (List String)) : Nat := (locals.map List.length).sum

def slots (s : Scopes) : Nat := count s.locals

-- A slot is numbered by the names before it, those of the scopes around first.
def slot? (name : String) : List (List String) → Option Nat
  | [] => none
  | scope :: outer =>
      match scope.findIdx? (· = name) with
      | some k => some (count outer + k)
      | none => slot? name outer

def lookup (s : Scopes) (name : String) : Option Binding :=
  match slot? name s.locals with
  | some k => some (.slot (UInt16.ofNat k))
  | none => if name ∈ s.globals then some (.global name) else none

-- Functions are known everywhere, but every name in scope hides the function of that name.
def meaning? (s : Scopes) (defs : List Definition) (name : String) : Option Binding :=
  match s.lookup name with
  | some binding => some binding
  | none => (Definition.number? defs name).map .function

end Scopes

structure Site where
  expression : Expression
  scopes : Scopes

namespace Site

def Known (defs : List Definition) : Site → Prop
  | ⟨.symbol name _, s⟩ =>
      (∃ scope ∈ s.locals, name ∈ scope) ∨ name ∈ s.globals ∨ ∃ d ∈ defs, d.name = name
  | ⟨.call name args _, _⟩ => Definition.Callable defs name args.length
  | ⟨.compose _ stages _, _⟩ => ∀ stage ∈ stages, Definition.Callable defs stage.callee 1
  | _ => True

def Fits (defs : List Definition) (site : Site) : Prop :=
  site.Known defs ∧ (site.scopes.after site.expression).slots ≤ 65535

instance (defs : List Definition) : (site : Site) → Decidable (site.Known defs)
  | ⟨.symbol _ _, _⟩ => inferInstanceAs (Decidable (_ ∨ _ ∨ _))
  | ⟨.call _ _ _, _⟩ => inferInstanceAs (Decidable (Definition.Callable _ _ _))
  | ⟨.compose _ _ _, _⟩ => inferInstanceAs (Decidable (∀ stage ∈ _, _))
  | ⟨.constant _ _, _⟩ | ⟨.define _ _ _, _⟩ | ⟨.function _ _ _ _, _⟩ | ⟨.bind _ _ _ _, _⟩
  | ⟨.branch _ _ _ _, _⟩ | ⟨.block _ _, _⟩ | ⟨.cond _ _, _⟩ => .isTrue trivial

instance (defs : List Definition) (site : Site) : Decidable (site.Fits defs) :=
  inferInstanceAs (Decidable (_ ∧ _))

def binding? (defs : List Definition) : Site → Option Binding
  | ⟨.symbol name _, s⟩ => s.meaning? defs name
  | ⟨.define name value _, s⟩ => ((s.after value).declare name).lookup name
  | ⟨.bind name bound _ _, s⟩ => ((s.after bound).enter.declare name).lookup name
  | ⟨.function name _ _ _, _⟩ => (Definition.number? defs name).map .function
  | _ => none

end Site

namespace Expression

mutual

/-- All parts of an expression that stands in `s`. The value of a name does not see the name, and what
opens a scope hides its names from whatever follows. -/
def sites : Expression → Scopes → List Site
  | .constant value p, s => [⟨.constant value p, s⟩]
  | .symbol name p, s => [⟨.symbol name p, s⟩]
  | .define name value p, s => ⟨.define name value p, s⟩ :: value.sites s
  | .function name params body p, s =>
      ⟨.function name params body p, s⟩ :: body.sites (s.call params)
  | .bind name bound body p, s =>
      ⟨.bind name bound body p, s⟩ ::
        (bound.sites s ++ body.sites ((s.after bound).enter.declare name))
  | .branch condition yes no p, s =>
      ⟨.branch condition yes no p, s⟩ ::
        (condition.sites s ++ yes.sites (s.after condition) ++
          no.sites ((s.after condition).after yes))
  | .block body p, s => ⟨.block body p, s⟩ :: sitesAll body s.enter
  | .cond clauses p, s => ⟨.cond clauses p, s⟩ :: sitesClauses clauses s
  | .call name args p, s => ⟨.call name args p, s⟩ :: sitesAll args s
  | .compose first stages p, s => ⟨.compose first stages p, s⟩ :: first.sites s

def sitesAll : List Expression → Scopes → List Site
  | [], _ => []
  | e :: rest, s => e.sites s ++ sitesAll rest (s.after e)

def sitesClauses : List (Expression × Expression) → Scopes → List Site
  | [], _ => []
  | (test, consequent) :: rest, s =>
      test.sites s ++ consequent.sites (s.after test).enter ++ sitesClauses rest (s.after test)

end

end Expression

open Expression

structure Definition.Compatible (defs : List Definition) : Prop where
  distinct : (defs.map Definition.name).Nodup
  builtin : ∀ d ∈ defs, ∀ b ∈ Builtin.all, b.name ≠ d.name
  few : defs.length ≤ 65536

instance (defs : List Definition) : Decidable (Definition.Compatible defs) :=
  decidable_of_iff ((defs.map Definition.name).Nodup ∧
      (∀ d ∈ defs, ∀ b ∈ Builtin.all, b.name ≠ d.name) ∧ defs.length ≤ 65536)
    ⟨fun ⟨a, b, c⟩ => ⟨a, b, c⟩, fun ⟨a, b, c⟩ => ⟨a, b, c⟩⟩

structure WellScoped (forms : List Expression) : Prop where
  functions : Definition.Compatible (definitions forms)
  sites : ∀ site ∈ sitesAll forms .top, site.Fits (definitions forms)

instance (forms : List Expression) : Decidable (WellScoped forms) :=
  decidable_of_iff (Definition.Compatible (definitions forms) ∧
    ∀ site ∈ sitesAll forms .top, site.Fits (definitions forms))
    ⟨fun ⟨a, b⟩ => ⟨a, b⟩, fun ⟨a, b⟩ => ⟨a, b⟩⟩

end LispMachine
