import LispMachine.Diagnostic
import LispMachine.Scope

set_option autoImplicit false

namespace LispMachine

inductive Callee
  | function (index : UInt16)
  | builtin (builtin : Builtin)
  deriving DecidableEq

structure Signature where
  name : String
  arity : UInt8
  deriving DecidableEq

structure Resolution where
  bindings : Std.HashMap Nat Binding
  callees : Std.HashMap Nat Callee
  functions : Array Signature

namespace Resolution

def empty : Resolution := ⟨∅, ∅, #[]⟩

structure Table where
  signatures : Array Signature
  index : Std.HashMap String UInt16
  nodes : Std.HashMap Nat UInt16

namespace Table

def empty : Table := ⟨#[], ∅, ∅⟩

def limit : Nat := UInt16.size

def addFunction (table : Table) (name : String) (params : List String) (p : Position) :
    Except Diagnostic Table :=
  match table with
  | ⟨signatures, index, nodes⟩ =>
      if (Builtin.ofName? name).isSome then Diagnostic.syntactic (.builtinRedefined name) p
      else if index.contains name then Diagnostic.syntactic (.duplicateFunction name) p
      else if limit ≤ signatures.size then Diagnostic.syntactic .tooManyFunctions p
      else if maxArity < params.length then Diagnostic.syntactic (.tooManyParameters name) p
      else
        let number := UInt16.ofNat signatures.size
        .ok
          { signatures := signatures.push ⟨name, UInt8.ofNat params.length⟩
            index := index.insert name number
            nodes := nodes.insert p.offset number }

def add (table : Table) : Expression → Except Diagnostic Table
  | .function name params _ p => table.addFunction name params p
  | _ => .ok table

def ofForms (forms : List Expression) : Except Diagnostic Table := forms.foldlM add empty

end Table

structure State where
  env : Environment
  bindings : Std.HashMap Nat Binding
  callees : Std.HashMap Nat Callee

namespace State

def initial : State := ⟨.global, ∅, ∅⟩

def push (s : State) (kind : ScopeKind) : State := { s with env := s.env.push kind }

def pop (s : State) : State := { s with env := s.env.pop }

def bind (s : State) (id : Nat) (binding : Binding) : State :=
  match s with
  | ⟨env, bindings, callees⟩ => ⟨env, bindings.insert id binding, callees⟩

def target (s : State) (id : Nat) (callee : Callee) : State :=
  match s with
  | ⟨env, bindings, callees⟩ => ⟨env, bindings, callees.insert id callee⟩

def declare (s : State) (name : String) (p : Position) : Except Diagnostic (UInt16 × State) :=
  match s with
  | ⟨env, bindings, callees⟩ =>
      match env.declare name with
      | (some index, env) => .ok (index, ⟨env, bindings, callees⟩)
      | (none, _) => Diagnostic.invariant .tooManyLocals p

def define (s : State) (name : String) (p : Position) : Except Diagnostic (Binding × State) :=
  match s with
  | ⟨env, bindings, callees⟩ =>
      match env.define name with
      | (some binding, env) => .ok (binding, ⟨env, bindings, callees⟩)
      | (none, _) => Diagnostic.invariant .tooManyLocals p

def declareAll (s : State) (p : Position) : List String → Except Diagnostic State
  | [] => .ok s
  | name :: rest => do
      let (_, s) ← s.declare name p
      s.declareAll p rest

end State

def expectArity (name : String) (expected got : Nat) (p : Position) (callee : Callee) :
    Except Diagnostic Callee :=
  if got = expected then .ok callee else .error ⟨.arity name expected got, p⟩

-- Builtins come before functions, and nothing else can be called.
def resolveCallee (table : Table) (env : Environment) (name : String) (argc : Nat) (p : Position) :
    Except Diagnostic Callee :=
  match Builtin.ofName? name with
  | some builtin => expectArity name builtin.arity argc p (.builtin builtin)
  | none =>
      match table.index[name]? with
      | some index =>
          let arity := (table.signatures[index.toNat]?.map (·.arity.toNat)).getD 0
          expectArity name arity argc p (.function index)
      | none =>
          match env.lookup name with
          | some _ => .error ⟨.notAFunction name, p⟩
          | none => .error ⟨.unresolved name, p⟩

def resolveName (table : Table) (env : Environment) (name : String) : Option Binding :=
  match env.lookup name with
  | some binding => some binding
  | none => table.index[name]?.map .function

def resolveStages (table : Table) : List Stage → State → Except Diagnostic State
  | [], s => .ok s
  | stage :: rest, s => do
      let callee ← resolveCallee table s.env stage.callee 1 stage.position
      resolveStages table rest (s.target stage.id callee)

mutual

def visit (table : Table) : Expression → State → Except Diagnostic State
  | .constant _ _, s => .ok s
  | .symbol name p, s =>
      match resolveName table s.env name with
      | some binding => .ok (s.bind p.offset binding)
      | none => .error ⟨.unresolved name, p⟩
  | .define name value p, s => do
      let s ← visit table value s
      let (binding, s) ← s.define name p
      return s.bind p.offset binding
  | .function _ params body p, s =>
      match table.nodes[p.offset]? with
      | none => Diagnostic.syntactic .nestedFunction p
      | some index => do
          let s ← ((s.bind p.offset (.function index)).push .function).declareAll p params
          let s ← visit table body s
          return s.pop
  | .bind name bound body p, s => do
      let s ← visit table bound s
      let (index, s) ← (s.push .block).declare name p
      let s ← visit table body (s.bind p.offset (.slot index))
      return s.pop
  | .branch condition yes no _, s => do
      let s ← visit table condition s
      let s ← visit table yes s
      visit table no s
  | .block body _, s => do
      let s ← visitAll table body (s.push .block)
      return s.pop
  | .cond clauses _, s => visitClauses table clauses s
  | .call name args p, s => do
      let callee ← resolveCallee table s.env name args.length p
      visitAll table args (s.target p.offset callee)
  | .compose first stages _, s => do
      let s ← visit table first s
      resolveStages table stages s

def visitAll (table : Table) : List Expression → State → Except Diagnostic State
  | [], s => .ok s
  | e :: rest, s => do
      let s ← visit table e s
      visitAll table rest s

-- A consequent has a scope of its own, a test has none.
def visitClauses (table : Table) :
    List (Expression × Expression) → State → Except Diagnostic State
  | [], s => .ok s
  | (test, consequent) :: rest, s => do
      let s ← visit table test s
      let s ← visit table consequent (s.push .block)
      visitClauses table rest s.pop

end

end Resolution

def Expression.topLevel : Expression → List Expression
  | .block body _ => body
  | e => [e]

-- Resolve a program: first its functions, so that order does not matter among them, then every
-- name in order.
def resolve (program : Expression) : Except Diagnostic Resolution := do
  let table ← Resolution.Table.ofForms program.topLevel
  let s ← Resolution.visitAll table program.topLevel .initial
  return ⟨s.bindings, s.callees, table.signatures⟩

end LispMachine
