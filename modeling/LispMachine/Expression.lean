import LispMachine.Datum
import LispMachine.Position

set_option autoImplicit false

namespace LispMachine

inductive Literal
  | nil
  | bool (b : Bool)
  | datum (d : Datum)
  deriving DecidableEq

structure Stage where
  callee : String
  position : Position
  deriving DecidableEq

/-- Programs as trees. A form stands where its opening parenthesis stands. -/
inductive Expression
  | constant (value : Literal) (position : Position)
  | symbol (name : String) (position : Position)
  | define (name : String) (value : Expression) (position : Position)
  | function (name : String) (params : List String) (body : Expression) (position : Position)
  | bind (name : String) (bound body : Expression) (position : Position)
  | branch (condition yes no : Expression) (position : Position)
  | block (body : List Expression) (position : Position)
  | cond (clauses : List (Expression × Expression)) (position : Position)
  | call (callee : String) (args : List Expression) (position : Position)
  | compose (first : Expression) (stages : List Stage) (position : Position)

namespace Expression

instance : Inhabited Expression := ⟨.block [] .start⟩

def position : Expression → Position
  | .constant _ p | .symbol _ p | .define _ _ p | .function _ _ _ p | .bind _ _ _ p
  | .branch _ _ _ p | .block _ p | .cond _ p | .call _ _ p | .compose _ _ p => p

def id (e : Expression) : Nat := e.position.offset

end Expression

def Stage.id (s : Stage) : Nat := s.position.offset

end LispMachine
