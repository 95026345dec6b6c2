import LispMachine.Expression.Parser
import LispMachine.Generator

set_option autoImplicit false

namespace LispMachine

def compileProgram (name : String) (program : Expression) : Except Diagnostic CompiledUnit := do
  let resolution ← resolve program
  generate resolution name program

def compile (name text : String) : Except Diagnostic CompiledUnit := do
  compileProgram name (← parse text)

end LispMachine
