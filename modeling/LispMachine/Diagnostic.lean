import LispMachine.Code.Opcode
import LispMachine.Expression.Printer
import LispMachine.Token

set_option autoImplicit false

namespace LispMachine

inductive ErrorKind
  | lexical
  | syntactic
  | unresolved
  | arity
  | invariant
  deriving DecidableEq

def ErrorKind.name : ErrorKind → String
  | .lexical => "LexicalError"
  | .syntactic => "SyntaxError"
  | .unresolved => "UnresolvedNameError"
  | .arity => "ArityError"
  | .invariant => "CompileInvariantError"

inductive LexicalFault
  | unterminatedString
  | invalidEscape (c : Char)
  | integerTooLarge (text : String)
  deriving DecidableEq

inductive SyntaxFault
  | unexpectedEnd
  | expected (what : String) (found : Token)
  | malformedLiteral (found : Token)
  | unexpectedClosing (found : Token)
  | outsideParameters (found : Token)
  | unknownToken (found : Token)
  | keywordOutsideHead (found : Token)
  | nestedFunction
  | tooDeep (limit : Nat)
  | emptyCall
  | mismatched (closer : Char) (opened : Position) (found : Token)
  | defineShape (values : Nat)
  | functionShape (bodies : Nat)
  | bindShape (items : Nat)
  | branchShape (items : Nat)
  | oddClauses
  | noInitialValue
  | noStage
  | stageArguments (callee : String)
  | duplicateParameter (name : String)
  | tooManyParameters (name : String)
  | tooManyArguments (callee : String)
  | builtinRedefined (name : String)
  | duplicateFunction (name : String)
  | tooManyFunctions

inductive InvariantFault
  | tooManyLocals
  | poolOverflow
  | bodyTooLarge
  | stackUnderflow (method : String) (opcode : Opcode) (needs depth : Nat)
  | returnDepth (method : String) (depth : Nat)
  | stackTooDeep (method : String)
  | notABranch (index : Nat)
  | unbalanced (method : String) (expected depth : Nat)
  | noBinding (form : Expression)
  | noCallee
  | defineOfFunction
  | functionNotFunction
  | bindNotLocal
  | tooManyParameters
  | tooManyArguments
  | functionOutOfRange (index : UInt16)
  | noBody (name : String)

inductive Cause
  | lexical (fault : LexicalFault)
  | syntactic (fault : SyntaxFault)
  | unresolved (name : String)
  | notAFunction (name : String)
  | arity (name : String) (expected got : Nat)
  | invariant (fault : InvariantFault)
  | stated (kind : ErrorKind) (message : String) (identifier : Option String)

def maxArity : Nat := 255

def LexicalFault.message : LexicalFault → String
  | .unterminatedString => "Unterminated string"
  | .invalidEscape c => s!"Invalid escape sequence '\\{c}' in string"
  | .integerTooLarge text => s!"Integer literal '{text}' does not fit in 64 bits"

def SyntaxFault.message : SyntaxFault → String
  | .unexpectedEnd => "Unexpected end of input"
  | .expected what found => s!"Expected {what}, got {found.describe}"
  | .malformedLiteral found => s!"Malformed literal {found.describe}"
  | .unexpectedClosing found => s!"Unexpected closing {found.describe}"
  | .outsideParameters found => s!"Unexpected {found.describe} outside a parameter list"
  | .unknownToken found => s!"Unknown token {found.describe}"
  | .keywordOutsideHead found => s!"Keyword {found.describe} must start a form"
  | .nestedFunction => "'defn' is only allowed at the top level"
  | .tooDeep limit => s!"Forms nested more than {limit} levels deep"
  | .emptyCall => "Empty call '()'"
  | .mismatched closer opened found =>
      s!"Mismatched delimiter: expected '{closer}' to close the form opened at {opened.text}, " ++
        s!"got {found.describe}"
  | .defineShape values => s!"'def' requires a name and one value, got {values} values"
  | .functionShape bodies => s!"'defn' requires exactly one body expression, got {bodies}"
  | .bindShape items => s!"'let' requires a name, a binding and a body, got {items} expressions"
  | .branchShape items => s!"'if' requires exactly 3 expressions, got {items}"
  | .oddClauses => "'cond' requires test/consequent pairs, got an odd number of expressions"
  | .noInitialValue => "'->' requires an initial value"
  | .noStage => "'->' requires at least one function step"
  | .stageArguments callee => s!"'->' step '({callee} ...)' cannot take explicit arguments"
  | .duplicateParameter name => s!"Duplicate parameter '{name}'"
  | .tooManyParameters name => s!"'{name}' has more than {maxArity} parameters"
  | .tooManyArguments callee => s!"Call to '{callee}' has more than {maxArity} arguments"
  | .builtinRedefined name => s!"Cannot redefine builtin '{name}'"
  | .duplicateFunction name => s!"Duplicate function definition '{name}'"
  | .tooManyFunctions => "Too many functions in one unit"

def InvariantFault.message : InvariantFault → String
  | .tooManyLocals => "Too many local variables in one method"
  | .poolOverflow => "Constant pool overflow"
  | .bodyTooLarge => "Method body too large"
  | .stackUnderflow method opcode needs depth =>
      s!"Operand stack underflow in '{method}': {opcode.listing} needs {needs} values, " ++
        s!"depth is {depth}"
  | .returnDepth method depth => s!"Return from '{method}' with operand stack depth {depth}"
  | .stackTooDeep method => s!"Operand stack too deep in '{method}': more than 65535 values"
  | .notABranch index => s!"Instruction {index} is not a branch"
  | .unbalanced method expected depth =>
      s!"Unbalanced branches in '{method}': depths {expected} and {depth}"
  | .noBinding form => "No binding recorded for `" ++ form.source ++ "`"
  | .noCallee => "No call target recorded"
  | .defineOfFunction => "'def' bound to a function"
  | .functionNotFunction => "'defn' not bound to a function"
  | .bindNotLocal => "'let' not bound to a local"
  | .tooManyParameters => "Too many parameters"
  | .tooManyArguments => "Too many arguments"
  | .functionOutOfRange index => s!"Function index {index} out of range"
  | .noBody name => s!"No body generated for function '{name}'"

namespace Cause

def kind : Cause → ErrorKind
  | .lexical _ => .lexical
  | .syntactic _ => .syntactic
  | .unresolved _ | .notAFunction _ => .unresolved
  | .arity _ _ _ => .arity
  | .invariant _ => .invariant
  | .stated kind _ _ => kind

def message : Cause → String
  | .lexical fault => fault.message
  | .syntactic fault => fault.message
  | .unresolved name => s!"Unresolved name '{name}'"
  | .notAFunction name => s!"'{name}' is not a function"
  | .arity name expected got =>
      let plural := if expected = 1 then "" else "s"
      s!"'{name}' expects {expected} argument{plural}, got {got}"
  | .invariant fault => fault.message
  | .stated _ message _ => message

def identifier : Cause → Option String
  | .unresolved name | .notAFunction name | .arity name _ _ => some name
  | .stated _ _ identifier => identifier
  | _ => none

end Cause

structure Diagnostic where
  cause : Cause
  position : Position

namespace Diagnostic

def lexical {α : Type} (fault : LexicalFault) (p : Position) : Except Diagnostic α :=
  .error ⟨.lexical fault, p⟩

def syntactic {α : Type} (fault : SyntaxFault) (p : Position) : Except Diagnostic α :=
  .error ⟨.syntactic fault, p⟩

def invariant {α : Type} (fault : InvariantFault) (p : Position) : Except Diagnostic α :=
  .error ⟨.invariant fault, p⟩

def text (d : Diagnostic) : String :=
  s!"{d.cause.kind.name} at {d.position.text}: {d.cause.message}"

end Diagnostic

end LispMachine
