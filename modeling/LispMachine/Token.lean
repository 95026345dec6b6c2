import LispMachine.Datum
import LispMachine.Position

set_option autoImplicit false

namespace LispMachine

inductive Lexeme
  | leftParen | rightParen
  | leftBracket | rightBracket
  | leftBrace | rightBrace
  | define | function | bind | branch | block | cond | compose
  | long | double | str
  | yes | no | nil
  | ident
  | eof
  | unknown
  deriving DecidableEq

namespace Lexeme

def isClosing : Lexeme → Bool
  | .rightParen | .rightBracket | .rightBrace => true
  | _ => false

def name : Lexeme → String
  | .leftParen => "LeftParen"
  | .rightParen => "RightParen"
  | .leftBracket => "LeftBracket"
  | .rightBracket => "RightBracket"
  | .leftBrace => "LeftBrace"
  | .rightBrace => "RightBrace"
  | .define => "Def"
  | .function => "Defn"
  | .bind => "Let"
  | .branch => "If"
  | .block => "Do"
  | .cond => "Cond"
  | .compose => "Compose"
  | .long => "Long"
  | .double => "Double"
  | .str => "Str"
  | .yes => "True"
  | .no => "False"
  | .nil => "Nil"
  | .ident => "Ident"
  | .eof => "Eof"
  | .unknown => "Unknown"

end Lexeme

structure Token where
  lexeme : Lexeme
  text : String
  literal : Option Datum
  position : Position
  deriving DecidableEq

namespace Token

def plain (lexeme : Lexeme) (text : String) (position : Position) : Token :=
  { lexeme, text, literal := none, position }

def eof (position : Position) : Token := plain .eof "" position

def describe (t : Token) : String :=
  match t.lexeme with
  | .eof => "end of input"
  | _ => s!"'{t.text}'"

def listing (t : Token) : String := s!"{t.lexeme.name} {t.describe} at {t.position.text}"

end Token

end LispMachine
