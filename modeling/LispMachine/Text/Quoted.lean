import LispMachine.Text.Visible

set_option autoImplicit false

namespace LispMachine.Text

/-- A character inside quotes: short escapes for the common controls, a braced code point in
hexadecimal for whatever does not show as itself. -/
def quotedChar (c : Char) : String :=
  match c with
  | '\x00' => "\\0"
  | '\t' => "\\t"
  | '\r' => "\\r"
  | '\n' => "\\n"
  | '\\' => "\\\\"
  | '"' => "\\\""
  | c =>
      if isVisible c then c.toString
      else "\\u\x7b" ++ String.ofList (Nat.toDigits 16 c.toNat) ++ "\x7d"

def quoted (text : String) : String :=
  text.foldl (fun out c => out ++ quotedChar c) "\"" ++ "\""

end LispMachine.Text
