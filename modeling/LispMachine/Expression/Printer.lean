import LispMachine.Expression

set_option autoImplicit false

namespace LispMachine

def Datum.sourceChar (c : Char) : String :=
  match c with
  | '\n' => "\\n"
  | '\t' => "\\t"
  | '\r' => "\\r"
  | '"' => "\\\""
  | '\\' => "\\\\"
  | c => c.toString

def Datum.source : Datum → String
  | .long n => toString n.toInt
  | .double d => d.text
  | .str s => s.foldl (fun out c => out ++ sourceChar c) "\"" ++ "\""

def Literal.source : Literal → String
  | .nil => "nil"
  | .bool true => "true"
  | .bool false => "false"
  | .datum d => d.source

namespace Expression

mutual

def sourceAfter (out : String) : Expression → String
  | .constant value _ => out ++ value.source
  | .symbol name _ => out ++ name
  | .define name value _ => sourceAfter (out ++ "(def " ++ name ++ " ") value ++ ")"
  | .function name params body _ =>
      sourceAfter (out ++ "(defn " ++ name ++ " [" ++ " ".intercalate params ++ "] ") body ++ ")"
  | .bind name bound body _ =>
      sourceAfter (sourceAfter (out ++ "(let " ++ name ++ " ") bound ++ " ") body ++ ")"
  | .branch condition yes no _ =>
      sourceAfter (sourceAfter (sourceAfter (out ++ "(if ") condition ++ " ") yes ++ " ") no ++ ")"
  | .block body _ => sourcesAfter (out ++ "(do") body ++ ")"
  | .cond clauses _ => clausesAfter (out ++ "(cond") clauses ++ ")"
  | .call callee args _ => sourcesAfter (out ++ "(" ++ callee) args ++ ")"
  | .compose first stages _ =>
      stages.foldl (fun out s => out ++ " " ++ s.callee) (sourceAfter (out ++ "(-> ") first) ++ ")"

def sourcesAfter (out : String) : List Expression → String
  | [] => out
  | e :: rest => sourcesAfter (sourceAfter (out ++ " ") e) rest

def clausesAfter (out : String) : List (Expression × Expression) → String
  | [] => out
  | (test, consequent) :: rest =>
      clausesAfter (sourceAfter (sourceAfter (out ++ " ") test ++ " ") consequent) rest

end

def source (e : Expression) : String := sourceAfter "" e

end Expression

end LispMachine
