import LispMachine.Token.Lexer

set_option autoImplicit false

namespace LispMachine

def maxNesting : Nat := 128

namespace Parser

inductive Form
  | define (name : String)
  | function (name : String) (params : List String)
  | bind (name : String)
  | branch
  | block
  | cond
  | call (callee : String)

/-- An open form that waits for an expression. Lists hold their last item first. -/
inductive Hole
  | item (form : Form) (opened head : Position) (items : List Expression)
  | initial (opened head : Position)

inductive Binder
  | define
  | function
  | bind

inductive Focus
  | expression
  | head (opened : Position)
  | name (binder : Binder) (opened head : Position)
  | parameterList (name : String) (opened head : Position)
  | parameters (name : String) (opened head bracket : Position) (params : List String)
  | stages (first : Expression) (opened head : Position) (stages : List Stage)
  | stageHead (first : Expression) (opened head : Position) (stages : List Stage)
  | stageEnd (first : Expression) (opened head : Position) (stages : List Stage) (stage : Stage)

structure State where
  forms : List Expression
  outer : List Hole
  focus : Focus

def initial : State := ⟨[], [], .expression⟩

namespace State

def deliver (s : State) (e : Expression) : State :=
  match s.outer with
  | [] => { s with forms := e :: s.forms, focus := .expression }
  | .item form opened head items :: outer =>
      { s with outer := .item form opened head (e :: items) :: outer, focus := .expression }
  | .initial opened head :: outer =>
      { s with outer, focus := .stages e opened head [] }

def enter (s : State) (hole : Hole) : State :=
  { s with outer := hole :: s.outer, focus := .expression }

end State

def pairs : List Expression → List (Expression × Expression)
  | test :: consequent :: rest => (test, consequent) :: pairs rest
  | _ => []

def Form.close (form : Form) (opened head : Position) (items : List Expression) :
    Except Diagnostic Expression :=
  match form, items with
  | .define name, [value] => .ok (.define name value opened)
  | .define _, items => Diagnostic.syntactic (.defineShape items.length) head
  | .function name params, [body] => .ok (.function name params body opened)
  | .function _ _, items => Diagnostic.syntactic (.functionShape items.length) head
  | .bind name, [bound, body] => .ok (.bind name bound body opened)
  | .bind _, items => Diagnostic.syntactic (.bindShape items.length) head
  | .branch, [condition, yes, no] => .ok (.branch condition yes no opened)
  | .branch, items => Diagnostic.syntactic (.branchShape items.length) head
  | .block, items => .ok (.block items opened)
  | .cond, items =>
      if items.length % 2 = 0 then .ok (.cond (pairs items) opened)
      else Diagnostic.syntactic .oddClauses head
  | .call callee, items =>
      if items.length ≤ maxArity then .ok (.call callee items opened)
      else Diagnostic.syntactic (.tooManyArguments callee) head

def literal (t : Token) : Except Diagnostic Expression :=
  match t.lexeme, t.literal with
  | .long, some (.long n) => .ok (.constant (.datum (.long n)) t.position)
  | .double, some (.double d) => .ok (.constant (.datum (.double d)) t.position)
  | .str, some (.str s) => .ok (.constant (.datum (.str s)) t.position)
  | _, _ => Diagnostic.syntactic (.malformedLiteral t) t.position

def startExpression (s : State) (t : Token) : Except Diagnostic State :=
  match t.lexeme with
  | .leftParen => .ok { s with focus := .head t.position }
  | .long | .double | .str => (literal t).map s.deliver
  | .yes => .ok (s.deliver (.constant (.bool true) t.position))
  | .no => .ok (s.deliver (.constant (.bool false) t.position))
  | .nil => .ok (s.deliver (.constant .nil t.position))
  | .ident => .ok (s.deliver (.symbol t.text t.position))
  | .eof => Diagnostic.syntactic .unexpectedEnd t.position
  | .rightParen | .rightBracket | .rightBrace =>
      Diagnostic.syntactic (.unexpectedClosing t) t.position
  | .leftBracket | .leftBrace => Diagnostic.syntactic (.outsideParameters t) t.position
  | .unknown => Diagnostic.syntactic (.unknownToken t) t.position
  | .define | .function | .bind | .branch | .block | .cond | .compose =>
      Diagnostic.syntactic (.keywordOutsideHead t) t.position

def itemOrClose (s : State) (t : Token) : Except Diagnostic State :=
  match s.outer with
  | [] => startExpression s t
  | .initial _ head :: _ =>
      match t.lexeme with
      | .rightParen => Diagnostic.syntactic .noInitialValue head
      | _ => startExpression s t
  | .item form opened head items :: outer =>
      match t.lexeme with
      | .rightParen => do
          let e ← form.close opened head items.reverse
          return { s with outer }.deliver e
      | .rightBracket | .rightBrace =>
          Diagnostic.syntactic (.mismatched ')' opened t) t.position
      | _ => startExpression s t

def formHead (s : State) (opened : Position) (t : Token) : Except Diagnostic State :=
  if t.lexeme = .function && !s.outer.isEmpty then
    Diagnostic.syntactic .nestedFunction t.position
  else if maxNesting ≤ s.outer.length then
    Diagnostic.syntactic (.tooDeep maxNesting) opened
  else
    match t.lexeme with
    | .define => .ok { s with focus := .name .define opened t.position }
    | .function => .ok { s with focus := .name .function opened t.position }
    | .bind => .ok { s with focus := .name .bind opened t.position }
    | .branch => .ok (s.enter (.item .branch opened t.position []))
    | .block => .ok (s.enter (.item .block opened t.position []))
    | .cond => .ok (s.enter (.item .cond opened t.position []))
    | .compose => .ok (s.enter (.initial opened t.position))
    | .ident => .ok (s.enter (.item (.call t.text) opened t.position []))
    | .rightParen => Diagnostic.syntactic .emptyCall opened
    | .eof => Diagnostic.syntactic .unexpectedEnd t.position
    | _ => Diagnostic.syntactic (.expected "a function name" t) t.position

def boundName (s : State) (binder : Binder) (opened head : Position) (t : Token) :
    Except Diagnostic State :=
  match t.lexeme with
  | .ident =>
      match binder with
      | .define => .ok (s.enter (.item (.define t.text) opened head []))
      | .function => .ok { s with focus := .parameterList t.text opened head }
      | .bind => .ok (s.enter (.item (.bind t.text) opened head []))
  | .eof => Diagnostic.syntactic .unexpectedEnd t.position
  | _ => Diagnostic.syntactic (.expected "a name" t) t.position

def listStart (s : State) (name : String) (opened head : Position) (t : Token) :
    Except Diagnostic State :=
  match t.lexeme with
  | .leftBracket => .ok { s with focus := .parameters name opened head t.position [] }
  | .eof => Diagnostic.syntactic .unexpectedEnd t.position
  | _ => Diagnostic.syntactic (.expected "'[' to start the parameter list" t) t.position

def parameter (s : State) (name : String) (opened head bracket : Position) (params : List String)
    (t : Token) : Except Diagnostic State :=
  match t.lexeme with
  | .ident =>
      if params.contains t.text then
        Diagnostic.syntactic (.duplicateParameter t.text) t.position
      else .ok { s with focus := .parameters name opened head bracket (t.text :: params) }
  | .rightBracket =>
      if params.length ≤ maxArity then
        .ok (s.enter (.item (.function name params.reverse) opened head []))
      else Diagnostic.syntactic (.tooManyParameters name) head
  | .rightParen | .rightBrace => Diagnostic.syntactic (.mismatched ']' bracket t) t.position
  | .eof => Diagnostic.syntactic .unexpectedEnd t.position
  | _ => Diagnostic.syntactic (.expected "a parameter name" t) t.position

def stage (s : State) (first : Expression) (opened head : Position) (stages : List Stage)
    (t : Token) : Except Diagnostic State :=
  match t.lexeme with
  | .rightParen =>
      if stages.isEmpty then Diagnostic.syntactic .noStage head
      else .ok (s.deliver (.compose first stages.reverse opened))
  | .ident =>
      .ok { s with focus := .stages first opened head (⟨t.text, t.position⟩ :: stages) }
  | .leftParen => .ok { s with focus := .stageHead first opened head stages }
  | .rightBracket | .rightBrace => Diagnostic.syntactic (.mismatched ')' opened t) t.position
  | .eof => Diagnostic.syntactic .unexpectedEnd t.position
  | _ => Diagnostic.syntactic (.expected "a function name in '->' step" t) t.position

def stageName (s : State) (first : Expression) (opened head : Position) (stages : List Stage)
    (t : Token) : Except Diagnostic State :=
  match t.lexeme with
  | .ident => .ok { s with focus := .stageEnd first opened head stages ⟨t.text, t.position⟩ }
  | _ => Diagnostic.syntactic (.expected "a function name in '->' step" t) t.position

def stageClose (s : State) (first : Expression) (opened head : Position) (stages : List Stage)
    (stage : Stage) (t : Token) : Except Diagnostic State :=
  match t.lexeme with
  | .rightParen => .ok { s with focus := .stages first opened head (stage :: stages) }
  | _ => Diagnostic.syntactic (.stageArguments stage.callee) t.position

def step (s : State) (t : Token) : Except Diagnostic State :=
  match s.focus with
  | .expression => itemOrClose s t
  | .head opened => formHead s opened t
  | .name binder opened head => boundName s binder opened head t
  | .parameterList name opened head => listStart s name opened head t
  | .parameters name opened head bracket params => parameter s name opened head bracket params t
  | .stages first opened head stages => stage s first opened head stages t
  | .stageHead first opened head stages => stageName s first opened head stages t
  | .stageEnd first opened head stages found => stageClose s first opened head stages found t

def State.isComplete (s : State) : Bool :=
  match s.focus with
  | .expression => s.outer.isEmpty
  | _ => false

def finish (s : State) (eof : Token) : Except Diagnostic (List Expression) := do
  if s.isComplete then return s.forms.reverse
  else return (← step s eof).forms.reverse

def body (tokens : List Token) : List Token := tokens.takeWhile (·.lexeme ≠ .eof)

-- The first end token, or one made up at the last token.
def eofToken (tokens : List Token) : Token :=
  match tokens.find? (·.lexeme = .eof) with
  | some t => t
  | none => .eof ((tokens.getLast?.map Token.position).getD .start)

def parseTokens (tokens : List Token) : Except Diagnostic Expression := do
  let read := body tokens
  let s ← read.foldlM step initial
  let forms ← finish s (eofToken tokens)
  return .block forms ((read.head?.map Token.position).getD .start)

end Parser

def parse (text : String) : Except Diagnostic Expression := do
  Parser.parseTokens (← tokenize text)

end LispMachine
