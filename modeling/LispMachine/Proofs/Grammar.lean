import LispMachine.Expression.Parser

set_option autoImplicit false

namespace LispMachine

inductive Token.Spells : Token → Literal → Prop
  | long {t n} : t.lexeme = .long → t.literal = some (.long n) → Spells t (.datum (.long n))
  | double {t d} : t.lexeme = .double → t.literal = some (.double d) → Spells t (.datum (.double d))
  | str {t s} : t.lexeme = .str → t.literal = some (.str s) → Spells t (.datum (.str s))
  | yes {t} : t.lexeme = .yes → Spells t (.bool true)
  | no {t} : t.lexeme = .no → Spells t (.bool false)
  | nil {t} : t.lexeme = .nil → Spells t .nil

inductive DerivesStages : List Token → List Stage → Prop
  | nil : DerivesStages [] []
  | name {t tokens stages} : t.lexeme = .ident → DerivesStages tokens stages →
      DerivesStages (t :: tokens) (⟨t.text, t.position⟩ :: stages)
  | form {opened t closed tokens stages} : opened.lexeme = .leftParen → t.lexeme = .ident →
      closed.lexeme = .rightParen → DerivesStages tokens stages →
      DerivesStages (opened :: t :: closed :: tokens) (⟨t.text, t.position⟩ :: stages)

mutual

inductive Derives : List Token → Expression → Prop
  | literal {t value} : t.Spells value → Derives [t] (.constant value t.position)
  | symbol {t} : t.lexeme = .ident → Derives [t] (.symbol t.text t.position)
  | form {opened tokens closed e} : opened.lexeme = .leftParen → DerivesForm opened.position tokens e →
      closed.lexeme = .rightParen → Derives (opened :: (tokens ++ [closed])) e

inductive DerivesForm : Position → List Token → Expression → Prop
  | define {p head name tokens value} : head.lexeme = .define → name.lexeme = .ident →
      DerivesAll tokens [value] → DerivesForm p (head :: name :: tokens) (.define name.text value p)
  | function {p head name opened params closed tokens body} : head.lexeme = .function →
      name.lexeme = .ident → opened.lexeme = .leftBracket → (∀ t ∈ params, t.lexeme = .ident) →
      closed.lexeme = .rightBracket → DerivesAll tokens [body] →
      DerivesForm p (head :: name :: opened :: (params ++ closed :: tokens))
        (.function name.text (params.map Token.text) body p)
  | bind {p head name tokens bound body} : head.lexeme = .bind → name.lexeme = .ident →
      DerivesAll tokens [bound, body] →
      DerivesForm p (head :: name :: tokens) (.bind name.text bound body p)
  | branch {p head tokens condition yes no} : head.lexeme = .branch →
      DerivesAll tokens [condition, yes, no] →
      DerivesForm p (head :: tokens) (.branch condition yes no p)
  | block {p head tokens body} : head.lexeme = .block → DerivesAll tokens body →
      DerivesForm p (head :: tokens) (.block body p)
  | cond {p head tokens clauses} : head.lexeme = .cond →
      DerivesAll tokens (clauses.flatMap fun clause => [clause.1, clause.2]) →
      DerivesForm p (head :: tokens) (.cond clauses p)
  | call {p head tokens args} : head.lexeme = .ident → DerivesAll tokens args →
      DerivesForm p (head :: tokens) (.call head.text args p)
  | compose {p head tokens more first stages} : head.lexeme = .compose → Derives tokens first →
      DerivesStages more stages → stages ≠ [] →
      DerivesForm p (head :: (tokens ++ more)) (.compose first stages p)

inductive DerivesAll : List Token → List Expression → Prop
  | nil : DerivesAll [] []
  | cons {tokens more e rest} : Derives tokens e → DerivesAll more rest →
      DerivesAll (tokens ++ more) (e :: rest)

end

/-- The expression may stand inside `depth` forms: functions are defined outside all forms, forms do not
nest too deep, and neither parameters nor arguments are too many. -/
inductive Expression.Admitted : Expression → Nat → Prop
  | constant {value p depth} : Admitted (.constant value p) depth
  | symbol {name p depth} : Admitted (.symbol name p) depth
  | define {name value p depth} : depth < maxNesting → Admitted value (depth + 1) →
      Admitted (.define name value p) depth
  | function {name params body p} : params.Nodup → params.length ≤ maxArity → Admitted body 1 →
      Admitted (.function name params body p) 0
  | bind {name bound body p depth} : depth < maxNesting → Admitted bound (depth + 1) →
      Admitted body (depth + 1) → Admitted (.bind name bound body p) depth
  | branch {condition yes no p depth} : depth < maxNesting → Admitted condition (depth + 1) →
      Admitted yes (depth + 1) → Admitted no (depth + 1) → Admitted (.branch condition yes no p) depth
  | block {body p depth} : depth < maxNesting → (∀ e ∈ body, Admitted e (depth + 1)) →
      Admitted (.block body p) depth
  | cond {clauses p depth} : depth < maxNesting → (∀ clause ∈ clauses, Admitted clause.1 (depth + 1)) →
      (∀ clause ∈ clauses, Admitted clause.2 (depth + 1)) → Admitted (.cond clauses p) depth
  | call {name args p depth} : depth < maxNesting → args.length ≤ maxArity →
      (∀ e ∈ args, Admitted e (depth + 1)) → Admitted (.call name args p) depth
  | compose {first stages p depth} : depth < maxNesting → Admitted first (depth + 1) →
      Admitted (.compose first stages p) depth

inductive DerivesProgram : List Token → Expression → Prop
  | block {tokens forms} : DerivesAll tokens forms → (∀ e ∈ forms, e.Admitted 0) →
      DerivesProgram tokens (.block forms ((tokens.head?.map Token.position).getD .start))

end LispMachine
