import LispMachine.Proofs.Grammar.Reading

set_option autoImplicit false

namespace LispMachine

namespace Parser

section Refusals

variable {α : Type} {s : State} {t : Token}

abbrev Syntactic (x : Except Diagnostic α) : Prop := FailsWith (·.cause.kind = .syntactic) x

theorem Syntactic.fault (fault : SyntaxFault) (p : Position) :
    Syntactic (Diagnostic.syntactic fault p : Except Diagnostic α) := .error rfl

theorem Form.close_syntactic (form : Form) (opened head : Position) (items : List Expression) :
    Syntactic (form.close opened head items) := by
  unfold Form.close
  split
  case h_10 | h_11 =>
    split
    · exact .ok _
    · exact .fault _ _
  all_goals first | exact .ok _ | exact .fault _ _

theorem literal_syntactic (t : Token) : Syntactic (literal t) := by
  unfold literal
  split <;> first | exact .ok _ | exact .fault _ _

theorem startExpression_syntactic : Syntactic (startExpression s t) := by
  unfold startExpression
  split
  case h_2 | h_3 | h_4 =>
    intro d failed
    cases found : literal t with
    | ok e => simp [found, Except.map] at failed
    | error e =>
        simp only [found, Except.map] at failed
        cases failed
        exact literal_syntactic t d found
  all_goals first | exact .ok _ | exact .fault _ _

theorem itemOrClose_syntactic : Syntactic (itemOrClose s t) := by
  unfold itemOrClose
  split
  next => exact startExpression_syntactic
  next =>
    split
    · exact .fault _ _
    · exact startExpression_syntactic
  next =>
    split
    · exact (Form.close_syntactic _ _ _ _).bind fun _ _ => .ok _
    · exact .fault _ _
    · exact .fault _ _
    · exact startExpression_syntactic

theorem formHead_syntactic {opened : Position} : Syntactic (formHead s opened t) := by
  unfold formHead
  split
  · exact .fault _ _
  · split
    · exact .fault _ _
    · split <;> first | exact .ok _ | exact .fault _ _

theorem boundName_syntactic {binder : Binder} {opened head : Position} :
    Syntactic (boundName s binder opened head t) := by
  unfold boundName
  split
  · cases binder <;> exact .ok _
  all_goals exact .fault _ _

theorem parameter_syntactic {name : String} {opened head bracket : Position} {params : List String} :
    Syntactic (parameter s name opened head bracket params t) := by
  unfold parameter
  split
  case h_1 | h_2 => split <;> first | exact .ok _ | exact .fault _ _
  all_goals exact .fault _ _

theorem stage_syntactic {first : Expression} {opened head : Position} {stages : List Stage} :
    Syntactic (stage s first opened head stages t) := by
  unfold stage
  split
  case h_1 => split <;> first | exact .ok _ | exact .fault _ _
  all_goals first | exact .ok _ | exact .fault _ _

theorem step_syntactic (s : State) (t : Token) : Syntactic (step s t) := by
  unfold step
  split
  next => exact itemOrClose_syntactic
  next => exact formHead_syntactic
  next => exact boundName_syntactic
  next =>
    unfold listStart
    split <;> first | exact .ok _ | exact .fault _ _
  next => exact parameter_syntactic
  next => exact stage_syntactic
  next =>
    unfold stageName
    split <;> first | exact .ok _ | exact .fault _ _
  next =>
    unfold stageClose
    split <;> first | exact .ok _ | exact .fault _ _

theorem parseTokens_syntactic (tokens : List Token) : Syntactic (parseTokens tokens) := by
  refine (FailsWith.foldlM step_syntactic).bind fun s _ => FailsWith.bind ?_ fun forms _ => .ok _
  unfold finish
  split
  · exact .ok _
  · exact (step_syntactic _ _).bind fun _ _ => .ok _

end Refusals

theorem parseTokens_of_derives {tokens : List Token} {program : Expression}
    (derives : DerivesProgram (body tokens) program) : parseTokens tokens = .ok program := by
  cases derives with
  | @block forms derives admitted =>
  have run : Consumes initial (body tokens) ⟨forms.reverse ++ [], [], .expression⟩ :=
    derives.consumed admitted
  refine bind_ok.mpr ⟨_, run, bind_ok.mpr ⟨forms, ?_, rfl⟩⟩
  simp [finish, State.isComplete, pure, Except.pure]

end Parser

open Parser

/-- The parser reads the tokens before the first end token, all if there is none. It accepts them if and
only if they spell a program, which is the one it returns; other tokens are refused as a fault of
syntax. -/
theorem parseTokens_iff_derives (tokens : List Token) :
    (∀ program, parseTokens tokens = .ok program ↔
      DerivesProgram (tokens.takeWhile (·.lexeme ≠ .eof)) program) ∧
    ∀ d, parseTokens tokens = .error d → d.cause.kind = .syntactic :=
  ⟨fun _ => ⟨parseTokens_derives, parseTokens_of_derives⟩, parseTokens_syntactic tokens⟩

def composition : List Token :=
  [⟨.leftParen, "(", none, ⟨1, 1, 0⟩⟩, ⟨.compose, "->", none, ⟨1, 2, 1⟩⟩,
    ⟨.long, "1", some (.long 1), ⟨1, 5, 4⟩⟩, ⟨.leftParen, "(", none, ⟨1, 7, 6⟩⟩,
    ⟨.ident, "f", none, ⟨1, 8, 7⟩⟩, ⟨.rightParen, ")", none, ⟨1, 9, 8⟩⟩,
    ⟨.rightParen, ")", none, ⟨1, 10, 9⟩⟩, .eof ⟨1, 11, 10⟩, ⟨.rightBracket, "]", none, ⟨1, 12, 11⟩⟩]

theorem composition_derived :
    DerivesProgram (composition.takeWhile (·.lexeme ≠ .eof))
      (.block [.compose (.constant (.datum (.long 1)) ⟨1, 5, 4⟩) [⟨"f", ⟨1, 8, 7⟩⟩] ⟨1, 1, 0⟩] ⟨1, 1, 0⟩) ∧
    ∃ d, parseTokens composition.tail = .error d ∧ d.cause.kind = .syntactic := by
  refine ⟨((parseTokens_iff_derives composition).1 _).mp rfl, _, rfl, ?_⟩
  exact (parseTokens_iff_derives composition.tail).2 _ rfl

end LispMachine
