import LispMachine.Proofs.Except
import LispMachine.Proofs.Grammar

set_option autoImplicit false

namespace LispMachine

namespace Parser

def Binder.lexeme : Binder → Lexeme
  | .define => .define
  | .function => .function
  | .bind => .bind

inductive Form.Headed : Form → List Token → Prop
  | define {head name} : head.lexeme = .define → name.lexeme = .ident →
      Headed (.define name.text) [head, name]
  | function {head name opened params closed} : head.lexeme = .function → name.lexeme = .ident →
      opened.lexeme = .leftBracket → (∀ t ∈ params, t.lexeme = .ident) → closed.lexeme = .rightBracket →
      Headed (.function name.text (params.map Token.text)) (head :: name :: opened :: (params ++ [closed]))
  | bind {head name} : head.lexeme = .bind → name.lexeme = .ident → Headed (.bind name.text) [head, name]
  | branch {head} : head.lexeme = .branch → Headed .branch [head]
  | block {head} : head.lexeme = .block → Headed .block [head]
  | cond {head} : head.lexeme = .cond → Headed .cond [head]
  | call {head} : head.lexeme = .ident → Headed (.call head.text) [head]

def Consumes (s : State) (tokens : List Token) (s' : State) : Prop := tokens.foldlM step s = .ok s'

namespace Consumes

variable {s s₁ s₂ : State} {t : Token} {tokens more : List Token}

theorem nil (s : State) : Consumes s [] s := rfl

theorem cons (first : step s t = .ok s₁) (rest : Consumes s₁ tokens s₂) : Consumes s (t :: tokens) s₂ := by
  rw [Consumes, List.foldlM_cons]
  exact bind_ok.mpr ⟨s₁, first, rest⟩

theorem append (first : Consumes s tokens s₁) (rest : Consumes s₁ more s₂) :
    Consumes s (tokens ++ more) s₂ := by
  rw [Consumes, List.foldlM_append]
  exact bind_ok.mpr ⟨s₁, first, rest⟩

end Consumes

variable {forms : List Expression} {outer : List Hole} {opened head : Position} {t : Token}

section Steps

variable {e : Expression}

-- Only a closing token ends the form around an expression.
theorem step_expression (starts : t.lexeme.isClosing = false) :
    step ⟨forms, outer, .expression⟩ t = startExpression ⟨forms, outer, .expression⟩ t := by
  obtain ⟨lexeme, text, literal, position⟩ := t
  cases lexeme <;> cases starts
  all_goals
    match outer with
    | [] => rfl
    | .initial _ _ :: _ => rfl
    | .item _ _ _ _ :: _ => rfl

theorem step_open (opens : t.lexeme = .leftParen) :
    step ⟨forms, outer, .expression⟩ t = .ok ⟨forms, outer, .head t.position⟩ := by
  rw [step_expression (by rw [opens]; rfl)]
  simp only [startExpression, opens]

theorem step_literal {value : Literal} (spells : t.Spells value) :
    step ⟨forms, outer, .expression⟩ t =
      .ok (State.deliver ⟨forms, outer, .expression⟩ (.constant value t.position)) := by
  cases spells with
  | long kind found | double kind found | str kind found =>
      rw [step_expression (by rw [kind]; rfl)]
      simp only [startExpression, kind, literal, found, Except.map]
  | yes kind | no kind | nil kind =>
      rw [step_expression (by rw [kind]; rfl)]
      simp only [startExpression, kind]

theorem step_symbol (named : t.lexeme = .ident) :
    step ⟨forms, outer, .expression⟩ t =
      .ok (State.deliver ⟨forms, outer, .expression⟩ (.symbol t.text t.position)) := by
  rw [step_expression (by rw [named]; rfl)]
  simp only [startExpression, named]

theorem step_close {form : Form} {items : List Expression} (closes : t.lexeme = .rightParen)
    (closed : form.close opened head items.reverse = .ok e) :
    step ⟨forms, .item form opened head items :: outer, .expression⟩ t =
      .ok (State.deliver ⟨forms, outer, .expression⟩ e) := by
  simp only [step, itemOrClose, closes, closed]
  rfl

theorem step_binder (binder : Binder) (room : outer.length < maxNesting)
    (kind : t.lexeme = binder.lexeme) (outside : binder = .function → outer = []) :
    step ⟨forms, outer, .head opened⟩ t = .ok ⟨forms, outer, .name binder opened t.position⟩ := by
  have deep := Nat.not_le.mpr room
  cases binder with
  | define | bind => simp [step, formHead, kind, Binder.lexeme, deep]
  | function => simp [step, formHead, kind, Binder.lexeme, outside, maxNesting]

theorem step_form {form : Form} (room : outer.length < maxNesting) (headed : form.Headed [t]) :
    step ⟨forms, outer, .head opened⟩ t =
      .ok ⟨forms, .item form opened t.position [] :: outer, .expression⟩ := by
  have deep := Nat.not_le.mpr room
  cases headed with
  | branch kind | block kind | cond kind | call kind => simp [step, formHead, kind, deep, State.enter]

theorem step_compose (room : outer.length < maxNesting) (kind : t.lexeme = .compose) :
    step ⟨forms, outer, .head opened⟩ t =
      .ok ⟨forms, .initial opened t.position :: outer, .expression⟩ := by
  have deep := Nat.not_le.mpr room
  simp [step, formHead, kind, deep, State.enter]

theorem step_define (named : t.lexeme = .ident) :
    step ⟨forms, outer, .name .define opened head⟩ t =
      .ok ⟨forms, .item (.define t.text) opened head [] :: outer, .expression⟩ := by
  simp only [step, boundName, named, State.enter]

theorem step_bind (named : t.lexeme = .ident) :
    step ⟨forms, outer, .name .bind opened head⟩ t =
      .ok ⟨forms, .item (.bind t.text) opened head [] :: outer, .expression⟩ := by
  simp only [step, boundName, named, State.enter]

theorem step_function (named : t.lexeme = .ident) :
    step ⟨forms, outer, .name .function opened head⟩ t =
      .ok ⟨forms, outer, .parameterList t.text opened head⟩ := by
  simp only [step, boundName, named]

theorem step_bracket {name : String} (opens : t.lexeme = .leftBracket) :
    step ⟨forms, outer, .parameterList name opened head⟩ t =
      .ok ⟨forms, outer, .parameters name opened head t.position []⟩ := by
  simp only [step, listStart, opens]

theorem step_parameter {name : String} {bracket : Position} {params : List String}
    (named : t.lexeme = .ident) (new : t.text ∉ params) :
    step ⟨forms, outer, .parameters name opened head bracket params⟩ t =
      .ok ⟨forms, outer, .parameters name opened head bracket (t.text :: params)⟩ := by
  simp [step, parameter, named, new]

theorem step_parameters_end {name : String} {bracket : Position} {params : List String}
    (ends : t.lexeme = .rightBracket) (few : params.length ≤ maxArity) :
    step ⟨forms, outer, .parameters name opened head bracket params⟩ t =
      .ok ⟨forms, .item (.function name params.reverse) opened head [] :: outer, .expression⟩ := by
  simp [step, parameter, ends, few, State.enter]

section Stages

variable {stages : List Stage} {found : Stage}

theorem step_stage (named : t.lexeme = .ident) :
    step ⟨forms, outer, .stages e opened head stages⟩ t =
      .ok ⟨forms, outer, .stages e opened head (⟨t.text, t.position⟩ :: stages)⟩ := by
  simp only [step, stage, named]

theorem step_stage_open (opens : t.lexeme = .leftParen) :
    step ⟨forms, outer, .stages e opened head stages⟩ t =
      .ok ⟨forms, outer, .stageHead e opened head stages⟩ := by
  simp only [step, stage, opens]

theorem step_stage_name (named : t.lexeme = .ident) :
    step ⟨forms, outer, .stageHead e opened head stages⟩ t =
      .ok ⟨forms, outer, .stageEnd e opened head stages ⟨t.text, t.position⟩⟩ := by
  simp only [step, stageName, named]

theorem step_stage_close (closes : t.lexeme = .rightParen) :
    step ⟨forms, outer, .stageEnd e opened head stages found⟩ t =
      .ok ⟨forms, outer, .stages e opened head (found :: stages)⟩ := by
  simp only [step, stageClose, closes]

theorem step_stages_end (closes : t.lexeme = .rightParen) (nonempty : stages ≠ []) :
    step ⟨forms, outer, .stages e opened head stages⟩ t =
      .ok (State.deliver ⟨forms, outer, .expression⟩ (.compose e stages.reverse opened)) := by
  simp only [step, stage, closes, List.isEmpty_eq_false_iff.mpr nonempty]
  rfl

end Stages

end Steps

section Lists

variable {name : String} {bracket : Position}

-- Parameters are kept last first, and the list refuses a name it has.
theorem parameters_consumed {params : List Token} {before : List String}
    (names : ∀ t ∈ params, t.lexeme = .ident) (distinct : (before.reverse ++ params.map Token.text).Nodup) :
    Consumes ⟨forms, outer, .parameters name opened head bracket before⟩ params
      ⟨forms, outer, .parameters name opened head bracket ((params.map Token.text).reverse ++ before)⟩ := by
  induction params generalizing before with
  | nil => exact .nil _
  | cons t params ih =>
      obtain ⟨named, names⟩ := List.forall_mem_cons.mp names
      have new : t.text ∉ before := by
        intro again
        exact (List.nodup_append.mp distinct).2.2 t.text (by simpa using again) t.text (by simp) rfl
      refine .cons (step_parameter named new) ?_
      simpa using @ih (t.text :: before) names (by simpa using distinct)

theorem stages_consumed {tokens : List Token} {stages before : List Stage} {first : Expression}
    (derives : DerivesStages tokens stages) :
    Consumes ⟨forms, outer, .stages first opened head before⟩ tokens
      ⟨forms, outer, .stages first opened head (stages.reverse ++ before)⟩ := by
  induction derives generalizing before with
  | nil => exact .nil _
  | name named _ ih =>
      rw [List.reverse_cons, List.append_assoc]
      exact .cons (step_stage named) ih
  | form opens named closes _ ih =>
      rw [List.reverse_cons, List.append_assoc]
      exact .cons (step_stage_open opens) (.cons (step_stage_name named) (.cons (step_stage_close closes) ih))

theorem pairs_flatMap (clauses : List (Expression × Expression)) :
    pairs (clauses.flatMap fun clause => [clause.1, clause.2]) = clauses := by
  induction clauses with
  | nil => rfl
  | cons clause rest ih => simp [pairs, ih]

theorem close_cond (clauses : List (Expression × Expression)) :
    Form.cond.close opened head (clauses.flatMap fun clause => [clause.1, clause.2]) =
      .ok (.cond clauses opened) := by
  have even : (clauses.flatMap fun clause => [clause.1, clause.2]).length % 2 = 0 := by
    simp [List.length_flatMap, List.map_const']
  simp only [Form.close, even, if_true, pairs_flatMap]

theorem Consumes.close {tokens : List Token} {closed : Token} {es : List Expression} {form : Form}
    {e : Expression} (items : Consumes ⟨forms, .item form opened head [] :: outer, .expression⟩ tokens
      ⟨forms, .item form opened head (es.reverse ++ []) :: outer, .expression⟩)
    (closes : closed.lexeme = .rightParen) (built : form.close opened head es = .ok e) :
    Consumes ⟨forms, .item form opened head [] :: outer, .expression⟩ (tokens ++ [closed])
      (State.deliver ⟨forms, outer, .expression⟩ e) :=
  items.append (.cons (step_close closes (by simpa using built)) (.nil _))

end Lists

end Parser

open Parser

mutual

theorem Derives.consumed {tokens : List Token} {e : Expression} {forms : List Expression}
    {outer : List Hole} : Derives tokens e → e.Admitted outer.length →
    Consumes ⟨forms, outer, .expression⟩ tokens (State.deliver ⟨forms, outer, .expression⟩ e)
  | .literal spells, _ => .cons (step_literal spells) (.nil _)
  | .symbol named, _ => .cons (step_symbol named) (.nil _)
  | .form opens inside closes, admitted => .cons (step_open opens) (inside.consumed closes admitted)

theorem DerivesForm.consumed {opened : Position} {tokens : List Token} {closed : Token} {e : Expression}
    {forms : List Expression} {outer : List Hole} :
    DerivesForm opened tokens e → closed.lexeme = .rightParen → e.Admitted outer.length →
    Consumes ⟨forms, outer, .head opened⟩ (tokens ++ [closed])
      (State.deliver ⟨forms, outer, .expression⟩ e)
  | .define kind named items, closes, admitted => by
      cases admitted with
      | define room inside =>
      refine .cons (step_binder .define room kind nofun) (.cons (step_define named) ?_)
      exact (items.collected (by simpa using inside)).close closes rfl
  | .function kind named opens names ends items, closes, admitted => by
      generalize depth : outer.length = n at admitted
      cases admitted with
      | function distinct few inside =>
      cases List.length_eq_zero_iff.mp depth
      simp only [List.cons_append, List.append_assoc]
      refine .cons (step_binder .function (by decide) kind fun _ => rfl) (.cons (step_function named) ?_)
      refine .cons (step_bracket opens) ?_
      refine (parameters_consumed names (by simpa using distinct)).append ?_
      refine .cons (step_parameters_end ends (by simpa using few)) ?_
      exact (items.collected (by simpa using inside)).close closes (by simp [Form.close])
  | .bind kind named items, closes, admitted => by
      cases admitted with
      | bind room bound body =>
      refine .cons (step_binder .bind room kind nofun) (.cons (step_bind named) ?_)
      exact (items.collected (by simp [bound, body])).close closes rfl
  | .branch kind items, closes, admitted => by
      cases admitted with
      | branch room condition yes no =>
      refine .cons (step_form room (.branch kind)) ?_
      exact (items.collected (by simp [condition, yes, no])).close closes rfl
  | .block kind items, closes, admitted => by
      cases admitted with
      | block room inside =>
      refine .cons (step_form room (.block kind)) ?_
      exact (items.collected inside).close closes rfl
  | .cond kind items, closes, admitted => by
      cases admitted with
      | cond room tests consequents =>
      refine .cons (step_form room (.cond kind)) ?_
      refine (items.collected fun e listed => ?_).close closes (close_cond _)
      obtain ⟨clause, member, listed⟩ := List.mem_flatMap.mp listed
      rcases List.mem_cons.mp listed with rfl | listed
      · exact tests clause member
      · cases List.mem_singleton.mp listed
        exact consequents clause member
  | .call kind items, closes, admitted => by
      cases admitted with
      | call room few inside =>
      refine .cons (step_form room (.call kind)) ?_
      exact (items.collected inside).close closes (by simp [Form.close, few])
  | @DerivesForm.compose _ head _ _ _ _ kind first stages nonempty, closes, admitted => by
      cases admitted with
      | compose room inside =>
      simp only [List.cons_append, List.append_assoc]
      refine .cons (step_compose room kind) ?_
      have start : Consumes ⟨forms, .initial opened head.position :: outer, .expression⟩ _ _ :=
        first.consumed inside
      refine start.append ((stages_consumed stages).append (.cons (step_stages_end closes ?_) ?_))
      · simpa using nonempty
      · simpa using Consumes.nil _

theorem DerivesAll.collected {tokens : List Token} {es items : List Expression} {form : Form}
    {opened head : Position} {forms : List Expression} {outer : List Hole} :
    DerivesAll tokens es → (∀ e ∈ es, e.Admitted (outer.length + 1)) →
    Consumes ⟨forms, .item form opened head items :: outer, .expression⟩ tokens
      ⟨forms, .item form opened head (es.reverse ++ items) :: outer, .expression⟩
  | .nil, _ => .nil _
  | .cons first rest, admitted => by
      obtain ⟨inside, others⟩ := List.forall_mem_cons.mp admitted
      have head : Consumes ⟨forms, .item form opened head items :: outer, .expression⟩ _ _ :=
        first.consumed inside
      refine head.append ?_
      simpa [State.deliver] using rest.collected others

end

theorem DerivesAll.consumed {tokens : List Token} {es forms : List Expression} (derives : DerivesAll tokens es)
    (admitted : ∀ e ∈ es, e.Admitted 0) :
    Consumes ⟨forms, [], .expression⟩ tokens ⟨es.reverse ++ forms, [], .expression⟩ := by
  induction es generalizing tokens forms with
  | nil =>
      cases derives
      exact .nil _
  | cons e rest ih =>
      cases derives with
      | cons first others =>
      obtain ⟨outside, admitted⟩ := List.forall_mem_cons.mp admitted
      have first : Consumes ⟨forms, [], .expression⟩ _ ⟨e :: forms, [], .expression⟩ :=
        first.consumed outside
      refine first.append ?_
      simpa using ih others admitted

end LispMachine
