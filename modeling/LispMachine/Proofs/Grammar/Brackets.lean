import LispMachine.Proofs.Grammar.Reading

set_option autoImplicit false

namespace LispMachine

def Lexeme.opens : Lexeme → Int
  | .leftParen | .leftBracket => 1
  | .rightParen | .rightBracket => -1
  | _ => 0

namespace Token

def openBrackets : List Token → Int
  | [] => 0
  | t :: tokens => t.lexeme.opens + openBrackets tokens

@[simp] theorem openBrackets_nil : openBrackets [] = 0 := rfl

@[simp] theorem openBrackets_cons (t : Token) (tokens : List Token) :
    openBrackets (t :: tokens) = t.lexeme.opens + openBrackets tokens := rfl

@[simp] theorem openBrackets_append (a b : List Token) :
    openBrackets (a ++ b) = openBrackets a + openBrackets b := by
  induction a with
  | nil => rw [List.nil_append, openBrackets_nil, Int.zero_add]
  | cons t a ih => rw [List.cons_append, openBrackets_cons, openBrackets_cons, ih, Int.add_assoc]

end Token

namespace Parser

def Focus.opened : Focus → Nat
  | .expression => 0
  | .head _ | .name _ _ _ | .parameterList _ _ _ | .stages _ _ _ _ => 1
  | .parameters _ _ _ _ _ | .stageHead _ _ _ _ | .stageEnd _ _ _ _ _ => 2

def State.opened (s : State) : Nat := s.outer.length + s.focus.opened

@[simp] theorem State.opened_deliver (s : State) (e : Expression) : (s.deliver e).opened = s.outer.length := by
  obtain ⟨forms, outer, focus⟩ := s
  cases outer with
  | nil => rfl
  | cons hole outer => cases hole <;> rfl

@[simp] theorem State.opened_enter (s : State) (hole : Hole) : (s.enter hole).opened = s.outer.length + 1 := rfl

theorem State.opened_pos {s : State} (incomplete : s.isComplete ≠ true) : 0 < s.opened := by
  obtain ⟨forms, outer, focus⟩ := s
  cases focus with
  | expression =>
      cases outer with
      | nil => simp [isComplete] at incomplete
      | cons hole outer => exact Nat.lt_of_lt_of_le (Nat.succ_pos _) (Nat.le_add_right _ _)
  | _ => simp [State.opened, Focus.opened]

abbrev Counts (opened : Nat) (t : Token) (x : Except Diagnostic State) : Prop :=
  Yields (fun d => d.cause = .syntactic .unexpectedEnd → t.lexeme = .eof)
    (fun s => (s.opened : Int) = opened + t.lexeme.opens) x

section Step

variable {s : State} {t : Token}

theorem Counts.fault {opened : Nat} {fault : SyntaxFault} (p : Position)
    (other : fault = .unexpectedEnd → t.lexeme = .eof) :
    Counts opened t (Diagnostic.syntactic fault p) := by
  intro same
  cases same
  exact other rfl

theorem literal_counts (t : Token) :
    Yields (fun d => d.cause = .syntactic .unexpectedEnd → t.lexeme = .eof) (fun _ => True) (literal t) := by
  unfold literal
  split
  case h_4 => simp [Yields, Diagnostic.syntactic]
  all_goals trivial

theorem startExpression_counts : Counts s.outer.length t (startExpression s t) := by
  unfold startExpression
  split <;> rename_i kind
  case h_1 => simp [Yields, State.opened, Focus.opened, kind, Lexeme.opens]
  case h_2 | h_3 | h_4 =>
    cases found : literal t with
    | ok e => simp [Except.map, Yields, kind, Lexeme.opens]
    | error d =>
        have := literal_counts t
        rwa [found] at this
  case h_5 | h_6 | h_7 | h_8 => simp [Yields, kind, Lexeme.opens]
  case h_9 => exact .fault _ fun _ => kind
  all_goals exact .fault _ (by simp)

theorem close_counts (form : Form) (opened head : Position) (items : List Expression) :
    Yields (fun d => d.cause = .syntactic .unexpectedEnd → t.lexeme = .eof) (fun _ => True)
      (form.close opened head items) := by
  unfold Form.close
  split
  case h_10 | h_11 =>
    split
    · trivial
    · simp [Yields, Diagnostic.syntactic]
  all_goals first | trivial | simp [Yields, Diagnostic.syntactic]

theorem itemOrClose_counts : Counts s.outer.length t (itemOrClose s t) := by
  unfold itemOrClose
  split
  · exact startExpression_counts
  · split
    · exact .fault _ (by simp)
    · exact startExpression_counts
  next outer =>
    split
    next kind =>
      refine (close_counts _ _ _ _).bind fun e _ => ?_
      simp only [Yields, pure, Except.pure, State.opened_deliver, outer, List.length_cons, kind, Lexeme.opens]
      omega
    · exact .fault _ (by simp)
    · exact .fault _ (by simp)
    · exact startExpression_counts

theorem formHead_counts (opened : Position) : Counts (s.outer.length + 1) t (formHead s opened t) := by
  unfold formHead
  split
  · exact .fault _ (by simp)
  · split
    · exact .fault _ (by simp)
    · split <;> rename_i kind
      case h_9 => exact .fault _ (by simp)
      case h_10 => exact .fault _ fun _ => kind
      case h_11 => exact .fault _ (by simp)
      all_goals simp [Yields, State.opened, State.enter, Focus.opened, kind, Lexeme.opens]

theorem boundName_counts (binder : Binder) (opened head : Position) :
    Counts (s.outer.length + 1) t (boundName s binder opened head t) := by
  unfold boundName
  split <;> rename_i kind
  · cases binder <;> simp [Yields, State.opened, State.enter, Focus.opened, kind, Lexeme.opens]
  · exact .fault _ fun _ => kind
  · exact .fault _ (by simp)

theorem listStart_counts (name : String) (opened head : Position) :
    Counts (s.outer.length + 1) t (listStart s name opened head t) := by
  unfold listStart
  split <;> rename_i kind
  · simp [Yields, State.opened, Focus.opened, kind, Lexeme.opens, Int.add_assoc]
  · exact .fault _ fun _ => kind
  · exact .fault _ (by simp)

theorem parameter_counts (name : String) (opened head bracket : Position) (params : List String) :
    Counts (s.outer.length + 2) t (parameter s name opened head bracket params t) := by
  unfold parameter
  split <;> rename_i kind
  · split
    · exact .fault _ (by simp)
    · simp [Yields, State.opened, Focus.opened, kind, Lexeme.opens]
  · split
    · simp only [Yields, State.opened_enter, kind, Lexeme.opens]
      omega
    · exact .fault _ (by simp)
  case h_5 => exact .fault _ fun _ => kind
  all_goals exact .fault _ (by simp)

theorem stage_counts (first : Expression) (opened head : Position) (stages : List Stage) :
    Counts (s.outer.length + 1) t (stage s first opened head stages t) := by
  unfold stage
  split <;> rename_i kind
  · split
    · exact .fault _ (by simp)
    · simp only [Yields, State.opened_deliver, kind, Lexeme.opens]
      omega
  · simp [Yields, State.opened, Focus.opened, kind, Lexeme.opens]
  · simp [Yields, State.opened, Focus.opened, kind, Lexeme.opens, Int.add_assoc]
  case h_6 => exact .fault _ fun _ => kind
  all_goals exact .fault _ (by simp)

theorem stageName_counts (first : Expression) (opened head : Position) (stages : List Stage) :
    Counts (s.outer.length + 2) t (stageName s first opened head stages t) := by
  unfold stageName
  split <;> rename_i kind
  · simp [Yields, State.opened, Focus.opened, kind, Lexeme.opens]
  · exact .fault _ (by simp)

theorem stageClose_counts (first : Expression) (opened head : Position) (stages : List Stage)
    (found : Stage) : Counts (s.outer.length + 2) t (stageClose s first opened head stages found t) := by
  unfold stageClose
  split <;> rename_i kind
  · simp only [Yields, State.opened, Focus.opened, kind, Lexeme.opens]
    omega
  · exact .fault _ (by simp)

theorem step_counts (s : State) (t : Token) : Counts s.opened t (step s t) := by
  unfold step State.opened
  split <;> rename_i focus <;> simp only [focus, Focus.opened]
  · exact itemOrClose_counts
  · exact formHead_counts _
  · exact boundName_counts _ _ _
  · exact listStart_counts _ _ _
  · exact parameter_counts _ _ _ _ _
  · exact stage_counts _ _ _ _
  · exact stageName_counts _ _ _ _
  · exact stageClose_counts _ _ _ _ _

end Step

theorem steps_count {tokens : List Token} (proper : ∀ t ∈ tokens, t.lexeme ≠ .eof) (s : State) :
    Yields (fun d => d.cause ≠ .syntactic .unexpectedEnd)
      (fun s' => (s'.opened : Int) = s.opened + Token.openBrackets tokens) (tokens.foldlM step s) := by
  induction tokens generalizing s with
  | nil => simp [Yields, pure, Except.pure]
  | cons t rest ih =>
      obtain ⟨first, others⟩ := List.forall_mem_cons.mp proper
      have here : Yields (fun d => d.cause ≠ .syntactic .unexpectedEnd)
          (fun s₁ => (s₁.opened : Int) = s.opened + t.lexeme.opens) (step s t) :=
        (step_counts s t).imp (fun d only same => first (only same)) fun _ same => same
      rw [List.foldlM_cons]
      refine here.bind fun s₁ same => (ih others s₁).imp (fun _ other => other) fun s₂ later => ?_
      rw [later, same, Token.openBrackets_cons, Int.add_assoc]

theorem finish_counts {eof : Token} (last : eof.lexeme = .eof) (s : State) :
    Yields (fun _ => 0 < s.opened) (fun _ => s.opened = 0) (finish s eof) := by
  cases found : finish s eof with
  | ok forms =>
      obtain ⟨outer, focus, _⟩ := finish_ok last found
      simp [Yields, State.opened, Focus.opened, outer, focus]
  | error d =>
      apply State.opened_pos
      intro complete
      simp [finish, complete, pure, Except.pure] at found

theorem parseTokens_counts (tokens : List Token) :
    Yields (fun d => d.cause = .syntactic .unexpectedEnd → 0 < Token.openBrackets (body tokens))
      (fun _ => Token.openBrackets (body tokens) = 0) (parseTokens tokens) := by
  have proper : ∀ t ∈ body tokens, t.lexeme ≠ .eof := by
    intro t member
    simpa using List.all_eq_true.mp List.all_takeWhile t member
  have run : Yields (fun d => d.cause = .syntactic .unexpectedEnd → 0 < Token.openBrackets (body tokens))
      (fun s => (s.opened : Int) = 0 + Token.openBrackets (body tokens)) ((body tokens).foldlM step initial) :=
    (steps_count proper initial).imp (fun _ other same => absurd same other) fun _ same => same
  refine run.bind fun s same => ?_
  refine ((finish_counts (eofToken_lexeme tokens) s).imp (fun _ some _ => ?_) fun _ none => ?_).bind
    (Q := fun _ => Token.openBrackets (body tokens) = 0) fun _ none => none
  · omega
  · omega

end Parser

end LispMachine
