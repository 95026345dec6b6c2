import LispMachine.Expression.Parser
import LispMachine.Proofs.Except

set_option autoImplicit false

namespace LispMachine.Parser

variable {P : Position → Prop} {s : State} {t : Token}

def Hole.Placed (P : Position → Prop) : Hole → Prop
  | .item _ _ p _ | .initial _ p => P p

def Focus.Placed (P : Position → Prop) : Focus → Prop
  | .expression => True
  | .head p | .name _ _ p | .parameterList _ _ p | .parameters _ _ p _ _ => P p
  | .stages _ _ p _ | .stageHead _ _ p _ | .stageEnd _ _ p _ _ => P p

structure State.Placed (P : Position → Prop) (s : State) : Prop where
  focus : s.focus.Placed P
  outer : ∀ hole ∈ s.outer, hole.Placed P

structure Refusal (P : Position → Prop) (d : Diagnostic) : Prop where
  stands : P d.position
  cause : ∃ fault, d.cause = .syntactic fault

theorem Refusal.fault {α : Type} {Q : α → Prop} {p : Position} (stands : P p) (fault : SyntaxFault) :
    Yields (Refusal P) Q (Diagnostic.syntactic fault p) := ⟨stands, fault, rfl⟩

theorem State.Placed.deliver (outer : ∀ hole ∈ s.outer, hole.Placed P) (e : Expression) :
    (s.deliver e).Placed P := by
  obtain ⟨forms, holes, focus⟩ := s
  cases holes with
  | nil => exact ⟨trivial, outer⟩
  | cons hole rest =>
      obtain ⟨first, others⟩ := List.forall_mem_cons.mp outer
      cases hole with
      | item form opened head items => exact ⟨trivial, List.forall_mem_cons.mpr ⟨first, others⟩⟩
      | initial opened head => exact ⟨first, others⟩

theorem State.Placed.enter (outer : ∀ hole ∈ s.outer, hole.Placed P) {hole : Hole} (stands : hole.Placed P) :
    (s.enter hole).Placed P :=
  ⟨trivial, List.forall_mem_cons.mpr ⟨stands, outer⟩⟩

theorem Form.close_placed (form : Form) (opened : Position) {head : Position} (items : List Expression)
    (stands : P head) : Yields (Refusal P) (fun _ => True) (form.close opened head items) := by
  unfold Form.close
  split
  case h_10 | h_11 =>
    split
    · trivial
    · exact .fault stands _
  all_goals first | trivial | exact .fault stands _

theorem startExpression_placed (here : P t.position) (outer : ∀ hole ∈ s.outer, hole.Placed P) :
    Yields (Refusal P) (State.Placed P) (startExpression s t) := by
  unfold startExpression
  split
  case h_1 => exact ⟨here, outer⟩
  case h_2 | h_3 | h_4 =>
    unfold literal
    split
    · exact .deliver outer _
    · exact .deliver outer _
    · exact .deliver outer _
    · exact .fault here _
  case h_5 | h_6 | h_7 | h_8 => exact .deliver outer _
  all_goals exact .fault here _

theorem itemOrClose_placed (here : P t.position) (outer : ∀ hole ∈ s.outer, hole.Placed P) :
    Yields (Refusal P) (State.Placed P) (itemOrClose s t) := by
  unfold itemOrClose
  split
  next => exact startExpression_placed here outer
  next opened head holes shape =>
    split
    · exact .fault (outer (.initial opened head) (by simp [shape])) _
    · exact startExpression_placed here outer
  next form opened head items holes shape =>
    rw [shape] at outer
    obtain ⟨first, others⟩ := List.forall_mem_cons.mp outer
    split
    · refine (form.close_placed opened items.reverse first).bind fun e _ => ?_
      exact .deliver (s := { s with outer := holes }) others e
    · exact .fault here _
    · exact .fault here _
    · exact startExpression_placed here (shape ▸ outer)

theorem formHead_placed {opened : Position} (stands : P opened) (here : P t.position)
    (outer : ∀ hole ∈ s.outer, hole.Placed P) :
    Yields (Refusal P) (State.Placed P) (formHead s opened t) := by
  unfold formHead
  split
  · exact .fault here _
  · split
    · exact .fault stands _
    · split
      case h_1 | h_2 | h_3 => exact ⟨here, outer⟩
      case h_4 | h_5 | h_6 | h_7 | h_8 => exact .enter outer here
      case h_9 => exact .fault stands _
      all_goals exact .fault here _

theorem boundName_placed {binder : Binder} {opened head : Position} (stands : P head) (here : P t.position)
    (outer : ∀ hole ∈ s.outer, hole.Placed P) :
    Yields (Refusal P) (State.Placed P) (boundName s binder opened head t) := by
  unfold boundName
  split
  · cases binder with
    | define | bind => exact .enter outer stands
    | function => exact ⟨stands, outer⟩
  all_goals exact .fault here _

theorem parameter_placed {name : String} {opened head bracket : Position} {params : List String}
    (stands : P head) (here : P t.position) (outer : ∀ hole ∈ s.outer, hole.Placed P) :
    Yields (Refusal P) (State.Placed P) (parameter s name opened head bracket params t) := by
  unfold parameter
  split
  · split
    · exact .fault here _
    · exact ⟨stands, outer⟩
  · split
    · exact .enter outer stands
    · exact .fault stands _
  all_goals exact .fault here _

theorem stage_placed {first : Expression} {opened head : Position} {stages : List Stage} (stands : P head)
    (here : P t.position) (outer : ∀ hole ∈ s.outer, hole.Placed P) :
    Yields (Refusal P) (State.Placed P) (stage s first opened head stages t) := by
  unfold stage
  split
  · split
    · exact .fault stands _
    · exact .deliver outer _
  · exact ⟨stands, outer⟩
  · exact ⟨stands, outer⟩
  all_goals exact .fault here _

theorem step_placed (placed : s.Placed P) (here : P t.position) :
    Yields (Refusal P) (State.Placed P) (step s t) := by
  obtain ⟨stands, outer⟩ := placed
  unfold step
  split <;> rename_i shape <;> rw [shape] at stands
  · exact itemOrClose_placed here outer
  · exact formHead_placed stands here outer
  · exact boundName_placed stands here outer
  · unfold listStart
    split
    · exact ⟨stands, outer⟩
    all_goals exact .fault here _
  · exact parameter_placed stands here outer
  · exact stage_placed stands here outer
  · unfold stageName
    split
    · exact ⟨stands, outer⟩
    · exact .fault here _
  · unfold stageClose
    split
    · exact ⟨stands, outer⟩
    · exact .fault here _

theorem finish_placed {eof : Token} (placed : s.Placed P) (here : P eof.position) :
    Yields (Refusal P) (fun _ => True) (finish s eof) := by
  unfold finish
  split
  · trivial
  · exact (step_placed placed here).bind fun _ _ => trivial

theorem body_append {tokens : List Token} (proper : ∀ t ∈ tokens, t.lexeme ≠ .eof) (p : Position) :
    body (tokens ++ [.eof p]) = tokens := by
  rw [body, List.takeWhile_append_of_pos (by simpa using proper)]
  simp [Token.eof, Token.plain]

theorem eofToken_mem {tokens : List Token} (ended : ∃ t ∈ tokens, t.lexeme = .eof) :
    eofToken tokens ∈ tokens := by
  unfold eofToken
  split
  next found => exact List.mem_of_find?_eq_some found
  next missing =>
    obtain ⟨t, member, kind⟩ := ended
    have other := List.find?_eq_none.mp missing t member
    simp [kind] at other

theorem parseTokens_refusal {tokens : List Token} (ended : ∃ t ∈ tokens, t.lexeme = .eof) :
    FailsWith (Refusal fun p => ∃ t ∈ tokens, t.position = p) (parseTokens tokens) := by
  have run : Yields (Refusal fun p => ∃ t ∈ tokens, t.position = p)
      (State.Placed fun p => ∃ t ∈ tokens, t.position = p) ((body tokens).foldlM step initial) := by
    refine .foldlM ⟨trivial, by simp [initial]⟩ fun s t member placed => ?_
    exact step_placed placed ⟨t, (List.takeWhile_sublist _).subset member, rfl⟩
  have whole : Yields (Refusal fun p => ∃ t ∈ tokens, t.position = p) (fun _ => True)
      (parseTokens tokens) := by
    refine run.bind fun s placed => ?_
    exact (finish_placed placed ⟨_, eofToken_mem ended, rfl⟩).bind fun _ _ => trivial
  exact whole.fails

end LispMachine.Parser
