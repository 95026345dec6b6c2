import LispMachine.Proofs.Grammar.Brackets
import LispMachine.Proofs.Grammar.Refusals
import LispMachine.Proofs.Token.Words
import LispMachine.Session

set_option autoImplicit false

namespace LispMachine

open Lexer

namespace Balance

def after (b : Balance) (text : List Char) : Balance := text.foldl next b

@[simp] theorem after_nil (b : Balance) : b.after [] = b := rfl

@[simp] theorem after_cons (b : Balance) (c : Char) (text : List Char) :
    b.after (c :: text) = (b.next c).after text := rfl

@[simp] theorem after_append (b : Balance) (a c : List Char) : b.after (a ++ c) = (b.after a).after c :=
  List.foldl_append

def Closed (b : Balance) : Prop := b.reading = .code ∨ b.reading = .comment

theorem not_isComplete {b : Balance} (inside : ¬ b.Closed) : b.isComplete = false := by
  obtain ⟨depth, reading⟩ := b
  cases reading <;> simp_all [Closed, isComplete]

theorem isComplete_iff {b : Balance} (closed : b.Closed) : b.isComplete = true ↔ b.depth ≤ 0 := by
  rcases closed with code | comment
  · simp [isComplete, code]
  · simp [isComplete, comment]

section Gaps

variable (depth : Int)

theorem after_comment {body : List Char} (inside : '\n' ∉ body) :
    after ⟨depth, .comment⟩ body = ⟨depth, .comment⟩ := by
  induction body with
  | nil => rfl
  | cons c body ih =>
      simp only [List.mem_cons, not_or] at inside
      have other : c ≠ '\n' := Ne.symm inside.1
      simpa [next, other] using ih inside.2

theorem next_blank {c : Char} (blank : Text.isBlank c = true ∨ c = ',') :
    next ⟨depth, .code⟩ c = ⟨depth, .code⟩ := by
  have plain : c ≠ '"' ∧ c ≠ ';' ∧ c ≠ '(' ∧ c ≠ '[' ∧ c ≠ ')' ∧ c ≠ ']' := by
    refine ⟨?_, ?_, ?_, ?_, ?_, ?_⟩ <;>
    · rintro rfl
      revert blank
      decide
  simp [next, plain]

theorem after_gap {last : Bool} {gap : List Char} (skipped : Gap last gap) :
    after ⟨depth, .code⟩ gap = ⟨depth, .code⟩ ∨ last = true ∧ after ⟨depth, .code⟩ gap = ⟨depth, .comment⟩ := by
  have opens : next ⟨depth, .code⟩ ';' = ⟨depth, .comment⟩ := rfl
  have closes : next ⟨depth, .comment⟩ '\n' = ⟨depth, .code⟩ := rfl
  induction skipped with
  | nil => exact .inl rfl
  | blank blank _ ih => simpa [next_blank _ blank] using ih
  | comment inside _ ih => simpa [opens, closes, after_comment _ inside] using ih
  | unended final inside => exact .inr ⟨final, by simp [opens, after_comment _ inside]⟩

theorem after_gap_false {gap : List Char} (skipped : Gap false gap) :
    after ⟨depth, .code⟩ gap = ⟨depth, .code⟩ := by
  rcases after_gap depth skipped with same | ⟨final, _⟩
  · exact same
  · cases final

end Gaps

section Tokens

variable (depth : Int) {c : Char} {cs : List Char}

theorem next_symbol (symbol : isSymbolChar c = true) : next ⟨depth, .code⟩ c = ⟨depth, .code⟩ := by
  have plain : c ≠ '"' ∧ c ≠ ';' ∧ c ≠ '(' ∧ c ≠ '[' ∧ c ≠ ')' ∧ c ≠ ']' := by
    refine ⟨?_, ?_, ?_, ?_, ?_, ?_⟩ <;>
    · rintro rfl
      revert symbol
      decide
  simp [next, plain]

theorem after_symbols {run : List Char} (symbols : ∀ c ∈ run, isSymbolChar c = true) :
    after ⟨depth, .code⟩ run = ⟨depth, .code⟩ := by
  induction run with
  | nil => rfl
  | cons c run ih =>
      obtain ⟨first, others⟩ := List.forall_mem_cons.mp symbols
      simpa [next_symbol _ first] using ih others

theorem next_delimiter {lexeme : Lexeme} (found : Lexeme.delimiter? c = some lexeme) :
    next ⟨depth, .code⟩ c = ⟨depth + lexeme.opens, .code⟩ := by
  unfold Lexeme.delimiter? at found
  split at found
  case h_7 => cases found
  all_goals
    cases found
    simp [next, Lexeme.opens, Int.sub_eq_add_neg]

theorem after_string (raw value cs : List Char) :
    Yields (fun fault => fault = .unterminatedString → ¬ (after ⟨depth, .string⟩ cs).Closed)
      (fun _ => after ⟨depth, .string⟩ cs = after ⟨depth, .code⟩ (scanString raw value cs).rest)
      (scanString raw value cs).meaning := by
  have enters : next ⟨depth, .string⟩ '\\' = ⟨depth, .escaped⟩ := rfl
  have leaves (c : Char) : next ⟨depth, .escaped⟩ c = ⟨depth, .string⟩ := rfl
  fun_induction scanString raw value cs with
  | case1 => simp [Yields, Closed]
  | case2 => simp [Yields, next]
  | case3 => simp [Yields, Closed, enters]
  | case4 _ _ _ _ _ _ _ ih => simpa [enters, leaves] using ih
  | case5 => simp [Yields]
  | case6 raw value c rest quote backslash ih =>
      have stays : next ⟨depth, .string⟩ c = ⟨depth, .string⟩ := by simp [next, quote, backslash]
      simpa [stays] using ih

theorem symbolRun_plain (run : List Char) :
    Yields (· ≠ .unterminatedString) (fun found => found.1.opens = 0) (symbolRun run) := by
  unfold symbolRun
  split
  next lexeme found =>
    unfold Lexeme.reserved? at found
    split at found <;> cases found <;> rfl
  next =>
    split
    · cases read : number run with
      | ok found =>
          rcases number_lexeme read with kind | kind | kind <;> simp [Yields, kind, Lexeme.opens]
      | error fault =>
          simp only [number, integer] at read
          generalize (if isNegative run then _ else _ : Int) = n at read
          repeat' split at read
          all_goals cases read
          all_goals simp [Yields]
    · rfl

theorem after_scan (solid : Solid c) (cs : List Char) :
    Yields (fun fault => fault = .unterminatedString → ¬ (after ⟨depth, .code⟩ (c :: cs)).Closed)
      (fun found => after ⟨depth, .code⟩ (c :: cs) =
        after ⟨depth + found.1.opens, .code⟩ (scan c cs).rest)
      (scan c cs).meaning := by
  unfold scan
  split
  next found => simp [Yields, next_delimiter _ found]
  next plain =>
    split
    next quote =>
      have opens : next ⟨depth, .code⟩ c = ⟨depth, .string⟩ := by simp [next, quote]
      have inside := after_string depth [c] [] cs
      rw [after_cons, opens]
      cases read : (scanString [c] [] cs).meaning with
      | error fault =>
          rw [read] at inside
          exact inside
      | ok found =>
          have kind : found.1 = .str := scanString_lexeme read
          rw [read] at inside
          simpa [Yields, kind, Lexeme.opens] using inside
    next unquoted =>
      split
      next symbol =>
        refine (symbolRun_plain _).imp (fun fault other same => absurd same other) fun found none => ?_
        have symbols : ∀ d ∈ cs.takeWhile isSymbolChar, isSymbolChar d = true :=
          List.all_eq_true.mp List.all_takeWhile
        rw [none, Int.add_zero, after_cons, next_symbol _ symbol]
        calc
          after ⟨depth, .code⟩ cs =
              after ⟨depth, .code⟩ (cs.takeWhile isSymbolChar ++ cs.dropWhile isSymbolChar) := by
            rw [List.takeWhile_append_dropWhile]
          _ = after ⟨depth, .code⟩ (cs.dropWhile isSymbolChar) := by
            rw [after_append, after_symbols _ symbols]
      next =>
        have stays : next ⟨depth, .code⟩ c = ⟨depth, .code⟩ := by
          have other : c ≠ '(' ∧ c ≠ '[' ∧ c ≠ ')' ∧ c ≠ ']' := by
            refine ⟨?_, ?_, ?_, ?_⟩ <;>
            · rintro rfl
              cases plain
          simp [next, unquoted, solid.semicolon, other]
        simp [Yields, stays, Lexeme.opens]

end Tokens

theorem after_tokensFrom (text : List Char) (p : Position) (depth : Int) :
    Yields (fun d => d.cause = .lexical .unterminatedString → ¬ (after ⟨depth, .code⟩ text).Closed)
      (fun tokens => (after ⟨depth, .code⟩ text).Closed ∧
        (after ⟨depth, .code⟩ text).depth = depth + Token.openBrackets tokens)
      (Source.tokensFrom ⟨text, p⟩ []) := by
  rcases gap_cases text with last | ⟨gap, c, cs, skipped, solid, shape⟩
  · rw [Source.tokensFrom_end last]
    rcases after_gap depth last with same | ⟨_, same⟩ <;>
      simp [Yields, Closed, same, Token.eof, Token.plain, Lexeme.opens]
  · have scanned := after_scan depth solid cs
    have whole : after ⟨depth, .code⟩ text = after ⟨depth, .code⟩ (c :: cs) := by
      rw [shape, after_append, after_gap_false _ skipped]
    rw [whole]
    cases found : (scan c cs).meaning with
    | error fault =>
        rw [found] at scanned
        rw [shape, Source.tokensFrom_refused skipped solid found]
        rintro ⟨⟩
        exact scanned rfl
    | ok meaning =>
        obtain ⟨lexeme, literal⟩ := meaning
        have shorter : (scan c cs).rest.length < text.length := by
          have := length_scan_rest c cs
          simp only [shape, List.length_append, List.length_cons]
          omega
        have later := after_tokensFrom (scan c cs).rest ((p.after gap).after (scan c cs).raw)
          (depth + lexeme.opens)
        rw [found] at scanned
        simp only [Yields] at scanned
        rw [shape, Source.tokensFrom_scan skipped solid found, scanned]
        cases read : Source.tokensFrom ⟨(scan c cs).rest, (p.after gap).after (scan c cs).raw⟩ [] with
        | error d =>
            rw [read] at later
            exact later
        | ok tokens =>
            rw [read] at later
            exact ⟨later.1, by rw [later.2, Token.openBrackets_cons, Int.add_assoc]⟩
termination_by text.length

end Balance

theorem parse_complete (text : String) :
    Yields
      (fun d => d.cause = .syntactic .unexpectedEnd ∨ d.cause = .lexical .unterminatedString →
        isInputComplete text = false)
      (fun _ => isInputComplete text = true) (parse text) := by
  have scanned := Balance.after_tokensFrom text.toList .start 0
  have same : isInputComplete text = (Balance.after ⟨0, .code⟩ text.toList).isComplete := rfl
  have answer := tokenize_answer text
  rw [same]
  unfold parse
  cases lexed : tokenize text with
  | error d =>
      rw [show Source.tokensFrom ⟨text.toList, .start⟩ [] = .error d from lexed] at scanned
      rw [lexed] at answer
      cases answer
      rintro (early | inside)
      · cases early
      · exact Balance.not_isComplete (scanned inside)
  | ok tokens =>
      rw [show Source.tokensFrom ⟨text.toList, .start⟩ [] = .ok tokens from lexed] at scanned
      rw [lexed] at answer
      obtain ⟨closed, counted⟩ := scanned
      cases answer with
      | @read proper gap p spelled _ _ =>
      have complete := Balance.isComplete_iff closed
      have counts := Parser.parseTokens_counts (proper ++ [.eof p])
      have ended : ∃ t ∈ proper ++ [.eof p], t.lexeme = .eof := ⟨.eof p, by simp, rfl⟩
      rw [Parser.body_append spelled.proper] at counts
      simp only [Token.openBrackets_append, Token.openBrackets_cons, Token.openBrackets_nil, Token.eof,
        Token.plain, Lexeme.opens, Int.zero_add, Int.add_zero] at counted
      show Yields _ _ (Parser.parseTokens (proper ++ [.eof p]))
      cases parsed : Parser.parseTokens (proper ++ [.eof p]) with
      | error d =>
          rw [parsed] at counts
          rintro (early | inside)
          · have some := counts early
            rw [← Bool.not_eq_true, complete]
            omega
          · obtain ⟨_, fault, cause⟩ := Parser.parseTokens_refusal ended d parsed
            cases cause.symm.trans inside
      | ok program =>
          rw [parsed] at counts
          have none : Token.openBrackets proper = 0 := counts
          exact complete.mpr (by omega)

section Messages

theorem append_ne_of_start {start text : List Char} (other : ¬ start <+: text) (rest : String) :
    String.ofList start ++ rest ≠ String.ofList text := by
  intro same
  exact other ⟨rest.toList, by simpa using congrArg String.toList same⟩

theorem append_ne_of_stop {stop text : List Char} (other : ¬ stop <:+ text) (front : String) :
    front ++ String.ofList stop ≠ String.ofList text := by
  intro same
  exact other ⟨front.toList, by simpa using congrArg String.toList same⟩

theorem SyntaxFault.message_ne_unterminated (fault : SyntaxFault) : fault.message ≠ "Unterminated string" := by
  unfold message
  cases fault
  case unexpectedEnd | nestedFunction | emptyCall | oddClauses | noInitialValue | noStage | tooManyFunctions =>
    decide
  all_goals
    simp only [String.append_assoc]
    exact append_ne_of_start (by decide) _

theorem SyntaxFault.eq_unexpectedEnd {fault : SyntaxFault}
    (said : fault.message = "Unexpected end of input") : fault = .unexpectedEnd := by
  unfold message at said
  cases fault
  case unexpectedEnd => rfl
  case outsideParameters => exact absurd said (append_ne_of_stop (by decide) _)
  case nestedFunction | emptyCall | oddClauses | noInitialValue | noStage | tooManyFunctions =>
    exact absurd said (by decide)
  all_goals
    simp only [String.append_assoc] at said
    exact absurd said (append_ne_of_start (by decide) _)

theorem LexicalFault.message_ne_unexpectedEnd (fault : LexicalFault) :
    fault.message ≠ "Unexpected end of input" := by
  unfold message
  cases fault
  case unterminatedString => decide
  all_goals
    simp only [String.append_assoc]
    exact append_ne_of_start (by decide) _

theorem LexicalFault.eq_unterminatedString {fault : LexicalFault}
    (said : fault.message = "Unterminated string") : fault = .unterminatedString := by
  unfold message at said
  cases fault
  case unterminatedString => rfl
  all_goals
    simp only [String.append_assoc] at said
    exact absurd said (append_ne_of_start (by decide) _)

theorem parse_says (text : String) :
    FailsWith (fun d => (d.cause.message = "Unexpected end of input" → d.cause = .syntactic .unexpectedEnd) ∧
      (d.cause.message = "Unterminated string" → d.cause = .lexical .unterminatedString)) (parse text) := by
  have answer := tokenize_answer text
  unfold parse
  cases lexed : tokenize text with
  | error d =>
      rw [lexed] at answer
      cases answer with
      | @refused _ _ _ _ _ fault _ =>
      refine .error ⟨fun said => absurd said fault.message_ne_unexpectedEnd, fun said => ?_⟩
      exact congrArg Cause.lexical (LexicalFault.eq_unterminatedString said)
  | ok tokens =>
      rw [lexed] at answer
      cases answer with
      | @read proper gap p _ _ _ =>
      have ended : ∃ t ∈ proper ++ [.eof p], t.lexeme = .eof := ⟨.eof p, by simp, rfl⟩
      intro d failed
      obtain ⟨_, fault, cause⟩ := Parser.parseTokens_refusal ended d failed
      rw [cause]
      refine ⟨fun said => congrArg Cause.syntactic (SyntaxFault.eq_unexpectedEnd said), fun said => ?_⟩
      exact absurd said fault.message_ne_unterminated

end Messages

/-- More lines are asked for only where the text cannot be parsed as it is, and always where it is refused
because it ends too early. -/
theorem isInputComplete_agrees (text : String) :
    (isInputComplete text = false → ∃ d, parse text = .error d) ∧
    ∀ d, parse text = .error d →
      d.cause.message = "Unexpected end of input" ∨ d.cause.message = "Unterminated string" →
      isInputComplete text = false := by
  have complete := parse_complete text
  constructor
  · intro waits
    cases parsed : parse text with
    | error d => exact ⟨d, rfl⟩
    | ok program =>
        rw [parsed, waits] at complete
        cases complete
  · intro d failed said
    obtain ⟨early, inside⟩ := parse_says text d failed
    rw [failed] at complete
    exact complete (said.imp early inside)

def refusal? (text : String) : Option String :=
  match parse text with
  | .error d => some d.cause.message
  | .ok _ => none

theorem parse_refusal {text message : String} (found : refusal? text = some message) :
    ∃ d, parse text = .error d ∧ d.cause.message = message := by
  unfold refusal? at found
  split at found
  next d refused => exact ⟨d, refused, Option.some.inj found⟩
  next => cases found

theorem unfinished_waits :
    (∃ d, parse "(f ; )\n" = .error d) ∧
    isInputComplete "(defn f [x" = false ∧ isInputComplete "(f \")\\\"" = false := by
  obtain ⟨early, first, form⟩ :=
    parse_refusal (by decide +kernel : refusal? "(defn f [x" = some "Unexpected end of input")
  obtain ⟨inside, second, string⟩ :=
    parse_refusal (by decide +kernel : refusal? "(f \")\\\"" = some "Unterminated string")
  exact ⟨(isInputComplete_agrees _).1 (by decide), (isInputComplete_agrees _).2 early first (.inl form),
    (isInputComplete_agrees _).2 inside second (.inr string)⟩

end LispMachine
