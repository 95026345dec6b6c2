import LispMachine.Proofs.Except
import LispMachine.Proofs.Token.Offsets

set_option autoImplicit false

namespace LispMachine

namespace Position

def sinceNewline (before : List Char) : Nat := (before.reverse.takeWhile (· ≠ '\n')).length

/-- The place behind the characters `before` of a text. Line and column are numbers of 32 bits. -/
structure Ends (before : List Char) (p : Position) : Prop where
  offset : p.offset = before.length
  line : p.line = 1 + UInt32.ofNat (before.count '\n')
  column : p.column = 1 + UInt32.ofNat (sinceNewline before)

/-- The same with numbers that never wrap around. -/
structure Exact (before : List Char) (p : Position) : Prop where
  offset : p.offset = before.length
  line : p.line.toNat = 1 + before.count '\n'
  column : p.column.toNat = 1 + sinceNewline before

namespace Ends

variable {before : List Char} {p : Position}

theorem start : Ends [] start := ⟨rfl, rfl, rfl⟩

theorem advance (ends : Ends before p) (c : Char) : Ends (before ++ [c]) (p.advance c) where
  offset := by simp [ends.offset]
  line := by
    by_cases newline : c = '\n'
    · subst newline
      simp [Position.advance, ends.line, UInt32.ofNat_add, UInt32.add_assoc]
    · simp [Position.advance, ends.line, newline]
  column := by
    by_cases newline : c = '\n'
    · subst newline
      simp [Position.advance, sinceNewline]
    · simp [Position.advance, ends.column, newline, sinceNewline, UInt32.ofNat_add, UInt32.add_assoc]

theorem after (ends : Ends before p) (text : List Char) : Ends (before ++ text) (p.after text) := by
  induction text generalizing before p with
  | nil => simpa using ends
  | cons c rest ih => simpa using ih (ends.advance c)

theorem sinceNewline_le (before : List Char) : sinceNewline before ≤ before.length := by
  simpa [sinceNewline] using (List.takeWhile_sublist (· ≠ '\n') (l := before.reverse)).length_le

theorem exact (ends : Ends before p) (short : before.length + 1 < UInt32.size) : Exact before p := by
  have lines : before.count '\n' ≤ before.length := List.count_le_length
  have columns := sinceNewline_le before
  have one : (1 : UInt32).toNat = 1 := rfl
  have size : UInt32.size = 4294967296 := rfl
  refine ⟨ends.offset, ?_, ?_⟩
  · rw [ends.line, UInt32.toNat_add, UInt32.toNat_ofNat', one]
    omega
  · rw [ends.column, UInt32.toNat_add, UInt32.toNat_ofNat', one]
    omega

end Ends

end Position

def Token.Maximal (t : Token) (behind : List Char) : Prop :=
  ∀ c ∈ t.text.toList.head?, isSymbolChar c = true →
    (∀ d ∈ t.text.toList, isSymbolChar d = true) ∧ ∀ d ∈ behind.head?, isSymbolChar d = false

namespace Lexer

/-- What may stand between two tokens: blanks, commas, and comments to the end of their line. Behind the
last token a comment may also run to the end of the text. -/
inductive Gap (last : Bool) : List Char → Prop
  | nil : Gap last []
  | blank {c rest} : Text.isBlank c = true ∨ c = ',' → Gap last rest → Gap last (c :: rest)
  | comment {body rest} : '\n' ∉ body → Gap last rest → Gap last (';' :: (body ++ '\n' :: rest))
  | unended {body} : last = true → '\n' ∉ body → Gap last (';' :: body)

structure Solid (c : Char) : Prop where
  blank : Text.isBlank c = false
  comma : c ≠ ','
  semicolon : c ≠ ';'

theorem line_cases (cs : List Char) :
    '\n' ∉ cs ∨ ∃ body rest, '\n' ∉ body ∧ cs = body ++ '\n' :: rest := by
  induction cs with
  | nil => exact .inl List.not_mem_nil
  | cons c cs ih =>
      by_cases newline : c = '\n'
      · exact .inr ⟨[], cs, List.not_mem_nil, by rw [newline, List.nil_append]⟩
      · have other : '\n' ≠ c := Ne.symm newline
        rcases ih with inside | ⟨body, rest, inside, rfl⟩
        · exact .inl (by simp [other, inside])
        · exact .inr ⟨c :: body, rest, by simp [other, inside], rfl⟩

theorem gap_cases (cs : List Char) :
    Gap true cs ∨ ∃ gap c rest, Gap false gap ∧ Solid c ∧ cs = gap ++ c :: rest := by
  match cs with
  | [] => exact .inl .nil
  | c :: cs =>
      by_cases comment : c = ';'
      · subst comment
        rcases line_cases cs with inside | ⟨body, more, inside, rfl⟩
        · exact .inl (.unended rfl inside)
        · rcases gap_cases more with last | ⟨gap, c, rest, skipped, solid, rfl⟩
          · exact .inl (.comment inside last)
          · exact .inr ⟨';' :: (body ++ '\n' :: gap), c, rest, .comment inside skipped, solid, by simp⟩
      · by_cases blank : Text.isBlank c = true ∨ c = ','
        · rcases gap_cases cs with last | ⟨gap, d, rest, skipped, solid, rfl⟩
          · exact .inl (.blank blank last)
          · exact .inr ⟨c :: gap, d, rest, .blank blank skipped, solid, rfl⟩
        · rw [not_or, Bool.not_eq_true] at blank
          exact .inr ⟨[], c, cs, .nil, ⟨blank.1, blank.2, comment⟩, rfl⟩
termination_by cs.length

namespace Source

theorem skipGapFrom_comment {body : List Char} (inside : '\n' ∉ body) (rest : List Char) (p : Position) :
    skipGapFrom true (body ++ rest) p = skipGapFrom true rest (p.after body) := by
  induction body generalizing p with
  | nil => rfl
  | cons c body ih =>
      simp only [List.mem_cons, not_or] at inside
      have other : c ≠ '\n' := Ne.symm inside.1
      simp [skipGapFrom, other, ih inside.2]

theorem skipGapFrom_gap {last : Bool} {gap rest : List Char} (skipped : Gap last gap)
    (stop : last = true → rest = []) (p : Position) :
    skipGapFrom false (gap ++ rest) p = skipGapFrom false rest (p.after gap) := by
  induction skipped generalizing p with
  | nil => rfl
  | @blank c gap blank _ ih =>
      have code : c ≠ ';' := by
        rintro rfl
        revert blank
        decide
      simp [skipGapFrom, code, blank, ih]
  | comment inside _ ih => simp [skipGapFrom, skipGapFrom_comment inside, Position.after_append, ih]
  | @unended body final inside =>
      have skips := skipGapFrom_comment inside [] (p.advance ';')
      rw [stop final]
      simpa [skipGapFrom] using skips

theorem skipGapFrom_solid {c : Char} (solid : Solid c) (rest : List Char) (p : Position) :
    skipGapFrom false (c :: rest) p = ⟨c :: rest, p⟩ := by
  simp [skipGapFrom, solid.blank, solid.comma, solid.semicolon]

theorem next_end {gap : List Char} (skipped : Gap true gap) (p : Position) :
    next ⟨gap, p⟩ = (.ok (.eof (p.after gap)), ⟨[], p.after gap⟩) := by
  have skips := skipGapFrom_gap skipped (fun _ => rfl) p
  rw [List.append_nil] at skips
  simp [next, skipGap, skips, skipGapFrom]

theorem next_scan {gap : List Char} {c : Char} (skipped : Gap false gap) (solid : Solid c) (cs : List Char)
    (p : Position) : next ⟨gap ++ c :: cs, p⟩ =
      (match (scan c cs).meaning with
        | .ok (lexeme, literal) => .ok ⟨lexeme, String.ofList (scan c cs).raw, literal, p.after gap⟩
        | .error fault => Diagnostic.lexical fault (p.after gap),
        ⟨(scan c cs).rest, (p.after gap).after (scan c cs).raw⟩) := by
  have skips : skipGapFrom false (gap ++ c :: cs) p = skipGapFrom false (c :: cs) (p.after gap) :=
    skipGapFrom_gap skipped (by simp) p
  simp only [next, skipGap, skips, skipGapFrom_solid solid]
  split <;> simp_all

end Source

section Scan

variable {c : Char} {cs : List Char} {lexeme : Lexeme} {literal : Option Datum}

theorem number_lexeme {run : List Char} (read : number run = .ok (lexeme, literal)) :
    lexeme = .long ∨ lexeme = .double ∨ lexeme = .unknown := by
  simp only [number, integer] at read
  generalize (if isNegative run then _ else _ : Int) = n at read
  repeat' split at read
  all_goals cases read
  all_goals simp

theorem symbolRun_ne_eof {run : List Char} (read : symbolRun run = .ok (lexeme, literal)) :
    lexeme ≠ .eof := by
  unfold symbolRun at read
  split at read
  next found =>
    cases read
    unfold Lexeme.reserved? at found
    split at found <;> cases found <;> decide
  next =>
    split at read
    · rcases number_lexeme read with rfl | rfl | rfl <;> decide
    · cases read
      decide

theorem scanString_lexeme {raw value : List Char}
    (read : (scanString raw value cs).meaning = .ok (lexeme, literal)) : lexeme = .str := by
  fun_induction scanString raw value cs with
  | case1 | case3 | case5 => cases read
  | case2 =>
      cases read
      rfl
  | case4 _ _ _ _ _ _ _ ih | case6 _ _ _ _ _ _ ih => exact ih read

theorem scan_ne_eof (read : (scan c cs).meaning = .ok (lexeme, literal)) : lexeme ≠ .eof := by
  unfold scan at read
  split at read
  next found =>
    cases read
    unfold Lexeme.delimiter? at found
    split at found <;> cases found <;> decide
  next =>
    split at read
    · rw [scanString_lexeme read]
      decide
    · split at read
      · exact symbolRun_ne_eof read
      · cases read
        decide

theorem scan_run (symbol : isSymbolChar c = true) (cs : List Char) :
    scan c cs = ⟨c :: cs.takeWhile isSymbolChar, symbolRun (c :: cs.takeWhile isSymbolChar),
      cs.dropWhile isSymbolChar⟩ := by
  have plain : Lexeme.delimiter? c = none := by
    unfold Lexeme.delimiter?
    split <;> first | rfl | (revert symbol; decide)
  have unquoted : c ≠ '"' := by
    rintro rfl
    revert symbol
    decide
  simp [scan, plain, unquoted, symbol]

end Scan

namespace Source

variable {gap : List Char} {c : Char} {cs : List Char} {p : Position}

theorem tokensFrom_append (s : Source) (later earlier : List Token) :
    s.tokensFrom (later ++ earlier) = (s.tokensFrom later).map (earlier.reverse ++ ·) := by
  fun_induction tokensFrom s later with
  | case1 s later d behind failed =>
      rw [tokensFrom]
      split
      next failed' => cases failed.symm.trans failed'; rfl
      next found => cases failed.symm.trans found
  | case2 s later t behind found eof =>
      rw [tokensFrom]
      split
      next failed => cases found.symm.trans failed
      next found' =>
        cases found.symm.trans found'
        simp [eof, Except.map]
  | case3 s later t behind found more ih =>
      rw [tokensFrom]
      split
      next failed => cases found.symm.trans failed
      next found' =>
        cases found.symm.trans found'
        rw [dif_neg more]
        exact ih

theorem tokensFrom_end (skipped : Gap true gap) : tokensFrom ⟨gap, p⟩ [] = .ok [.eof (p.after gap)] := by
  rw [tokensFrom]
  split
  next failed => cases (next_end skipped p).symm.trans failed
  next found =>
    cases (next_end skipped p).symm.trans found
    simp [Token.eof, Token.plain]

theorem tokensFrom_scan (skipped : Gap false gap) (solid : Solid c) {lexeme : Lexeme}
    {literal : Option Datum} (read : (scan c cs).meaning = .ok (lexeme, literal)) :
    tokensFrom ⟨gap ++ c :: cs, p⟩ [] =
      (tokensFrom ⟨(scan c cs).rest, (p.after gap).after (scan c cs).raw⟩ []).map
        (⟨lexeme, String.ofList (scan c cs).raw, literal, p.after gap⟩ :: ·) := by
  have scanned := next_scan skipped solid cs p
  rw [read] at scanned
  rw [tokensFrom]
  split
  next failed => cases scanned.symm.trans failed
  next found =>
    cases scanned.symm.trans found
    rw [dif_neg (scan_ne_eof read)]
    exact tokensFrom_append _ [] [_]

theorem tokensFrom_refused (skipped : Gap false gap) (solid : Solid c) {fault : LexicalFault}
    (refused : (scan c cs).meaning = .error fault) :
    tokensFrom ⟨gap ++ c :: cs, p⟩ [] = .error ⟨.lexical fault, p.after gap⟩ := by
  have scanned := next_scan skipped solid cs p
  rw [refused] at scanned
  rw [tokensFrom]
  split
  next failed =>
    cases scanned.symm.trans failed
    rfl
  next found => cases scanned.symm.trans found

end Source

/-- Behind the characters `front` the text goes on with `text`: first these tokens, each with a gap before
it, and then `rest`. -/
inductive Spelled : List Char → List Token → List Char → List Char → Prop
  | nil {front rest} : Spelled front [] rest rest
  | cons {front gap t tokens text rest} : Gap false gap → t.lexeme ≠ .eof →
      t.position.Ends (front ++ gap) → t.Maximal text →
      Spelled (front ++ gap ++ t.text.toList) tokens text rest →
      Spelled front (t :: tokens) (gap ++ (t.text.toList ++ text)) rest

inductive Answer (front text : List Char) : Except Diagnostic (List Token) → Prop
  | read {tokens gap p} : Spelled front tokens text gap → Gap true gap → p.Ends (front ++ text) →
      Answer front text (.ok (tokens ++ [.eof p]))
  | refused {tokens consumed gap c cs fault p} : Spelled front tokens text (gap ++ c :: cs) →
      text = consumed ++ gap ++ c :: cs → Gap false gap → Solid c →
      (scan c cs).meaning = .error fault → p.Ends (front ++ consumed ++ gap) →
      Answer front text (.error ⟨.lexical fault, p⟩)

theorem scan_maximal (c : Char) (cs : List Char) {t : Token}
    (spelled : t.text = String.ofList (scan c cs).raw) : t.Maximal (scan c cs).rest := by
  intro d first symbol
  have whole := scan_append c cs
  have start := Source.scan_raw_ne_nil c cs
  rw [spelled, String.toList_ofList] at first ⊢
  obtain ⟨raw, shape⟩ := List.head?_eq_some_iff.mp first
  rw [shape, List.cons_append, List.cons.injEq] at whole
  obtain ⟨rfl, whole⟩ := whole
  rw [scan_run symbol]
  constructor
  · intro e member
    rcases List.mem_cons.mp member with rfl | member
    · exact symbol
    · exact List.all_eq_true.mp List.all_takeWhile e member
  · intro e next
    have stops := List.head?_dropWhile_not isSymbolChar cs
    rw [Option.mem_def.mp next] at stops
    exact stops

theorem Answer.cons {front gap text : List Char} {t : Token} {x : Except Diagnostic (List Token)}
    (skipped : Gap false gap) (proper : t.lexeme ≠ .eof) (ends : t.position.Ends (front ++ gap))
    (maximal : t.Maximal text) (answer : Answer (front ++ gap ++ t.text.toList) text x) :
    Answer front (gap ++ (t.text.toList ++ text)) (x.map (t :: ·)) := by
  cases answer with
  | read spelled last stop =>
      exact .read (.cons skipped proper ends maximal spelled) last (by simpa using stop)
  | @refused tokens consumed gap' c cs fault p spelled shape skipped' solid failed stop =>
      have whole : gap ++ (t.text.toList ++ text) = (gap ++ t.text.toList ++ consumed) ++ gap' ++ c :: cs := by
        simp [shape]
      exact .refused (.cons skipped proper ends maximal spelled) whole skipped' solid failed (by simpa using stop)

namespace Source

theorem tokensFrom_answer (text : List Char) {front : List Char} {p : Position} (ends : p.Ends front) :
    Answer front text (tokensFrom ⟨text, p⟩ []) := by
  rcases gap_cases text with last | ⟨gap, c, cs, skipped, solid, shape⟩
  · rw [tokensFrom_end last]
    exact .read .nil last (ends.after text)
  · have stop := ends.after gap
    cases found : (scan c cs).meaning with
    | error fault =>
        rw [shape, tokensFrom_refused skipped solid found]
        have whole : gap ++ c :: cs = [] ++ gap ++ c :: cs := rfl
        exact .refused .nil whole skipped solid found (by simpa using stop)
    | ok meaning =>
        obtain ⟨lexeme, literal⟩ := meaning
        have shorter : (scan c cs).rest.length < text.length := by
          have := length_scan_rest c cs
          simp only [shape, List.length_append, List.length_cons]
          omega
        have later := tokensFrom_answer (scan c cs).rest (stop.after (scan c cs).raw)
        have answer := Answer.cons (t := ⟨lexeme, String.ofList (scan c cs).raw, literal, p.after gap⟩)
          skipped (scan_ne_eof found) stop (scan_maximal c cs rfl) (by simpa using later)
        rw [shape, tokensFrom_scan skipped solid found]
        simpa [scan_append] using answer
termination_by text.length

end Source

theorem tokenize_answer (text : String) : Answer [] text.toList (tokenize text) :=
  Source.tokensFrom_answer text.toList .start

theorem Spelled.ends {front text rest : List Char} {tokens : List Token}
    (spelled : Spelled front tokens text rest) :
    ∀ t ∈ tokens, ∃ before behind, text = before ++ behind ∧ t.position.Ends (front ++ before) := by
  induction spelled with
  | nil => simp
  | @cons front gap t tokens text rest _ _ ends _ _ ih =>
      intro t' member
      rcases List.mem_cons.mp member with rfl | member
      · exact ⟨gap, t'.text.toList ++ text, rfl, ends⟩
      · obtain ⟨before, behind, rfl, ends⟩ := ih t' member
        refine ⟨gap ++ t.text.toList ++ before, behind, ?_, ?_⟩
        · simp only [List.append_assoc]
        · simpa only [List.append_assoc] using ends

theorem Spelled.proper {front text rest : List Char} {tokens : List Token}
    (spelled : Spelled front tokens text rest) : ∀ t ∈ tokens, t.lexeme ≠ .eof := by
  induction spelled with
  | nil => simp
  | cons _ proper _ _ _ ih => exact List.forall_mem_cons.mpr ⟨proper, ih⟩

end Lexer

def Position.Within (text : List Char) (p : Position) : Prop :=
  p.offset ≤ text.length ∧ p.Ends (text.take p.offset)

theorem Position.Ends.within {before : List Char} {p : Position} (ends : p.Ends before) (behind : List Char) :
    p.Within (before ++ behind) := by
  have offset := ends.offset
  constructor
  · simp [offset]
  · rwa [offset, List.take_left]

theorem Position.Within.exact {text : List Char} {p : Position} (within : p.Within text)
    (short : text.length + 1 < UInt32.size) : p.Exact (text.take p.offset) := by
  obtain ⟨inside, ends⟩ := within
  apply ends.exact
  rw [List.length_take, Nat.min_eq_left inside]
  omega

theorem tokenize_within {text : String} {tokens : List Token} (read : tokenize text = .ok tokens) :
    ∀ t ∈ tokens, t.position.Within text.toList := by
  have answer := Lexer.tokenize_answer text
  rw [read] at answer
  cases answer with
  | @read proper gap p spelled last stop =>
  intro t member
  rcases List.mem_append.mp member with member | member
  · obtain ⟨before, behind, shape, ends⟩ := spelled.ends t member
    rw [shape]
    exact ends.within behind
  · cases List.mem_singleton.mp member
    show p.Within text.toList
    simpa using stop.within []

/-- The characters of a text are those of its tokens and of the gaps between them, and a token stands
where the characters before it end. -/
theorem tokenize_lossless {text : String} {tokens : List Token} (short : text.length + 1 < UInt32.size)
    (read : tokenize text = .ok tokens) :
    (∃ (proper : List Token) (gap : List Char) (p : Position), tokens = proper ++ [Token.eof p] ∧
      Lexer.Spelled [] proper text.toList gap ∧ Lexer.Gap true gap ∧ p.Ends text.toList) ∧
    tokens.Pairwise (fun a b => a.position.offset < b.position.offset) ∧
    ∀ t ∈ tokens, t.position.Exact (text.toList.take t.position.offset) := by
  have increasing := tokenize_increasing read
  have within := tokenize_within read
  have answer := Lexer.tokenize_answer text
  rw [read] at answer
  rw [← String.length_toList] at short
  cases answer with
  | @read proper gap p spelled last stop =>
  exact ⟨⟨proper, gap, p, rfl, spelled, last, stop⟩, increasing, fun t member => (within t member).exact short⟩

def twoLines : String := "(f\"a\nb\"), ; end"

def twoLinesTokens : List Token :=
  [⟨.leftParen, "(", none, ⟨1, 1, 0⟩⟩, ⟨.ident, "f", none, ⟨1, 2, 1⟩⟩,
    ⟨.str, "\"a\nb\"", some (.str "a\nb"), ⟨1, 3, 2⟩⟩, ⟨.rightParen, ")", none, ⟨2, 3, 7⟩⟩,
    .eof ⟨2, 11, 15⟩]

theorem twoLines_lossless : tokenize twoLines = .ok twoLinesTokens ∧
    (∃ gap, Lexer.Spelled [] twoLinesTokens.dropLast twoLines.toList gap ∧ Lexer.Gap true gap) ∧
    Position.Exact twoLines.toList ⟨2, 11, 15⟩ := by
  have read : tokenize twoLines = .ok twoLinesTokens := eq_ok_of_toOption (by decide +kernel)
  obtain ⟨⟨proper, gap, p, shape, spelled, last, _⟩, _, places⟩ := tokenize_lossless (by decide) read
  refine ⟨read, ⟨gap, ?_, last⟩, ?_⟩
  · rw [shape, List.dropLast_concat]
    exact spelled
  · have stop := places (.eof ⟨2, 11, 15⟩) (by simp [twoLinesTokens])
    simpa [Token.eof, Token.plain, twoLines] using stop

section Blanks

theorem Lexer.Gap.blanks {last : Bool} (n : Nat) : Gap last (List.replicate n ' ') := by
  induction n with
  | zero => exact .nil
  | succ n ih => exact .blank (.inl rfl) ih

theorem Position.after_blanks (p : Position) (n : Nat) :
    p.after (List.replicate n ' ') = ⟨p.line, p.column + UInt32.ofNat n, p.offset + n⟩ := by
  induction n generalizing p with
  | zero => simp
  | succ n ih =>
      rw [List.replicate_succ, after_cons, ih]
      simp [advance, UInt32.ofNat_add, UInt32.add_assoc, UInt32.add_comm 1, Nat.add_assoc, Nat.add_comm 1]

theorem Position.not_exact_of_column {p : Position} (wrapped : p.column = 0) (before : List Char) :
    ¬ p.Exact before := by
  intro exact
  have column := exact.column
  rw [wrapped, UInt32.toNat_zero] at column
  omega

def blanks (n : Nat) : String := String.ofList (List.replicate n ' ')

theorem length_blanks (n : Nat) : (blanks n).length = n := by
  rw [blanks, String.length_ofList, List.length_replicate]

theorem tokenize_blanks (n : Nat) : tokenize (blanks n) = .ok [.eof ⟨1, 1 + UInt32.ofNat n, n⟩] := by
  have read := Lexer.Source.tokensFrom_end (p := .start) (Lexer.Gap.blanks n)
  rw [Position.after_blanks, Position.start, Nat.zero_add] at read
  rw [tokenize, Lexer.Source.ofText, blanks, String.toList_ofList]
  exact read

-- The column of the end wraps around when the text is as long as it can be.
theorem blanks_end_inexact : ∃ p, (blanks (UInt32.size - 1)).length < UInt32.size ∧
    tokenize (blanks (UInt32.size - 1)) = .ok [.eof p] ∧
    ¬ p.Exact ((blanks (UInt32.size - 1)).toList.take p.offset) := by
  refine ⟨_, ?_, tokenize_blanks _, Position.not_exact_of_column rfl _⟩
  rw [length_blanks]
  decide

end Blanks

end LispMachine
