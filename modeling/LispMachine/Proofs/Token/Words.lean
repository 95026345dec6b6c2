import LispMachine.Proofs.Token.Lossless

set_option autoImplicit false

namespace LispMachine

structure Word where
  lexeme : Lexeme
  text : String
  literal : Option Datum
  deriving DecidableEq

def Token.word (t : Token) : Word := ⟨t.lexeme, t.text, t.literal⟩

def Word.ident (name : String) : Word := ⟨.ident, name, none⟩

theorem Token.word_eq_ident {t : Token} {name : String} (same : t.word = .ident name) :
    t.lexeme = .ident ∧ t.text = name := by
  simp only [word, Word.ident, Word.mk.injEq] at same
  exact ⟨same.1, same.2.1⟩

namespace Lexer

def Stops (behind : List Char) : Prop := ∀ c ∈ behind.head?, isSymbolChar c = false

theorem stops_nil : Stops [] := by simp [Stops]

theorem stops_cons {c : Char} (plain : isSymbolChar c = false) (behind : List Char) : Stops (c :: behind) := by
  intro d first
  cases Option.mem_some.mp first
  exact plain

theorem stops_space (behind : List Char) : Stops (' ' :: behind) := stops_cons (by decide) behind

def ReadBefore (behind : List Char) (w : Word) : Prop :=
  ∃ c cs, w.text.toList = c :: cs ∧ Solid c ∧
    scan c (cs ++ behind) = ⟨c :: cs, .ok (w.lexeme, w.literal), behind⟩

inductive Written : List Word → List Char → Prop
  | nil {gap} : Gap true gap → Written [] gap
  | cons {gap w words text} : Gap false gap → ReadBefore text w → Written words text →
      Written (w :: words) (gap ++ (w.text.toList ++ text))

namespace Written

variable {words : List Word} {text : List Char}

theorem here {w : Word} (read : ReadBefore text w) (written : Written words text) :
    Written (w :: words) (w.text.toList ++ text) := .cons .nil read written

theorem space (written : Written words text) : Written words (' ' :: text) := by
  have blank : Text.isBlank ' ' = true ∨ ' ' = ',' := .inl rfl
  cases written with
  | nil gap => exact .nil (.blank blank gap)
  | cons gap read rest => exact .cons (.blank blank gap) read rest

theorem tokensFrom_words (written : Written words text) (p : Position) :
    ∃ tokens q, Source.tokensFrom ⟨text, p⟩ [] = .ok (tokens ++ [.eof q]) ∧
      tokens.map Token.word = words ∧ ∀ t ∈ tokens, t.lexeme ≠ .eof := by
  induction written generalizing p with
  | nil gap => exact ⟨[], _, Source.tokensFrom_end gap, rfl, by simp⟩
  | @cons gap w words text skipped read _ ih =>
      obtain ⟨c, cs, spelling, solid, scanned⟩ := read
      obtain ⟨tokens, q, others, same, proper⟩ := ih ((p.after gap).after (c :: cs))
      have meaning : (scan c (cs ++ text)).meaning = .ok (w.lexeme, w.literal) := by rw [scanned]
      have first := Source.tokensFrom_scan skipped solid meaning (p := p)
      rw [scanned, others, ← spelling, String.ofList_toList] at first
      rw [spelling, List.cons_append]
      refine ⟨_ :: tokens, q, first, by rw [List.map_cons, same]; rfl, ?_⟩
      exact List.forall_mem_cons.mpr ⟨scan_ne_eof meaning, proper⟩

end Written

section Spellings

variable {behind : List Char}

structure Delimits (w : Word) : Prop where
  read (behind : List Char) : ReadBefore behind w
  stops (behind : List Char) : Stops (w.text.toList ++ behind)

theorem Delimits.of_delimiter? {c : Char} {lexeme : Lexeme} (found : Lexeme.delimiter? c = some lexeme) :
    Delimits ⟨lexeme, String.singleton c, none⟩ := by
  have solid : Solid c ∧ isSymbolChar c = false := by
    unfold Lexeme.delimiter? at found
    split at found
    case h_7 => cases found
    all_goals exact ⟨⟨rfl, by decide, by decide⟩, by decide⟩
  refine ⟨fun behind => ⟨c, [], by simp, solid.1, by simp [scan, found]⟩, fun behind => ?_⟩
  rw [String.toList_singleton]
  exact stops_cons solid.2 behind

-- The blank characters are few, so this is seen by looking at each.
theorem isBlank_eq_false {c : Char} (symbol : isSymbolChar c = true) : Text.isBlank c = false := by
  have blanks : ∀ n ∈ [9, 10, 11, 12, 13, 0x20, 0x85, 0xa0, 0x1680, 0x2000, 0x2001, 0x2002, 0x2003, 0x2004,
      0x2005, 0x2006, 0x2007, 0x2008, 0x2009, 0x200a, 0x2028, 0x2029, 0x202f, 0x205f, 0x3000],
      isSymbolChar (Char.ofNat n) = false := by decide +kernel
  cases blank : Text.isBlank c with
  | false => rfl
  | true =>
      have listed := blanks c.toNat
      rw [Char.ofNat_toNat, symbol] at listed
      simp only [Text.isBlank, Bool.or_eq_true, Bool.and_eq_true, decide_eq_true_eq] at blank
      simp only [List.mem_cons, List.not_mem_nil, or_false, Bool.true_eq_false, imp_false] at listed
      omega

theorem Solid.of_isSymbolChar {c : Char} (symbol : isSymbolChar c = true) : Solid c := by
  refine ⟨isBlank_eq_false symbol, ?_, ?_⟩ <;>
  · rintro rfl
    revert symbol
    decide

theorem scan_symbols {c : Char} {cs : List Char} (symbols : ∀ d ∈ c :: cs, isSymbolChar d = true)
    (stops : Stops behind) : scan c (cs ++ behind) = ⟨c :: cs, symbolRun (c :: cs), behind⟩ := by
  obtain ⟨first, others⟩ := List.forall_mem_cons.mp symbols
  have none : behind.takeWhile isSymbolChar = [] ∧ behind.dropWhile isSymbolChar = behind := by
    cases behind with
    | nil => exact ⟨rfl, rfl⟩
    | cons d behind =>
        have plain := stops d rfl
        simp [plain]
  rw [scan_run first, List.takeWhile_append_of_pos others, List.dropWhile_append_of_pos others, none.1,
    none.2, List.append_nil]

structure IsRun (w : Word) : Prop where
  some : w.text.toList ≠ []
  symbols : ∀ c ∈ w.text.toList, isSymbolChar c = true
  meaning : symbolRun w.text.toList = .ok (w.lexeme, w.literal)

theorem IsRun.readBefore {w : Word} (run : IsRun w) (stops : Stops behind) : ReadBefore behind w := by
  obtain ⟨some, symbols, meaning⟩ := run
  obtain ⟨c, cs, spelling⟩ := List.exists_cons_of_ne_nil some
  rw [spelling] at symbols meaning
  refine ⟨c, cs, spelling, .of_isSymbolChar (symbols c (.head _)), ?_⟩
  rw [scan_symbols symbols stops, meaning]

theorem isRun_reserved {text : String} {lexeme : Lexeme} (found : Lexeme.reserved? text = some lexeme) :
    IsRun ⟨lexeme, text, none⟩ := by
  have meaning : symbolRun text.toList = .ok (lexeme, none) := by
    rw [symbolRun, String.ofList_toList, found]
  have spelled : text.toList ≠ [] ∧ text.toList.all isSymbolChar = true := by
    clear meaning
    unfold Lexeme.reserved? at found
    split at found
    case h_11 => cases found
    all_goals exact ⟨by decide, by decide⟩
  exact ⟨spelled.1, List.all_eq_true.mp spelled.2, meaning⟩

end Spellings

theorem symbolRun_ident {run : List Char} {literal : Option Datum}
    (read : symbolRun run = .ok (.ident, literal)) : literal = none := by
  unfold symbolRun at read
  split at read
  · cases read
    rfl
  · split at read
    · simpa using number_lexeme read
    · cases read
      rfl

structure OfRun (lexeme : Lexeme) : Prop where
  delimiter (c : Char) : Lexeme.delimiter? c ≠ some lexeme
  others : lexeme ≠ .str ∧ lexeme ≠ .unknown ∧ lexeme ≠ .eof

theorem ofRun_ident : OfRun .ident := by
  refine ⟨fun c found => ?_, by decide⟩
  unfold Lexeme.delimiter? at found
  split at found <;> cases found

theorem ofRun_double : OfRun .double := by
  refine ⟨fun c found => ?_, by decide⟩
  unfold Lexeme.delimiter? at found
  split at found <;> cases found

theorem scan_isRun {c : Char} {cs : List Char} {lexeme : Lexeme} {literal : Option Datum}
    (read : (scan c cs).meaning = .ok (lexeme, literal)) (ofRun : OfRun lexeme) :
    IsRun ⟨lexeme, String.ofList (scan c cs).raw, literal⟩ := by
  by_cases symbol : isSymbolChar c = true
  · rw [scan_run symbol] at read ⊢
    refine ⟨by simp, ?_, by rwa [String.toList_ofList]⟩
    rw [String.toList_ofList]
    exact List.forall_mem_cons.mpr ⟨symbol, List.all_eq_true.mp List.all_takeWhile⟩
  · unfold scan at read
    split at read
    next found =>
      cases read
      exact absurd found (ofRun.delimiter c)
    next =>
      split at read
      · exact absurd (scanString_lexeme read) ofRun.others.1
      · cases read
        exact absurd rfl ofRun.others.2.1

namespace Source

theorem next_isRun {s behind : Source} {t : Token} (read : s.next = (.ok t, behind))
    (ofRun : OfRun t.lexeme) : IsRun t.word := by
  simp only [next] at read
  split at read
  next =>
    cases read
    exact absurd rfl ofRun.others.2.2
  next c cs rest =>
    split at read <;> cases read
    next found => exact scan_isRun found ofRun

theorem tokensFrom_isRun {s : Source} {before tokens : List Token} (read : s.tokensFrom before = .ok tokens)
    (runs : ∀ t ∈ before, OfRun t.lexeme → IsRun t.word) : ∀ t ∈ tokens, OfRun t.lexeme → IsRun t.word := by
  fun_induction tokensFrom s before with
  | case1 => cases read
  | case2 s before t rest found eof =>
      cases read
      intro t' member
      rcases List.mem_cons.mp (List.mem_reverse.mp member) with rfl | member
      · exact next_isRun found
      · exact runs t' member
  | case3 s before t rest found more ih =>
      exact ih read (List.forall_mem_cons.mpr ⟨next_isRun found, runs⟩)

end Source

theorem tokenize_isRun {text : String} {tokens : List Token} (lexed : tokenize text = .ok tokens) :
    ∀ t ∈ tokens, OfRun t.lexeme → IsRun t.word :=
  Source.tokensFrom_isRun lexed (by simp)

theorem tokenize_ident {text : String} {tokens : List Token} (lexed : tokenize text = .ok tokens) :
    ∀ t ∈ tokens, t.lexeme = .ident → IsRun (.ident t.text) := by
  intro t member ident
  have run := tokenize_isRun lexed t member (ident ▸ ofRun_ident)
  have none := run.meaning
  simp only [Token.word, ident] at run none
  rwa [symbolRun_ident none] at run

theorem tokenize_isRun_text {w : Word} (run : IsRun w) :
    ∃ p q, tokenize w.text = .ok [⟨w.lexeme, w.text, w.literal, p⟩, .eof q] := by
  have written : Written [w] (w.text.toList ++ []) := .here (run.readBefore stops_nil) (.nil .nil)
  rw [List.append_nil] at written
  obtain ⟨tokens, q, read, same, _⟩ := written.tokensFrom_words .start
  obtain ⟨t, rfl, rfl⟩ := List.map_eq_singleton_iff.mp same
  exact ⟨t.position, q, read⟩

end Lexer

end LispMachine
