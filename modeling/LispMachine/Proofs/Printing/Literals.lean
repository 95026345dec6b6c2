import LispMachine.Expression.Printer
import LispMachine.Proofs.Token.Words

set_option autoImplicit false

namespace LispMachine

namespace Lexer

def signed (negative : Bool) (digits : List Char) : List Char :=
  if negative then '-' :: digits else digits

section Numerals

variable {negative : Bool} {c : Char} {cs : List Char}

theorem isSymbolChar_digit (digit : c.isDigit = true) : isSymbolChar c = true := by
  have bounds := Char.isDigit_iff_toNat.mp digit
  have ascii : c.toNat < 128 := Nat.lt_of_le_of_lt bounds.2 (by decide)
  simp [isSymbolChar, Text.isAlphanumeric, ascii, Char.isAlphanum, digit]

theorem unsigned_signed (digit : c.isDigit = true) : unsigned (signed negative (c :: cs)) = c :: cs := by
  cases negative with
  | true => rfl
  | false =>
      unfold signed unsigned
      split
      next same =>
        cases same
        cases digit
      next => rfl

theorem isNegative_signed (digit : c.isDigit = true) : isNegative (signed negative (c :: cs)) = negative := by
  cases negative with
  | true => rfl
  | false =>
      unfold signed isNegative
      split
      next same =>
        cases same
        cases digit
      next => rfl

theorem reserved?_signed (digit : c.isDigit = true) :
    Lexeme.reserved? (String.ofList (signed negative (c :: cs))) = none := by
  have numeric : looksNumeric (signed negative (c :: cs)) = true := by
    rw [looksNumeric, unsigned_signed digit]
    exact digit
  generalize signed negative (c :: cs) = run at numeric
  unfold Lexeme.reserved?
  split
  case h_11 => rfl
  all_goals
    next same =>
      have spelled := congrArg String.toList same
      rw [String.toList_ofList] at spelled
      rw [spelled] at numeric
      revert numeric
      decide

theorem symbolRun_signed (digit : c.isDigit = true) :
    symbolRun (signed negative (c :: cs)) = number (signed negative (c :: cs)) := by
  rw [symbolRun, reserved?_signed digit, looksNumeric, unsigned_signed digit]
  exact if_pos digit

theorem IsRun.numeral {w : Word} (spelling : w.text.toList = signed negative (c :: cs))
    (digit : c.isDigit = true) (symbols : ∀ d ∈ cs, isSymbolChar d = true)
    (meaning : number (signed negative (c :: cs)) = .ok (w.lexeme, w.literal)) : IsRun w := by
  have all : ∀ d ∈ c :: cs, isSymbolChar d = true :=
    List.forall_mem_cons.mpr ⟨isSymbolChar_digit digit, symbols⟩
  rw [← symbolRun_signed digit, ← spelling] at meaning
  refine ⟨?_, ?_, meaning⟩ <;> rw [spelling] <;> cases negative
  · exact List.cons_ne_nil _ _
  · exact List.cons_ne_nil _ _
  · exact all
  · exact List.forall_mem_cons.mpr ⟨by decide, all⟩

theorem takeWhile_point {digits : List Char} (numeric : ∀ d ∈ digits, d.isDigit = true) (rest : List Char) :
    (digits ++ rest).takeWhile (· ≠ '.') = digits ++ rest.takeWhile (· ≠ '.') ∧
      (digits ++ rest).dropWhile (· ≠ '.') = rest.dropWhile (· ≠ '.') := by
  have other : ∀ d ∈ digits, decide (d ≠ '.') = true := by
    intro d member
    have digit := numeric d member
    refine decide_eq_true ?_
    rintro rfl
    cases digit
  exact ⟨List.takeWhile_append_of_pos other, List.dropWhile_append_of_pos other⟩

theorem isDigits_iff {digits : List Char} :
    isDigits digits = true ↔ digits ≠ [] ∧ ∀ d ∈ digits, d.isDigit = true := by
  simp [isDigits]

theorem number_integer (numeric : ∀ d ∈ c :: cs, d.isDigit = true) :
    number (signed negative (c :: cs)) = integer (signed negative (c :: cs)) := by
  have digit := numeric c (.head _)
  have whole := takeWhile_point numeric []
  have digits : isDigits (c :: cs) = true := isDigits_iff.mpr ⟨List.cons_ne_nil _ _, numeric⟩
  rw [List.append_nil] at whole
  simp only [number, unsigned_signed digit, whole]
  simp [digits]

theorem number_double {places : List Char} (numeric : ∀ d ∈ c :: cs, d.isDigit = true)
    (digits : isDigits places = true) :
    number (signed negative (c :: cs ++ '.' :: places)) =
      .ok (.double, some (.double
        (Double.ofDecimal negative (decimalValue (c :: cs ++ places)) places.length))) := by
  have digit := numeric c (.head _)
  have whole := takeWhile_point numeric ('.' :: places)
  have first : isDigits (c :: cs) = true := isDigits_iff.mpr ⟨List.cons_ne_nil _ _, numeric⟩
  rw [List.cons_append] at whole ⊢
  simp only [number, unsigned_signed digit, isNegative_signed digit, whole]
  simp [first, digits]

theorem decimalValue_toDigits (n : Nat) : decimalValue (Nat.toDigits 10 n) = n := by
  have value := @Nat.ofDigitChars_ten_toDigits n
  rwa [Nat.ofDigitChars_eq_foldl] at value

theorem integer_signed {n : Int64} (digit : c.isDigit = true)
    (value : decimalValue (c :: cs) = n.toInt.natAbs) :
    integer (signed (n.toInt < 0) (c :: cs)) = .ok (.long, some (.long n)) := by
  have least : Int64.minValue.toInt ≤ n.toInt := Int64.le_toInt n
  have greatest : n.toInt ≤ Int64.maxValue.toInt := Int64.toInt_le n
  have same : (if decide (n.toInt < 0) then -(n.toInt.natAbs : Int) else n.toInt.natAbs) = n.toInt := by
    by_cases below : n.toInt < 0
    · rw [if_pos (decide_eq_true below)]
      omega
    · rw [if_neg (Bool.not_eq_true _ ▸ decide_eq_false below)]
      omega
  simp only [integer, unsigned_signed digit, isNegative_signed digit, value, same]
  rw [if_pos ⟨least, greatest⟩, Int64.ofInt_toInt]

end Numerals

def escaped (value : List Char) : List Char := value.flatMap fun c => (Datum.sourceChar c).toList

-- The scanner undoes one escape at a time.
theorem scanString_sourceChar (raw value : List Char) (c : Char) (rest : List Char) :
    scanString raw value ((Datum.sourceChar c).toList ++ rest) =
      scanString ((Datum.sourceChar c).toList.reverse ++ raw) (c :: value) rest := by
  unfold Datum.sourceChar
  split
  case h_6 newline tab ret quote backslash =>
    have unquoted : c ≠ '"' := fun same => quote same
    have plain : c ≠ '\\' := fun same => backslash same
    show scanString raw value (c.toString.toList ++ rest) = _
    rw [Char.toString_eq_singleton, String.toList_singleton, List.singleton_append, scanString.eq_def]
    simp [unquoted, plain]
  all_goals simp [scanString, unescape?]

theorem scanString_escaped (raw value chars behind : List Char) :
    scanString raw value (escaped chars ++ '"' :: behind) =
      ⟨raw.reverse ++ escaped chars ++ ['"'],
        .ok (.str, some (.str (String.ofList (value.reverse ++ chars)))), behind⟩ := by
  induction chars generalizing raw value with
  | nil =>
      rw [scanString.eq_def]
      simp [escaped]
  | cons c chars ih =>
      have step := scanString_sourceChar raw value c (escaped chars ++ '"' :: behind)
      rw [ih] at step
      simpa [escaped] using step

theorem toList_source_str (s : String) :
    (Datum.str s).source.toList = '"' :: (escaped s.toList ++ ['"']) := by
  have printed (out : String) (chars : List Char) :
      (chars.foldl (fun out c => out ++ Datum.sourceChar c) out).toList = out.toList ++ escaped chars := by
    induction chars generalizing out with
    | nil => simp [escaped]
    | cons c chars ih => simp [ih, escaped]
  simp [Datum.source, String.foldl_eq_foldl_toList, printed]

theorem readBefore_str (s : String) (behind : List Char) :
    ReadBefore behind ⟨.str, (Datum.str s).source, some (.str s)⟩ := by
  refine ⟨'"', escaped s.toList ++ ['"'], toList_source_str s, ⟨rfl, by decide, by decide⟩, ?_⟩
  have scanned := scanString_escaped ['"'] [] s.toList behind
  simpa [scan, Lexeme.delimiter?] using scanned

theorem isRun_long (n : Int64) : IsRun ⟨.long, (Datum.long n).source, some (.long n)⟩ := by
  have spelling : (Datum.long n).source.toList =
      signed (n.toInt < 0) (Nat.toDigits 10 n.toInt.natAbs) := by
    rw [Datum.source, Int.toString_eq_repr, Int.repr_eq_if]
    by_cases negative : n.toInt < 0
    · have magnitude : (-n.toInt).toNat = n.toInt.natAbs := by omega
      have other : ¬ 0 ≤ n.toInt := by omega
      simp [negative, other, signed, magnitude, Nat.repr_eq_ofList_toDigits]
    · have magnitude : n.toInt.toNat = n.toInt.natAbs := by omega
      have other : 0 ≤ n.toInt := by omega
      simp [negative, other, signed, magnitude, Nat.repr_eq_ofList_toDigits]
  have numeric : ∀ d ∈ Nat.toDigits 10 n.toInt.natAbs, d.isDigit = true := fun d member =>
    Nat.isDigit_of_mem_toDigits (by decide) (by decide) member
  have value := decimalValue_toDigits n.toInt.natAbs
  cases digits : Nat.toDigits 10 n.toInt.natAbs with
  | nil => exact absurd digits Nat.toDigits_ne_nil
  | cons c cs =>
      rw [digits] at spelling numeric value
      obtain ⟨digit, others⟩ := List.forall_mem_cons.mp numeric
      refine .numeral spelling digit (fun d member => isSymbolChar_digit (others d member)) ?_
      rw [number_integer numeric, integer_signed digit value]

end Lexer

open Lexer

def Double.ReadsBack (d : Double) : Prop :=
  ∃ negative whole places, isDigits whole = true ∧ isDigits places = true ∧
    d.text.toList = Lexer.signed negative (whole ++ '.' :: places) ∧
    ofDecimal negative (decimalValue (whole ++ places)) places.length = d

theorem Lexer.isRun_double {d : Double} (back : d.ReadsBack) :
    IsRun ⟨.double, (Datum.double d).source, some (.double d)⟩ := by
  obtain ⟨negative, whole, places, digits, fraction, spelling, value⟩ := back
  obtain ⟨some, numeric⟩ := isDigits_iff.mp digits
  obtain _ | ⟨c, cs⟩ := whole
  · cases some rfl
  · have digit := numeric c (.head _)
    rw [List.cons_append] at spelling
    refine .numeral spelling digit ?_ ?_
    · intro d member
      rcases List.mem_append.mp member with inside | inside
      · exact isSymbolChar_digit (numeric d (.tail _ inside))
      · rcases List.mem_cons.mp inside with rfl | inside
        · decide
        · exact isSymbolChar_digit ((isDigits_iff.mp fraction).2 d inside)
    · rw [← List.cons_append, number_double numeric fraction, value]

namespace Literal

def doubles : Literal → List Double
  | .datum (.double d) => [d]
  | _ => []

def word : Literal → Word
  | .nil => ⟨.nil, "nil", none⟩
  | .bool true => ⟨.yes, "true", none⟩
  | .bool false => ⟨.no, "false", none⟩
  | .datum (.long n) => ⟨.long, (Datum.long n).source, some (.long n)⟩
  | .datum (.double d) => ⟨.double, (Datum.double d).source, some (.double d)⟩
  | .datum (.str s) => ⟨.str, (Datum.str s).source, some (.str s)⟩

theorem text_word (value : Literal) : value.word.text = value.source := by
  unfold word
  split <;> rfl

theorem readBefore_word {value : Literal} (back : ∀ d ∈ value.doubles, d.ReadsBack) {behind : List Char}
    (stops : Stops behind) : ReadBefore behind value.word := by
  unfold word
  split
  · exact (isRun_reserved rfl).readBefore stops
  · exact (isRun_reserved rfl).readBefore stops
  · exact (isRun_reserved rfl).readBefore stops
  · exact (isRun_long _).readBefore stops
  · exact (isRun_double (back _ (.head _))).readBefore stops
  · exact readBefore_str _ behind

end Literal

end LispMachine
