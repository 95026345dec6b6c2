import Mathlib.Data.List.Induction
import Mathlib.Data.Nat.Digits.Defs
import LispMachine.Proofs.Printing.Literals

set_option autoImplicit false

namespace LispMachine

def reservedWords : List (String × Lexeme) :=
  [("def", .define), ("defn", .function), ("let", .bind), ("if", .branch), ("do", .block), ("cond", .cond),
    ("->", .compose), ("true", .yes), ("false", .no), ("nil", .nil)]

theorem reserved?_eq_some_iff {text : String} {lexeme : Lexeme} :
    Lexeme.reserved? text = some lexeme ↔ (text, lexeme) ∈ reservedWords := by
  constructor
  · intro found
    unfold Lexeme.reserved? at found
    split at found <;> cases found <;> simp [reservedWords]
  · intro listed
    simp only [reservedWords, List.mem_cons, Prod.mk.injEq, List.not_mem_nil, or_false] at listed
    rcases listed with ⟨rfl, rfl⟩ | ⟨rfl, rfl⟩ | ⟨rfl, rfl⟩ | ⟨rfl, rfl⟩ | ⟨rfl, rfl⟩ | ⟨rfl, rfl⟩ | ⟨rfl, rfl⟩ |
      ⟨rfl, rfl⟩ | ⟨rfl, rfl⟩ | ⟨rfl, rfl⟩ <;> rfl

namespace Lexer

def Digits (cs : List Char) : Prop := cs ≠ [] ∧ ∀ c ∈ cs, c.isDigit = true

def decimal (digits : List Char) : Nat := Nat.ofDigits 10 (digits.reverse.map fun c => c.toNat - 48)

def signedValue (negative : Bool) (n : Nat) : Int := if negative then -n else n

def IsInteger (run : List Char) (negative : Bool) (digits : List Char) : Prop :=
  Digits digits ∧ run = signed negative digits

def IsDouble (run : List Char) (negative : Bool) (whole places : List Char) : Prop :=
  Digits whole ∧ Digits places ∧ run = signed negative (whole ++ '.' :: places)

def Numeric (run : List Char) : Prop :=
  ∃ negative c rest, c.isDigit = true ∧ run = signed negative (c :: rest)

inductive Classified (run : List Char) (p : Position) : Except Diagnostic Token → Prop
  | reserved {lexeme} : (String.ofList run, lexeme) ∈ reservedWords →
      Classified run p (.ok ⟨lexeme, String.ofList run, none, p⟩)
  | long {negative digits n} : IsInteger run negative digits →
      n.toInt = signedValue negative (decimal digits) →
      Classified run p (.ok ⟨.long, String.ofList run, some (.long n), p⟩)
  | tooLarge {negative digits} : IsInteger run negative digits →
      (signedValue negative (decimal digits) < -9223372036854775808 ∨
        9223372036854775807 < signedValue negative (decimal digits)) →
      Classified run p (.error ⟨.lexical (.integerTooLarge (String.ofList run)), p⟩)
  | double {negative whole places} : IsDouble run negative whole places →
      Classified run p (.ok ⟨.double, String.ofList run,
        some (.double (.ofDecimal negative (decimal (whole ++ places)) places.length)), p⟩)
  | spoiled : Numeric run → (∀ negative digits, ¬ IsInteger run negative digits) →
      (∀ negative whole places, ¬ IsDouble run negative whole places) →
      Classified run p (.ok ⟨.unknown, String.ofList run, none, p⟩)
  | name : (∀ lexeme, (String.ofList run, lexeme) ∉ reservedWords) → ¬ Numeric run →
      Classified run p (.ok ⟨.ident, String.ofList run, none, p⟩)

def answer (raw : List Char) (p : Position) : Meaning → Except Diagnostic Token
  | .ok (lexeme, literal) => .ok ⟨lexeme, String.ofList raw, literal, p⟩
  | .error fault => Diagnostic.lexical fault p

theorem decimalValue_eq_decimal (digits : List Char) : decimalValue digits = decimal digits := by
  induction digits using List.reverseRecOn with
  | nil => rfl
  | append_singleton digits c ih =>
      have last : decimalValue (digits ++ [c]) = 10 * decimalValue digits + (c.toNat - 48) :=
        List.foldl_append
      have first : decimal (digits ++ [c]) = c.toNat - 48 + 10 * decimal digits := by
        simp [decimal, Nat.ofDigits_cons]
      rw [last, first, ih, Nat.add_comm]

section Shapes

variable {run digits whole places : List Char} {negative : Bool}

theorem signed_unsigned (run : List Char) : signed (isNegative run) (unsigned run) = run := by
  unfold unsigned isNegative
  split <;> rfl

theorem looksNumeric_iff : looksNumeric run = true ↔ Numeric run := by
  constructor
  · intro starts
    have whole := signed_unsigned run
    unfold looksNumeric at starts
    split at starts
    next c rest shape =>
      rw [shape] at whole
      exact ⟨_, c, rest, starts, whole.symm⟩
    next => cases starts
  · rintro ⟨negative, c, rest, digit, rfl⟩
    rw [looksNumeric, unsigned_signed digit]
    exact digit

theorem symbolRun_integer (shape : IsInteger run negative digits) : symbolRun run =
    if -9223372036854775808 ≤ signedValue negative (decimal digits) ∧
        signedValue negative (decimal digits) ≤ 9223372036854775807 then
      .ok (.long, some (.long (Int64.ofInt (signedValue negative (decimal digits)))))
    else .error (.integerTooLarge (String.ofList run)) := by
  obtain ⟨⟨some, numeric⟩, rfl⟩ := shape
  obtain ⟨c, cs, rfl⟩ := List.exists_cons_of_ne_nil some
  have digit := numeric c (.head _)
  rw [symbolRun_signed digit, number_integer numeric]
  simp only [integer, unsigned_signed digit, isNegative_signed digit, decimalValue_eq_decimal]
  rfl

theorem symbolRun_double (shape : IsDouble run negative whole places) : symbolRun run =
    .ok (.double, some (.double (.ofDecimal negative (decimal (whole ++ places)) places.length))) := by
  obtain ⟨⟨some, numeric⟩, fraction, rfl⟩ := shape
  obtain ⟨c, cs, rfl⟩ := List.exists_cons_of_ne_nil some
  have digit := numeric c (.head _)
  rw [← decimalValue_eq_decimal, ← number_double numeric (isDigits_iff.mpr fraction)]
  exact symbolRun_signed digit

theorem symbolRun_spoiled (numeric : Numeric run) (noInteger : ∀ negative digits, ¬ IsInteger run negative digits)
    (noDouble : ∀ negative whole places, ¬ IsDouble run negative whole places) :
    symbolRun run = .ok (.unknown, none) := by
  obtain ⟨negative, c, rest, digit, rfl⟩ := numeric
  rw [symbolRun_signed digit]
  have split := List.takeWhile_append_dropWhile (p := (· ≠ '.')) (l := c :: rest)
  have point := List.head?_dropWhile_not (· ≠ '.') (c :: rest)
  simp only [number, unsigned_signed digit]
  generalize (c :: rest).takeWhile (· ≠ '.') = whole at split ⊢
  generalize (c :: rest).dropWhile (· ≠ '.') = behind at split point ⊢
  cases behind with
  | nil =>
      rw [List.append_nil] at split
      have spoiled : ¬ isDigits whole = true := fun digits =>
        noInteger negative (c :: rest) ⟨split ▸ isDigits_iff.mp digits, rfl⟩
      exact if_neg spoiled
  | cons d places =>
      obtain rfl : d = '.' := by simpa using point
      have spoiled : ¬ (isDigits whole && isDigits places) = true := by
        rw [Bool.and_eq_true]
        rintro ⟨before, after⟩
        exact noDouble negative whole places ⟨isDigits_iff.mp before, isDigits_iff.mp after, split ▸ rfl⟩
      exact if_neg spoiled

theorem symbolRun_name (free : ∀ lexeme, (String.ofList run, lexeme) ∉ reservedWords) (name : ¬ Numeric run) :
    symbolRun run = .ok (.ident, none) := by
  have unreserved : Lexeme.reserved? (String.ofList run) = none := by
    rw [Option.eq_none_iff_forall_not_mem]
    intro lexeme found
    exact free lexeme (reserved?_eq_some_iff.mp found)
  rw [symbolRun, unreserved]
  exact if_neg fun starts => name (looksNumeric_iff.mp starts)

end Shapes

section Classes

variable {run : List Char} {p : Position} {x : Except Diagnostic Token}

theorem Classified.answers (classified : Classified run p x) : answer run p (symbolRun run) = x := by
  cases classified with
  | reserved listed => rw [symbolRun, reserved?_eq_some_iff.mpr listed, answer]
  | @long negative digits n shape value =>
      have least : Int64.minValue.toInt ≤ n.toInt := Int64.le_toInt n
      have greatest : n.toInt ≤ Int64.maxValue.toInt := Int64.toInt_le n
      rw [symbolRun_integer shape, ← value, if_pos ⟨least, greatest⟩, Int64.ofInt_toInt, answer]
  | tooLarge shape beyond =>
      rw [symbolRun_integer shape, if_neg (by omega), answer]
      rfl
  | double shape => rw [symbolRun_double shape, answer]
  | spoiled numeric noInteger noDouble => rw [symbolRun_spoiled numeric noInteger noDouble, answer]
  | name free plain => rw [symbolRun_name free plain, answer]

theorem exists_classified (run : List Char) (p : Position) : ∃ x, Classified run p x := by
  by_cases reserved : ∃ lexeme, (String.ofList run, lexeme) ∈ reservedWords
  next =>
    obtain ⟨_, listed⟩ := reserved
    exact ⟨_, .reserved listed⟩
  next =>
    by_cases integer : ∃ negative digits, IsInteger run negative digits
    next =>
      obtain ⟨negative, digits, shape⟩ := integer
      by_cases fits : -9223372036854775808 ≤ signedValue negative (decimal digits) ∧
          signedValue negative (decimal digits) ≤ 9223372036854775807
      next =>
        have value : (Int64.ofInt (signedValue negative (decimal digits))).toInt =
            signedValue negative (decimal digits) := Int64.toInt_ofInt_of_le fits.1 (by omega)
        exact ⟨_, .long shape value⟩
      next => exact ⟨_, .tooLarge shape (by omega)⟩
    next =>
      by_cases double : ∃ negative whole places, IsDouble run negative whole places
      next =>
        obtain ⟨_, _, _, shape⟩ := double
        exact ⟨_, .double shape⟩
      next =>
        by_cases numeric : Numeric run
        next =>
          simp only [not_exists] at integer double
          exact ⟨_, .spoiled numeric integer double⟩
        next => exact ⟨_, .name (not_exists.mp reserved) numeric⟩

theorem classified_iff : Classified run p x ↔ answer run p (symbolRun run) = x := by
  constructor
  · exact Classified.answers
  · rintro rfl
    obtain ⟨x, classified⟩ := exists_classified run p
    rw [classified.answers]
    exact classified

end Classes

end Lexer

end LispMachine
