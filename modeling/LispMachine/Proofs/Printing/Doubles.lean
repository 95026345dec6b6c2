import LispMachine.Proofs.Double.Overflow
import LispMachine.Proofs.Double.Text
import LispMachine.Proofs.Token.Classes

set_option autoImplicit false

namespace LispMachine

open Lexer

namespace Lexer

theorem exists_isDouble {run : List Char} {literal : Option Datum}
    (read : symbolRun run = .ok (.double, literal)) : ∃ negative whole places,
      IsDouble run negative whole places ∧
        literal = some (.double (.ofDecimal negative (decimal (whole ++ places)) places.length)) := by
  obtain ⟨x, classified⟩ := exists_classified run .start
  have answers := classified.answers
  rw [read, answer] at answers
  subst answers
  cases classified with
  | reserved listed => simp [reservedWords] at listed
  | double shape => exact ⟨_, _, _, shape, rfl⟩

theorem tokenize_isDouble {text : String} {tokens : List Token} (lexed : tokenize text = .ok tokens) {t : Token}
    (listed : t ∈ tokens) (double : t.lexeme = .double) : ∃ negative whole places,
      IsDouble t.text.toList negative whole places ∧
        t.literal = some (.double (.ofDecimal negative (decimal (whole ++ places)) places.length)) := by
  have run := tokenize_isRun lexed t listed (double ▸ ofRun_double)
  have read := run.meaning
  rw [Token.word, double] at read
  exact exists_isDouble read

end Lexer

namespace Double

def infinityText (negative : Bool) : String := if negative then "-inf" else "inf"

theorem source_infinity (negative : Bool) :
    (Literal.datum (.double (infinity negative))).source = infinityText negative := by
  cases negative <;> decide +kernel

theorem isRun_infinityText (negative : Bool) : IsRun (.ident (infinityText negative)) := by
  cases negative
  · exact ⟨by decide, List.all_eq_true.mp (by decide), rfl⟩
  · exact ⟨by decide, List.all_eq_true.mp (by decide), rfl⟩

end Double

/-- The literal of a double token is printed as one word. If the literal is finite, the word is read as a double
token with the same literal. It is finite if the number that the token spells is less than half a unit above
the greatest finite double; otherwise the literal is infinite, and what is printed is read as a name. -/
theorem double_reread {text : String} {tokens : List Token} (lexed : tokenize text = .ok tokens) {t : Token}
    (listed : t ∈ tokens) (double : t.lexeme = .double) : ∃ negative whole places d,
      IsDouble t.text.toList negative whole places ∧ t.literal = some (.double d) ∧
      (d.isFinite = true ↔ (decimal (whole ++ places) / 10 ^ places.length : ℚ) < Double.overflow) ∧
      (d.isFinite = true → ∃ p q, tokenize (Literal.datum (.double d)).source =
        .ok [⟨.double, d.text, some (.double d), p⟩, .eof q]) ∧
      (d.isFinite = false → d = Double.infinity negative ∧ ∃ p q, tokenize (Literal.datum (.double d)).source =
        .ok [⟨.ident, Double.infinityText negative, none, p⟩, .eof q]) := by
  obtain ⟨negative, whole, places, shape, literal⟩ := tokenize_isDouble lexed listed double
  refine ⟨negative, whole, places, _, shape, literal, Double.isFinite_ofDecimal negative, fun finite => ?_,
    fun infinite => ?_⟩
  · exact tokenize_isRun_text (isRun_double (Double.readsBack_of_isFinite finite))
  · have above : Double.overflow ≤ (decimal (whole ++ places) / 10 ^ places.length : ℚ) := by
      rw [← not_lt, ← Double.isFinite_ofDecimal negative, infinite]
      decide
    rw [Double.ofDecimal_eq_infinity negative above, Double.source_infinity]
    exact ⟨rfl, tokenize_isRun_text (Double.isRun_infinityText negative)⟩

section Huge

def hugeZeros : List Char := List.replicate 309 '0'

def huge : String := String.ofList ('1' :: hugeZeros ++ ['.', '0'])

theorem isRun_huge : IsRun ⟨.double, huge, some (.double (.infinity false))⟩ := by
  have zeros : ∀ c ∈ hugeZeros, c.isDigit = true := Double.Decimal.isDigit_zeros 309
  have one : '1'.isDigit = true := by decide
  have symbols : ∀ c ∈ hugeZeros ++ ['.', '0'], isSymbolChar c = true := by
    rw [List.forall_mem_append]
    exact ⟨fun c member => isSymbolChar_digit (zeros c member), List.all_eq_true.mp (by decide)⟩
  have spelling : huge.toList = Lexer.signed false ('1' :: (hugeZeros ++ ['.', '0'])) := String.toList_ofList
  have value : Double.ofDecimal false (decimalValue ('1' :: hugeZeros ++ ['0'])) 1 = .infinity false := by
    decide +kernel
  have read : number (Lexer.signed false ('1' :: hugeZeros ++ ['.', '0'])) =
      .ok (.double, some (.double (.ofDecimal false (decimalValue ('1' :: hugeZeros ++ ['0'])) 1))) :=
    number_double (List.forall_mem_cons.mpr ⟨one, zeros⟩) rfl
  rw [value] at read
  exact .numeral spelling one symbols read

theorem huge_misread : ∃ p q r s,
    tokenize huge = .ok [⟨.double, huge, some (.double (.infinity false)), p⟩, .eof q] ∧
      (Literal.datum (.double (.infinity false))).source = "inf" ∧
      tokenize "inf" = .ok [⟨.ident, "inf", none, r⟩, .eof s] := by
  obtain ⟨p, q, lexed⟩ := tokenize_isRun_text isRun_huge
  have printed : (Literal.datum (.double (.infinity false))).source = "inf" := Double.source_infinity false
  obtain ⟨negative, _, _, d, _, literal, _, _, misread⟩ := double_reread lexed (.head _) rfl
  cases literal
  obtain ⟨same, r, s, name⟩ := misread (Double.isFinite_infinity false)
  rw [printed] at name
  refine ⟨p, q, r, s, lexed, printed, ?_⟩
  cases negative with
  | false => exact name
  | true => exact absurd same (by decide)

end Huge

end LispMachine
