import LispMachine.Proofs.Compiler
import LispMachine.Proofs.Grammar.Refusals
import LispMachine.Proofs.Relocation.Generator
import LispMachine.Proofs.Token.Lossless

set_option autoImplicit false

namespace LispMachine

open Expression
open Diagnostic (Akin)

theorem tokenize_ended {text : String} {tokens : List Token} (lexed : tokenize text = .ok tokens) :
    ∃ t ∈ tokens, t.lexeme = .eof := by
  have answer := Lexer.tokenize_answer text
  rw [lexed] at answer
  cases answer with
  | @read proper gap p _ _ _ => exact ⟨.eof p, by simp, rfl⟩

theorem parse_of_tokenize {text : String} {tokens : List Token} (lexed : tokenize text = .ok tokens) :
    parse text = Parser.parseTokens tokens := by
  rw [parse, lexed]
  rfl

section SameWords

variable {text text' : String} {tokens tokens' : List Token}

theorem parse_relocate (lexed : tokenize text = .ok tokens) (lexed' : tokenize text' = .ok tokens')
    (words : tokens.map Token.word = tokens'.map Token.word) {program : Expression}
    (parsed : parse text = .ok program) :
    ∃ (f : Relocation) (forms : List Expression) (p q : Position),
      program = .block forms p ∧ parse text' = .ok (.block (relocateAll f.move forms) q) := by
  obtain ⟨f, rfl⟩ := tokenize_relocate lexed lexed' words
  rw [parse_of_tokenize lexed] at parsed
  obtain ⟨forms, p, rfl, _⟩ := parseTokens_forms parsed
  obtain ⟨q, relocated⟩ := Parser.parseTokens_relocate f.move parsed
  exact ⟨f, forms, p, q, rfl, (parse_of_tokenize lexed').trans relocated⟩

theorem parse_refused_alike (lexed : tokenize text = .ok tokens) (lexed' : tokenize text' = .ok tokens')
    {d d' : Diagnostic} (refused : parse text = .error d) (refused' : parse text' = .error d') :
    Akin d d' := by
  rw [parse_of_tokenize lexed] at refused
  rw [parse_of_tokenize lexed'] at refused'
  obtain ⟨_, fault, cause⟩ := Parser.parseTokens_refusal (tokenize_ended lexed) d refused
  obtain ⟨_, fault', cause'⟩ := Parser.parseTokens_refusal (tokenize_ended lexed') d' refused'
  exact ⟨by rw [cause, cause']; rfl, by rw [cause, cause']; rfl⟩

theorem compileProgram_relocate (f : Relocation) (name : String) (forms : List Expression)
    (p q : Position) :
    EndsAlike Akin (fun unit unit' => unit.unplaced = unit'.unplaced) (compileProgram name (.block forms p))
      (compileProgram name (.block (relocateAll f.move forms) q)) :=
  (resolve_relocate f forms p q).bind fun _ _ same => generate_relocate same name forms p q

theorem compile_alike (name : String) (lexed : tokenize text = .ok tokens)
    (lexed' : tokenize text' = .ok tokens') (words : tokens.map Token.word = tokens'.map Token.word) :
    EndsAlike Akin (fun unit unit' => unit.unplaced = unit'.unplaced) (compile name text)
      (compile name text') := by
  unfold compile
  cases parsed : parse text with
  | ok program =>
      obtain ⟨f, forms, p, q, rfl, parsed'⟩ := parse_relocate lexed lexed' words parsed
      rw [parsed']
      exact compileProgram_relocate f name forms p q
  | error d =>
      cases parsed' : parse text' with
      | error d' => exact parse_refused_alike lexed lexed' parsed parsed'
      | ok program =>
          -- Were only the second text accepted, the first would be, with the roles exchanged.
          obtain ⟨_, _, _, _, _, accepted⟩ := parse_relocate lexed' lexed words.symm parsed'
          rw [parsed] at accepted
          cases accepted

end SameWords

/-- Of two texts with the same words, either both are compiled, to units that differ in positions only, or
both are refused, with faults of one kind about one name. -/
theorem compile_layout (name : String) {text text' : String} {tokens tokens' : List Token}
    (lexed : tokenize text = .ok tokens) (lexed' : tokenize text' = .ok tokens')
    (words : tokens.map Token.word = tokens'.map Token.word) :
    (∃ unit unit', compile name text = .ok unit ∧ compile name text' = .ok unit' ∧
      unit.unplaced = unit'.unplaced) ∨
    ∃ d d', compile name text = .error d ∧ compile name text' = .error d' ∧
      d.cause.kind = d'.cause.kind ∧ d.cause.identifier = d'.cause.identifier := by
  have alike := compile_alike name lexed lexed' words
  cases compiled : compile name text <;> cases compiled' : compile name text' <;>
    rw [compiled, compiled'] at alike
  · exact .inr ⟨_, _, rfl, rfl, alike.kind, alike.identifier⟩
  · exact alike.elim
  · exact alike.elim
  · exact .inl ⟨_, _, rfl, rfl, alike⟩

section LaidOut

def laidOut : String := "; two blocks\n(do (def a 1))\n(do\n\t(if false,(def b 2),0)\n\tb)\n"

theorem laidOut_words :
    (tokenize "(do (def a 1)) (do (if false (def b 2) 0) b)").toOption.map (List.map Token.word) =
      (tokenize laidOut).toOption.map (List.map Token.word) := by
  decide +kernel

theorem laidOut_compiled : ∃ unit unit',
    compile "skipped" "(do (def a 1)) (do (if false (def b 2) 0) b)" = .ok unit ∧
      compile "skipped" laidOut = .ok unit' ∧ unit.unplaced = unit'.unplaced := by
  obtain ⟨tokens, lexed⟩ := exists_of_toBool
    (x := tokenize "(do (def a 1)) (do (if false (def b 2) 0) b)") (by decide +kernel)
  obtain ⟨tokens', lexed'⟩ := exists_of_toBool (x := tokenize laidOut) (by decide +kernel)
  have words := laidOut_words
  rw [lexed, lexed'] at words
  obtain both | ⟨d, d', refused, _⟩ := compile_layout "skipped" lexed lexed' (Option.some.inj words)
  · exact both
  · obtain ⟨unit, compiled⟩ := compile_skipped
    rw [compiled] at refused
    cases refused

end LaidOut

end LispMachine
