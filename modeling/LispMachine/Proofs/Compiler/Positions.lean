import LispMachine.Proofs.Compiler
import LispMachine.Proofs.Generator.Positions
import LispMachine.Proofs.Grammar.Reading
import LispMachine.Proofs.Grammar.Refusals
import LispMachine.Proofs.Resolution.Refusals
import LispMachine.Proofs.Token.Lossless

set_option autoImplicit false

namespace LispMachine

open Expression

inductive Token.Starts (text : String) (p : Position) : Prop
  | read {tokens t} : tokenize text = .ok tokens → t ∈ tokens → t.position = p → Starts text p
  | refused {tokens consumed gap c cs fault} : Lexer.Spelled [] tokens text.toList (gap ++ c :: cs) →
      text.toList = consumed ++ gap ++ c :: cs → Lexer.Gap false gap → Lexer.Solid c →
      (Lexer.scan c cs).meaning = .error fault → p.Ends (consumed ++ gap) → Starts text p

def Located (text : String) (p : Position) : Prop :=
  Token.Starts text p ∨ (∃ q, tokenize text = .ok [.eof q]) ∧ p = .start

theorem Located.within {text : String} {p : Position} (located : Located text p) : p.Within text.toList := by
  rcases located with starts | ⟨_, rfl⟩
  · cases starts with
    | read lexed member place => exact place ▸ tokenize_within lexed _ member
    | refused _ shape _ _ _ ends =>
        rw [shape]
        exact ends.within _
  · exact Position.Ends.start.within text.toList

structure Diagnostic.Located (text : String) (d : Diagnostic) : Prop where
  stands : LispMachine.Located text d.position
  names : d.cause.kind = .unresolved ∨ d.cause.kind = .arity →
    ∃ name tokens, d.cause.identifier = some name ∧ tokenize text = .ok tokens ∧
      Names tokens d.position name

theorem located_first {text : String} {proper : List Token} {p : Position}
    (lexed : tokenize text = .ok (proper ++ [.eof p])) :
    Located text ((proper.head?.map Token.position).getD .start) := by
  cases proper with
  | nil => exact .inr ⟨⟨p, lexed⟩, rfl⟩
  | cons t rest => exact .inl (.read lexed (by simp) rfl)

theorem compileProgram_located (name : String) {text : String} {tokens : List Token} {forms : List Expression}
    {p : Position} (lexed : tokenize text = .ok tokens) (first : Located text p)
    (grounded : ∀ m ∈ marksAll forms, m.Grounded tokens) :
    Yields (Diagnostic.Located text)
      (fun unit => unit.entry.At (Located text) ∧ ∀ chunk ∈ unit.methods, chunk.At (Located text))
      (compileProgram name (.block forms p)) := by
  have marked : ∀ m ∈ marksAll forms, Located text m.position := by
    intro m member
    obtain ⟨t, listed, same⟩ := (grounded m member).stands
    exact .inl (.read lexed listed same)
  unfold compileProgram
  cases resolved : resolve (.block forms p) with
  | error d =>
      obtain ⟨m, member, same, about⟩ := resolve_refusing forms p d resolved
      refine ⟨same ▸ marked m member, fun named => ?_⟩
      obtain ⟨used, own, found⟩ := about named
      exact ⟨used, tokens, found, lexed, same ▸ (grounded m member).names used own⟩
  | ok r =>
      refine (generate_at r name first marked).imp (fun d broken => ⟨broken.stands, ?_⟩) fun _ placed => placed
      simp [broken.kind]

theorem compile_located (name text : String) :
    Yields (Diagnostic.Located text)
      (fun unit => unit.entry.At (Located text) ∧ ∀ chunk ∈ unit.methods, chunk.At (Located text))
      (compile name text) := by
  have answer := Lexer.tokenize_answer text
  unfold compile parse
  cases lexed : tokenize text with
  | error d =>
      rw [lexed] at answer
      cases answer with
      | refused spelled shape skipped solid failed ends =>
      refine ⟨.inl (.refused spelled shape skipped solid failed ?_), by simp [Cause.kind]⟩
      simpa using ends
  | ok tokens =>
      rw [lexed] at answer
      cases answer with
      | @read proper gap p spelled _ _ =>
      have ended : ∃ t ∈ proper ++ [.eof p], t.lexeme = .eof := ⟨.eof p, by simp, rfl⟩
      show Yields _ _ (Parser.parseTokens (proper ++ [.eof p]) >>= compileProgram name)
      cases parsed : Parser.parseTokens (proper ++ [.eof p]) with
      | error d =>
          obtain ⟨⟨t, member, same⟩, fault, cause⟩ := Parser.parseTokens_refusal ended d parsed
          refine ⟨.inl (.read lexed member same), ?_⟩
          simp [cause, Cause.kind]
      | ok program =>
          have derives := Parser.parseTokens_derives parsed
          rw [Parser.body_append spelled.proper] at derives
          cases derives with
          | block derives _ =>
          refine compileProgram_located name lexed (located_first lexed) ?_
          exact Mark.Grounded.all_mono derives.grounded (List.prefix_append proper [.eof p]).isInfix

/-- A text that is refused is refused at one of its tokens; if for a name, at the identifier or at the
parenthesis before it. The instructions of a unit carry positions of tokens. All these positions lie in the
text, with the line and the column of their offset. -/
theorem compile_positions (name : String) {text : String} (short : text.length + 1 < UInt32.size) :
    (∀ d, compile name text = .error d → Located text d.position ∧
      (d.cause.kind = .unresolved ∨ d.cause.kind = .arity →
        ∃ used tokens, d.cause.identifier = some used ∧ tokenize text = .ok tokens ∧
          Names tokens d.position used)) ∧
    (∀ unit, compile name text = .ok unit → ∀ chunk ∈ unit.entry :: unit.methods.toList,
      ∀ i ∈ chunk.code, ∃ p, i.position = some p ∧ Located text p) ∧
    ∀ p, Located text p → p.Within text.toList ∧ p.Exact (text.toList.take p.offset) := by
  have located := compile_located name text
  refine ⟨fun d failed => ?_, fun unit compiled chunk member => ?_, fun p here => ?_⟩
  · obtain ⟨stands, names⟩ := located.fails d failed
    exact ⟨stands, names⟩
  · obtain ⟨entry, methods⟩ := located.of_ok compiled
    rcases List.mem_cons.mp member with rfl | member
    · exact entry
    · exact methods chunk (Array.mem_toList_iff.mp member)
  · rw [← String.length_toList] at short
    exact ⟨here.within, here.within.exact short⟩

section Misspelt

open Unfolding

def misspelt : String := "(do\n (prnt 1))"

def misspeltTokens : List Token :=
  [⟨.leftParen, "(", none, ⟨1, 1, 0⟩⟩, ⟨.block, "do", none, ⟨1, 2, 1⟩⟩,
    ⟨.leftParen, "(", none, ⟨2, 2, 5⟩⟩, ⟨.ident, "prnt", none, ⟨2, 3, 6⟩⟩,
    ⟨.long, "1", some (.long 1), ⟨2, 8, 11⟩⟩, ⟨.rightParen, ")", none, ⟨2, 9, 12⟩⟩,
    ⟨.rightParen, ")", none, ⟨2, 10, 13⟩⟩, .eof ⟨2, 11, 14⟩]

theorem tokenize_misspelt : tokenize misspelt = .ok misspeltTokens :=
  eq_ok_of_toOption (by decide +kernel)

theorem compile_misspelt : compile "misspelt" misspelt = .error ⟨.unresolved "prnt", ⟨2, 2, 5⟩⟩ := by
  have parsed : Parser.parseTokens misspeltTokens = .ok (.block [.block
      [.call "prnt" [.constant (.datum (.long 1)) ⟨2, 8, 11⟩] ⟨2, 2, 5⟩] ⟨1, 1, 0⟩] ⟨1, 1, 0⟩) := rfl
  simp [parse, tokenize_misspelt, parsed]

theorem misspelt_positions :
    (∃ d, compile "misspelt" misspelt = .error d ∧ d.cause.identifier = some "prnt" ∧
      Names misspeltTokens d.position "prnt" ∧ d.position.Exact (misspelt.toList.take 5)) ∧
    ∃ unit, compile "skipped" "(do (def a 1)) (do (if false (def b 2) 0) b)" = .ok unit ∧
      ∀ i ∈ unit.entry.code, i.position.isSome := by
  constructor
  · have short : misspelt.length + 1 < UInt32.size := by decide
    obtain ⟨refused, _, places⟩ := compile_positions "misspelt" short
    obtain ⟨stands, names⟩ := refused _ compile_misspelt
    obtain ⟨used, tokens, about, lexed, names⟩ := names (.inl rfl)
    cases about
    cases lexed.symm.trans tokenize_misspelt
    exact ⟨_, compile_misspelt, rfl, names, (places _ stands).2⟩
  · obtain ⟨unit, compiled⟩ := compile_skipped
    have short : "(do (def a 1)) (do (if false (def b 2) 0) b)".length + 1 < UInt32.size := by decide
    obtain ⟨_, instructions, _⟩ := compile_positions "skipped" short
    refine ⟨unit, compiled, fun i member => ?_⟩
    obtain ⟨p, found, _⟩ := instructions unit compiled unit.entry (by simp) i member
    simp [found]

end Misspelt

section Unclosed

def unclosed (n : Nat) : String := String.ofList ('(' :: List.replicate n ' ')

theorem length_unclosed (n : Nat) : (unclosed n).length = n + 1 := by
  rw [unclosed, String.length_ofList, List.length_cons, List.length_replicate]

theorem tokenize_unclosed (n : Nat) : tokenize (unclosed n) =
    .ok [⟨.leftParen, "(", none, ⟨1, 1, 0⟩⟩, .eof ⟨1, 2 + UInt32.ofNat n, 1 + n⟩] := by
  have solid : Lexer.Solid '(' := ⟨rfl, by decide, by decide⟩
  have read : Lexer.Source.tokensFrom ⟨'(' :: List.replicate n ' ', .start⟩ [] = _ :=
    Lexer.Source.tokensFrom_scan .nil solid rfl
  have behind := Lexer.Source.tokensFrom_end (p := Position.start.advance '(') (Lexer.Gap.blanks n)
  rw [Position.after_blanks] at behind
  rw [tokenize, Lexer.Source.ofText, unclosed, String.toList_ofList]
  exact read.trans (congrArg _ behind)

-- What is missing is missed at the end, whose column wraps around in a text that is as long as it can be.
theorem unclosed_inexact : ∃ d, (unclosed (UInt32.size - 2)).length < UInt32.size ∧
    compile "unclosed" (unclosed (UInt32.size - 2)) = .error d ∧
    ¬ d.position.Exact ((unclosed (UInt32.size - 2)).toList.take d.position.offset) := by
  refine ⟨⟨.syntactic .unexpectedEnd, ⟨1, 0, 4294967295⟩⟩, ?_, ?_, Position.not_exact_of_column rfl _⟩
  · rw [length_unclosed]
    decide
  · rw [compile, parse, tokenize_unclosed]
    rfl

end Unclosed

end LispMachine
