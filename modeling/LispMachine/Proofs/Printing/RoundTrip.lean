import LispMachine.Proofs.Grammar.Refusals
import LispMachine.Proofs.Printing.Words
import LispMachine.Proofs.Relocation

set_option autoImplicit false

namespace LispMachine

open Lexer Expression

theorem Token.spells_of_word {t : Token} {value : Literal} (same : t.word = value.word) : t.Spells value := by
  obtain ⟨lexeme, text, literal, p⟩ := t
  unfold Literal.word at same
  split at same <;> cases same
  · exact .nil rfl
  · exact .yes rfl
  · exact .no rfl
  · exact .long rfl rfl
  · exact .double rfl rfl
  · exact .str rfl rfl

theorem tokens_of_form {tokens : List Token} {head : Word} {inside : List Word}
    (same : tokens.map Token.word = Word.form head inside) :
    ∃ opened first items closed, tokens = opened :: (first :: items ++ [closed]) ∧
      opened.lexeme = .leftParen ∧ first.word = head ∧ items.map Token.word = inside ∧
      closed.lexeme = .rightParen := by
  obtain ⟨opened, rest, rfl, opens, same⟩ := List.map_eq_cons_iff.mp same
  obtain ⟨inner, last, rfl, within, ends⟩ := List.map_eq_append_iff.mp same
  obtain ⟨first, items, rfl, begins, within⟩ := List.map_eq_cons_iff.mp within
  obtain ⟨closed, _, rfl, closes, none⟩ := List.map_eq_cons_iff.mp ends
  cases List.map_eq_nil_iff.mp none
  exact ⟨opened, first, items, closed, rfl, congrArg Word.lexeme opens, begins, within,
    congrArg Word.lexeme closes⟩

theorem names_of_words {tokens : List Token} {names : List String}
    (same : tokens.map Token.word = names.map Word.ident) :
    (∀ t ∈ tokens, t.lexeme = .ident) ∧ tokens.map Token.text = names := by
  constructor
  · intro t member
    have listed : t.word ∈ names.map Word.ident := same ▸ List.mem_map_of_mem member
    obtain ⟨name, _, word⟩ := List.mem_map.mp listed
    exact (t.word_eq_ident word.symm).1
  · have texts := congrArg (List.map Word.text) same
    rw [List.map_map, List.map_map] at texts
    exact texts.trans (List.map_id names)

theorem stages_of_words {tokens : List Token} {stages : List Stage}
    (same : tokens.map Token.word = stages.map fun stage => Word.ident stage.callee) :
    ∃ stages', DerivesStages tokens stages' ∧
      stages'.map (Stage.relocate fun _ => .start) = stages.map (Stage.relocate fun _ => .start) := by
  induction stages generalizing tokens with
  | nil =>
      cases List.map_eq_nil_iff.mp same
      exact ⟨[], .nil, rfl⟩
  | cons stage rest ih =>
      obtain ⟨t, tokens, rfl, first, others⟩ := List.map_eq_cons_iff.mp same
      obtain ⟨ident, text⟩ := t.word_eq_ident first
      obtain ⟨stages', derives, moved⟩ := ih others
      refine ⟨⟨t.text, t.position⟩ :: stages', .name ident derives, ?_⟩
      rw [List.map_cons, List.map_cons, moved, text]
      rfl

section Lists

variable {f : Position → Position} {es rest : List Expression} {e : Expression}

theorem nil_of_relocate (same : relocateAll f es = relocateAll f []) : es = [] := by
  cases es with
  | nil => rfl
  | cons e rest => cases same

theorem cons_of_relocate (same : relocateAll f es = relocateAll f (e :: rest)) :
    ∃ e' rest', es = e' :: rest' ∧ e'.relocate f = e.relocate f ∧ relocateAll f rest' = relocateAll f rest := by
  cases es with
  | nil => cases same
  | cons e' rest' =>
      rw [relocateAll, relocateAll, List.cons.injEq] at same
      exact ⟨e', rest', rfl, same⟩

theorem clauses_of_relocate {clauses : List (Expression × Expression)}
    (same : relocateAll f es = relocateAll f (clauses.flatMap fun clause => [clause.1, clause.2])) :
    ∃ clauses', es = clauses'.flatMap (fun clause => [clause.1, clause.2]) ∧
      relocateClauses f clauses' = relocateClauses f clauses := by
  induction clauses generalizing es with
  | nil => exact ⟨[], nil_of_relocate same, rfl⟩
  | cons clause rest ih =>
      obtain ⟨test, consequent⟩ := clause
      obtain ⟨test', es, rfl, first, same⟩ := cons_of_relocate same
      obtain ⟨consequent', es, rfl, second, same⟩ := cons_of_relocate same
      obtain ⟨clauses', rfl, others⟩ := ih same
      refine ⟨(test', consequent') :: clauses', rfl, ?_⟩
      rw [relocateClauses, relocateClauses, first, second, others]

end Lists

mutual

theorem Derives.reread {before : List Token} {e : Expression} :
    Derives before e → ∀ tokens : List Token, tokens.map Token.word = e.words →
      ∃ e', Derives tokens e' ∧ e'.unplaced = e.unplaced
  | @Derives.literal _ value _, tokens, same => by
      obtain ⟨t, _, rfl, first, none⟩ := List.map_eq_cons_iff.mp same
      cases List.map_eq_nil_iff.mp none
      exact ⟨_, .literal (Token.spells_of_word first), rfl⟩
  | .symbol _, tokens, same => by
      obtain ⟨t, _, rfl, first, none⟩ := List.map_eq_cons_iff.mp same
      cases List.map_eq_nil_iff.mp none
      obtain ⟨ident, text⟩ := t.word_eq_ident first
      exact ⟨_, .symbol ident, by rw [text]; rfl⟩
  | .form _ inside _, tokens, same => inside.reread tokens same

theorem DerivesForm.reread {p : Position} {before : List Token} {e : Expression} :
    DerivesForm p before e → ∀ tokens : List Token, tokens.map Token.word = e.words →
      ∃ e', Derives tokens e' ∧ e'.unplaced = e.unplaced
  | .define _ _ items, tokens, same => by
      obtain ⟨opened, head, inside, closed, rfl, opens, begins, same, closes⟩ := tokens_of_form same
      obtain ⟨t, rest, rfl, first, same⟩ := List.map_eq_cons_iff.mp same
      obtain ⟨ident, text⟩ := t.word_eq_ident first
      obtain ⟨es, derives, moved⟩ := items.reread rest (by simpa [wordsAll] using same)
      obtain ⟨value, es, rfl, value_moved, moved⟩ := cons_of_relocate moved
      cases nil_of_relocate moved
      refine ⟨_, .form opens (.define (congrArg Word.lexeme begins) ident derives) closes, ?_⟩
      rw [unplaced, unplaced, relocate, relocate, value_moved, text]
  | @DerivesForm.function _ _ _ _ params _ _ _ _ _ _ _ _ items, tokens, same => by
      obtain ⟨opened, head, inside, closed, rfl, opens, begins, same, closes⟩ := tokens_of_form same
      obtain ⟨t, rest, rfl, first, same⟩ := List.map_eq_cons_iff.mp same
      obtain ⟨ident, text⟩ := t.word_eq_ident first
      obtain ⟨bracket, rest, rfl, bracketed, same⟩ := List.map_eq_cons_iff.mp same
      obtain ⟨front, rest, rfl, listed, inner⟩ := List.map_eq_append_iff.mp same
      obtain ⟨names, last, rfl, named, ends⟩ := List.map_eq_append_iff.mp listed
      obtain ⟨unbracket, _, rfl, unbracketed, none⟩ := List.map_eq_cons_iff.mp ends
      cases List.map_eq_nil_iff.mp none
      obtain ⟨idents, texts⟩ := names_of_words named
      obtain ⟨es, derives, moved⟩ := items.reread rest (by simpa [wordsAll] using inner)
      obtain ⟨body, es, rfl, body_moved, moved⟩ := cons_of_relocate moved
      cases nil_of_relocate moved
      have spelled := DerivesForm.function (p := opened.position) (congrArg Word.lexeme begins) ident
        (congrArg Word.lexeme bracketed) idents (congrArg Word.lexeme unbracketed) derives
      rw [List.append_assoc, List.singleton_append]
      refine ⟨_, .form opens spelled closes, ?_⟩
      rw [unplaced, unplaced, relocate, relocate, body_moved, text, texts]
  | .bind _ _ items, tokens, same => by
      obtain ⟨opened, head, inside, closed, rfl, opens, begins, same, closes⟩ := tokens_of_form same
      obtain ⟨t, rest, rfl, first, same⟩ := List.map_eq_cons_iff.mp same
      obtain ⟨ident, text⟩ := t.word_eq_ident first
      obtain ⟨es, derives, moved⟩ := items.reread rest (by simpa [wordsAll] using same)
      obtain ⟨bound, es, rfl, bound_moved, moved⟩ := cons_of_relocate moved
      obtain ⟨body, es, rfl, body_moved, moved⟩ := cons_of_relocate moved
      cases nil_of_relocate moved
      refine ⟨_, .form opens (.bind (congrArg Word.lexeme begins) ident derives) closes, ?_⟩
      rw [unplaced, unplaced, relocate, relocate, bound_moved, body_moved, text]
  | .branch _ items, tokens, same => by
      obtain ⟨opened, head, inside, closed, rfl, opens, begins, same, closes⟩ := tokens_of_form same
      obtain ⟨es, derives, moved⟩ := items.reread inside (by simpa [wordsAll] using same)
      obtain ⟨condition, es, rfl, condition_moved, moved⟩ := cons_of_relocate moved
      obtain ⟨yes, es, rfl, yes_moved, moved⟩ := cons_of_relocate moved
      obtain ⟨no, es, rfl, no_moved, moved⟩ := cons_of_relocate moved
      cases nil_of_relocate moved
      refine ⟨_, .form opens (.branch (congrArg Word.lexeme begins) derives) closes, ?_⟩
      rw [unplaced, unplaced, relocate, relocate, condition_moved, yes_moved, no_moved]
  | .block _ items, tokens, same => by
      obtain ⟨opened, head, inside, closed, rfl, opens, begins, same, closes⟩ := tokens_of_form same
      obtain ⟨body, derives, moved⟩ := items.reread inside same
      refine ⟨_, .form opens (.block (congrArg Word.lexeme begins) derives) closes, ?_⟩
      rw [unplaced, unplaced, relocate, relocate, moved]
  | @DerivesForm.cond _ _ _ clauses _ items, tokens, same => by
      obtain ⟨opened, head, inside, closed, rfl, opens, begins, same, closes⟩ := tokens_of_form same
      obtain ⟨es, derives, moved⟩ := items.reread inside (wordsClauses_eq clauses ▸ same)
      obtain ⟨clauses', rfl, clauses_moved⟩ := clauses_of_relocate moved
      refine ⟨_, .form opens (.cond (congrArg Word.lexeme begins) derives) closes, ?_⟩
      rw [unplaced, unplaced, relocate, relocate, clauses_moved]
  | .call _ items, tokens, same => by
      obtain ⟨opened, head, inside, closed, rfl, opens, begins, same, closes⟩ := tokens_of_form same
      obtain ⟨ident, text⟩ := head.word_eq_ident begins
      obtain ⟨args, derives, moved⟩ := items.reread inside same
      refine ⟨_, .form opens (.call ident derives) closes, ?_⟩
      rw [unplaced, unplaced, relocate, relocate, moved, text]
  | .compose _ first stages steps, tokens, same => by
      obtain ⟨opened, head, inside, closed, rfl, opens, begins, same, closes⟩ := tokens_of_form same
      obtain ⟨here, later, rfl, own, others⟩ := List.map_eq_append_iff.mp same
      obtain ⟨first', derives, first_moved⟩ := first.reread here own
      obtain ⟨stages', derives', stages_moved⟩ := stages_of_words others
      have some : stages' ≠ [] := by
        rintro rfl
        exact steps (List.map_eq_nil_iff.mp stages_moved.symm)
      refine ⟨_, .form opens (.compose (congrArg Word.lexeme begins) derives derives' some) closes, ?_⟩
      rw [unplaced, unplaced] at first_moved ⊢
      rw [relocate, relocate, first_moved, stages_moved]

theorem DerivesAll.reread {before : List Token} {es : List Expression} :
    DerivesAll before es → ∀ tokens : List Token, tokens.map Token.word = wordsAll es →
      ∃ es', DerivesAll tokens es' ∧ relocateAll (fun _ => .start) es' = relocateAll (fun _ => .start) es
  | .nil, tokens, same => by
      cases List.map_eq_nil_iff.mp same
      exact ⟨[], .nil, rfl⟩
  | .cons first rest, tokens, same => by
      obtain ⟨here, later, rfl, own, others⟩ := List.map_eq_append_iff.mp same
      obtain ⟨e', derives, moved⟩ := first.reread here own
      obtain ⟨es', derives', moved'⟩ := rest.reread later others
      refine ⟨e' :: es', .cons derives derives', ?_⟩
      rw [relocateAll, relocateAll, moved']
      exact congrArg (· :: _) moved

end

theorem DerivesAll.exists_part {tokens : List Token} {es : List Expression} :
    DerivesAll tokens es → ∀ e ∈ es, ∃ part, Derives part e ∧ part ⊆ tokens
  | .nil, e, listed => by cases listed
  | .cons first rest, e, listed => by
      rcases List.mem_cons.mp listed with rfl | listed
      · exact ⟨_, first, List.subset_append_left _ _⟩
      · obtain ⟨part, derives, inside⟩ := rest.exists_part e listed
        exact ⟨part, derives, fun t member => List.mem_append_right _ (inside member)⟩

theorem parse_written {words : List Word} {text : String} (written : Written words text.toList) :
    ∃ tokens : List Token, tokens.map Token.word = words ∧
      ∀ e, Derives tokens e → e.Admitted 0 → ∃ q, parse text = .ok (.block [e] q) := by
  obtain ⟨tokens, p, lexed, same, proper⟩ := written.tokensFrom_words .start
  refine ⟨tokens, same, fun e derives admitted => ?_⟩
  have single : DerivesAll tokens [e] := List.append_nil tokens ▸ .cons derives .nil
  have program := DerivesProgram.block single (by simpa using admitted)
  rw [← Parser.body_append proper p] at program
  exact ⟨_, bind_ok.mpr ⟨_, lexed, Parser.parseTokens_of_derives program⟩⟩

/-- A form of a parsed program is printed as a text that parses to a program of one form, which is the
printed one up to positions. That a double reads back is assumed for each double in the form. -/
theorem parse_source {text : String} {forms : List Expression} {p : Position}
    (parsed : parse text = .ok (.block forms p)) {e : Expression} (listed : e ∈ forms)
    (back : ∀ d ∈ e.doubles, d.ReadsBack) :
    ∃ e' q, parse e.source = .ok (.block [e'] q) ∧ e'.unplaced = e.unplaced := by
  obtain ⟨before, lexed, read⟩ := bind_ok.mp parsed
  cases Parser.parseTokens_derives read with
  | block derives admitted =>
  obtain ⟨part, derives, inside⟩ := derives.exists_part e listed
  have runs : ∀ t ∈ part, t.lexeme = .ident → IsRun (.ident t.text) := fun t member =>
    tokenize_ident lexed t ((List.takeWhile_sublist _).subset (inside member))
  obtain ⟨front, written, printed⟩ := derives.prints runs back [] [] (.nil .nil) stops_nil
  have spelled : e.source.toList = front := by
    rw [source]
    simpa using printed ""
  rw [List.append_nil, ← spelled] at written
  obtain ⟨tokens, words, parses⟩ := parse_written written
  obtain ⟨e', derives', same⟩ := derives.reread tokens words
  obtain ⟨q, reparsed⟩ := parses e' derives' ((admitted e listed).of_unplaced same)
  exact ⟨e', q, reparsed, same⟩

section Halved

def halved : String := "(-> -0.5 (f)) \"a\\n\""

def minusHalf : Double := ⟨0xbfe0000000000000⟩

def halvedTokens : List Token :=
  [⟨.leftParen, "(", none, ⟨1, 1, 0⟩⟩, ⟨.compose, "->", none, ⟨1, 2, 1⟩⟩,
    ⟨.double, "-0.5", some (.double minusHalf), ⟨1, 5, 4⟩⟩, ⟨.leftParen, "(", none, ⟨1, 10, 9⟩⟩,
    ⟨.ident, "f", none, ⟨1, 11, 10⟩⟩, ⟨.rightParen, ")", none, ⟨1, 12, 11⟩⟩,
    ⟨.rightParen, ")", none, ⟨1, 13, 12⟩⟩, ⟨.str, "\"a\\n\"", some (.str "a\n"), ⟨1, 15, 14⟩⟩,
    .eof ⟨1, 20, 19⟩]

def halvedForm : Expression :=
  .compose (.constant (.datum (.double minusHalf)) ⟨1, 5, 4⟩) [⟨"f", ⟨1, 11, 10⟩⟩] ⟨1, 1, 0⟩

theorem parse_halved : parse halved =
    .ok (.block [halvedForm, .constant (.datum (.str "a\n")) ⟨1, 15, 14⟩] ⟨1, 1, 0⟩) := by
  have lexed : tokenize halved = .ok halvedTokens := eq_ok_of_toOption (by decide +kernel)
  exact bind_ok.mpr ⟨halvedTokens, lexed, rfl⟩

theorem minusHalf_readsBack : minusHalf.ReadsBack :=
  ⟨true, ['0'], ['5'], rfl, rfl, by decide +kernel, by decide +kernel⟩

theorem source_halved : halvedForm.source = "(-> -0.5 f)" ∧
    ∃ e q, parse halvedForm.source = .ok (.block [e] q) ∧ e.unplaced = halvedForm.unplaced := by
  refine ⟨by decide +kernel, parse_source parse_halved (.head _) fun d member => ?_⟩
  cases List.mem_singleton.mp member
  exact minusHalf_readsBack

end Halved

end LispMachine
