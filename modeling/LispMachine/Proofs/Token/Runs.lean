import LispMachine.Proofs.Token.Classes
import LispMachine.Session

set_option autoImplicit false

namespace LispMachine

namespace Reading

/-- How a text is read behind one more character. A wrong escape ends the string that it is in. -/
def behind (r : Reading) (c : Char) : Reading :=
  match r with
  | .code => if c = '"' then .string else if c = ';' then .comment else .code
  | .comment => if c = '\n' then .code else .comment
  | .string => if c = '"' then .code else if c = '\\' then .escaped else .string
  | .escaped => if c ∈ ['n', 't', 'r', '"', '\\'] then .string else .code

def through (r : Reading) (text : List Char) : Reading := text.foldl behind r

@[simp] theorem through_nil (r : Reading) : r.through [] = r := rfl

@[simp] theorem through_cons (r : Reading) (c : Char) (text : List Char) :
    r.through (c :: text) = (r.behind c).through text := rfl

@[simp] theorem through_append (r : Reading) (a b : List Char) :
    r.through (a ++ b) = (r.through a).through b := List.foldl_append

end Reading

namespace Lexer

open Reading

structure MaximalRun (before run behind : List Char) : Prop where
  some : run ≠ []
  symbols : ∀ c ∈ run, isSymbolChar c = true
  starts : ∀ c ∈ before.getLast?, isSymbolChar c = false
  stops : Stops behind

namespace Source

def pull : Nat → Source → Source
  | 0, s => s
  | n + 1, s => pull n s.next.2

end Source

section Readings

theorem behind_code {c : Char} (plain : c ≠ '"' ∧ c ≠ ';') : code.behind c = .code := by
  simp [behind, plain]

theorem plain_of_symbol {c : Char} (symbol : isSymbolChar c = true) : c ≠ '"' ∧ c ≠ ';' := by
  constructor <;>
  · rintro rfl
    revert symbol
    decide

theorem through_symbols {run : List Char} (symbols : ∀ c ∈ run, isSymbolChar c = true) :
    code.through run = .code := by
  induction run with
  | nil => rfl
  | cons c run ih =>
      obtain ⟨first, others⟩ := List.forall_mem_cons.mp symbols
      simpa [behind_code (plain_of_symbol first)] using ih others

theorem through_comment {body : List Char} (inside : '\n' ∉ body) : comment.through body = .comment := by
  induction body with
  | nil => rfl
  | cons c body ih =>
      simp only [List.mem_cons, not_or] at inside
      have other : c ≠ '\n' := Ne.symm inside.1
      simpa [behind, other] using ih inside.2

-- Only a comment that nothing ends is not left again.
theorem through_gap {last : Bool} {gap : List Char} (skipped : Gap last gap) :
    code.through gap = .code ∧ Gap false gap ∨ last = true ∧ code.through gap = .comment := by
  have opens : code.behind ';' = .comment := rfl
  have closes : comment.behind '\n' = .code := rfl
  induction skipped with
  | nil => exact .inl ⟨rfl, .nil⟩
  | @blank c rest blank _ ih =>
      have plain : c ≠ '"' ∧ c ≠ ';' := by
        constructor <;>
        · rintro rfl
          revert blank
          decide
      rw [through_cons, behind_code plain]
      exact ih.imp (And.imp_right (.blank blank)) id
  | comment inside _ ih =>
      rw [through_cons, opens, through_append, through_comment inside, through_cons, closes]
      exact ih.imp (And.imp_right (.comment inside)) id
  | unended final inside =>
      rw [through_cons, opens, through_comment inside]
      exact .inr ⟨final, rfl⟩

theorem unescape?_isSome_iff {c : Char} : (unescape? c).isSome ↔ c ∈ ['n', 't', 'r', '"', '\\'] := by
  unfold unescape?
  split <;> simp_all

theorem scanString_within (raw value more tail : List Char) (closes : string.through more = .code) :
    ∃ rest, (scanString raw value (more ++ tail)).rest = rest ++ tail ∧ code.through rest = .code := by
  have enters : string.behind '\\' = .escaped := rfl
  fun_induction scanString raw value more with
  | case1 | case3 => cases closes
  | case2 raw value rest =>
      refine ⟨rest, ?_, closes⟩
      rw [List.cons_append, scanString.eq_def]
      simp
  | case4 raw value e rest v found quote ih =>
      have leaves : Reading.escaped.behind e = .string :=
        if_pos (unescape?_isSome_iff.mp (Option.isSome_of_eq_some found))
      rw [through_cons, enters, through_cons, leaves] at closes
      obtain ⟨rest', same, code⟩ := ih closes
      refine ⟨rest', ?_, code⟩
      rw [← same, List.cons_append, List.cons_append, scanString.eq_def]
      simp [found]
  | case5 raw value e rest unknown quote =>
      have leaves : Reading.escaped.behind e = .code :=
        if_neg fun listed => by simpa [unknown] using unescape?_isSome_iff.mpr listed
      rw [through_cons, enters, through_cons, leaves] at closes
      refine ⟨rest, ?_, closes⟩
      rw [List.cons_append, List.cons_append, scanString.eq_def]
      simp [unknown]
  | case6 raw value c rest quote backslash ih =>
      have stays : string.behind c = .string := by simp [behind, quote, backslash]
      rw [through_cons, stays] at closes
      obtain ⟨rest', same, code⟩ := ih closes
      refine ⟨rest', ?_, code⟩
      rw [← same, List.cons_append, scanString.eq_def]
      simp [quote, backslash]

end Readings

section Tokens

variable {c : Char} {more tail : List Char}

-- If the text is code again before `tail`, where no symbol character may stand last, then a token that
-- starts before it is over before it.
theorem scan_within (solid : Solid c) (code : code.through (c :: more) = .code)
    (apart : ∀ d ∈ (c :: more).getLast?, isSymbolChar d = false) :
    ∃ rest, (scan c (more ++ tail)).rest = rest ++ tail ∧ Reading.code.through rest = .code := by
  rw [through_cons] at code
  unfold scan
  split
  next lexeme found =>
    have plain : c ≠ '"' ∧ c ≠ ';' := by
      refine ⟨?_, solid.semicolon⟩
      rintro rfl
      cases found
    rw [behind_code plain] at code
    exact ⟨more, rfl, code⟩
  next =>
    split
    next quote =>
      subst quote
      exact scanString_within _ _ _ _ code
    next unquoted =>
      rw [behind_code ⟨unquoted, solid.semicolon⟩] at code
      split
      next symbol =>
        have split := List.takeWhile_append_dropWhile (p := isSymbolChar) (l := more)
        have symbols : ∀ d ∈ more.takeWhile isSymbolChar, isSymbolChar d = true :=
          List.all_eq_true.mp List.all_takeWhile
        have ends : more.dropWhile isSymbolChar ≠ [] := by
          intro none
          rw [none, List.append_nil] at split
          rw [split] at symbols
          have last := apart _ (List.getLast?_eq_some_getLast (List.cons_ne_nil c more))
          rcases List.mem_cons.mp (List.getLast_mem (List.cons_ne_nil c more)) with same | member
          · rw [same, symbol] at last
            cases last
          · rw [symbols _ member] at last
            cases last
        refine ⟨more.dropWhile isSymbolChar, ?_, ?_⟩
        · simp [List.dropWhile_append, ends]
        · rw [← split, through_append, through_symbols symbols] at code
          exact code
      next => exact ⟨more, rfl, code⟩

theorem pull_run (before : List Char) {run behind : List Char} (maximal : MaximalRun before run behind)
    (code : code.through before = .code) (p : Position) :
    ∃ n, (Source.pull n ⟨before ++ (run ++ behind), p⟩).next =
      (answer run (p.after before) (symbolRun run), ⟨behind, (p.after before).after run⟩) := by
  rcases gap_cases before with last | ⟨gap, c, more, skipped, solid, rfl⟩
  · have skipped : Gap false before := by
      rcases through_gap last with ⟨_, skipped⟩ | ⟨_, comment⟩
      · exact skipped
      · rw [comment] at code
        cases code
    obtain ⟨c, cs, rfl⟩ := List.exists_cons_of_ne_nil maximal.some
    have symbol := maximal.symbols c (.head _)
    refine ⟨0, ?_⟩
    rw [Source.pull, List.cons_append, Source.next_scan skipped (.of_isSymbolChar symbol),
      scan_symbols maximal.symbols maximal.stops]
    cases symbolRun (c :: cs) <;> rfl
  · have quiet : Reading.code.through gap = .code := by
      rcases through_gap skipped with ⟨quiet, _⟩ | ⟨final, _⟩
      · exact quiet
      · cases final
    rw [through_append, quiet] at code
    have apart : ∀ d ∈ (c :: more).getLast?, isSymbolChar d = false := by
      simpa [List.getLast?_append] using maximal.starts
    have within : ∃ rest, (scan c (more ++ (run ++ behind))).rest = rest ++ (run ++ behind) ∧
        Reading.code.through rest = .code := scan_within solid code apart
    obtain ⟨rest, ended, code⟩ := within
    have whole : (scan c (more ++ (run ++ behind))).raw ++ rest = c :: more := by
      have all := scan_append c (more ++ (run ++ behind))
      rw [ended, ← List.append_assoc, ← List.cons_append] at all
      exact List.append_cancel_right all
    have shorter : rest.length < (gap ++ c :: more).length := by
      have long := List.length_pos_iff.mpr (Source.scan_raw_ne_nil c (more ++ (run ++ behind)))
      have sum := congrArg List.length whole
      simp only [List.length_append, List.length_cons] at sum ⊢
      omega
    have starts : ∀ d ∈ rest.getLast?, isSymbolChar d = false := by
      intro d last
      refine apart d ?_
      rw [← whole, List.getLast?_append, Option.mem_def.mp last]
      rfl
    obtain ⟨n, found⟩ := pull_run rest ⟨maximal.some, maximal.symbols, starts, maximal.stops⟩ code
      ((p.after gap).after (scan c (more ++ (run ++ behind))).raw)
    have place : ((p.after gap).after (scan c (more ++ (run ++ behind))).raw).after rest =
        p.after (gap ++ c :: more) := by
      rw [← Position.after_append, whole, ← Position.after_append]
    refine ⟨n + 1, ?_⟩
    rw [Source.pull, List.append_assoc, List.cons_append, Source.next_scan skipped solid, ended]
    rw [place] at found
    exact found
termination_by before.length

end Tokens

namespace Source

variable {s behind : Source} {t : Token} {tokens : List Token}

theorem pull_eof (read : s.next = (.ok t, behind)) (eof : t.lexeme = .eof) (n : Nat) :
    (pull n behind).next = (.ok t, behind) := by
  have again : behind.next = (.ok t, behind) := by
    simp only [next] at read
    split at read
    next rest =>
      cases read
      generalize s.skipGap = skipped at rest
      obtain ⟨_, q⟩ := skipped
      subst rest
      exact next_end .nil q
    next =>
      split at read <;> cases read
      next found => exact absurd eof (scan_ne_eof found)
  induction n with
  | zero => exact again
  | succ n ih => rwa [pull, again]

theorem tokensFrom_keeps {before : List Token} (read : s.tokensFrom before = .ok tokens) : before ⊆ tokens := by
  fun_induction tokensFrom s before with
  | case1 => cases read
  | case2 s before t behind found eof =>
      cases read
      intro t' member
      exact List.mem_reverse.mpr (.tail _ member)
  | case3 s before t behind found more ih => exact (List.cons_subset.mp (ih read)).2

theorem tokensFrom_pull {before : List Token} (read : s.tokensFrom before = .ok tokens) (n : Nat) :
    ∃ t ∈ tokens, (s.pull n).next.1 = .ok t := by
  fun_induction tokensFrom s before generalizing n with
  | case1 => cases read
  | case2 s before t behind found eof =>
      cases read
      refine ⟨t, by simp, ?_⟩
      cases n with
      | zero => rw [pull, found]
      | succ n => rw [pull, found, pull_eof found eof]
  | case3 s before t behind found more ih =>
      cases n with
      | zero => exact ⟨t, tokensFrom_keeps read (.head _), by rw [pull, found]⟩
      | succ n =>
          rw [pull, found]
          exact ih read n

theorem tokensFrom_fault {before : List Token} {d : Diagnostic} {n : Nat}
    (sooner : ∀ m < n, ∃ t, (s.pull m).next.1 = .ok t) (fault : (s.pull n).next.1 = .error d) :
    s.tokensFrom before = .error d := by
  induction n generalizing s before with
  | zero =>
      rw [tokensFrom]
      split
      next found =>
        rw [pull, found] at fault
        cases fault
        rfl
      next found =>
        rw [pull, found] at fault
        cases fault
  | succ n ih =>
      have later : ∀ m < n, ∃ t, ((s.next.2).pull m).next.1 = .ok t := fun m less =>
        sooner (m + 1) (Nat.succ_lt_succ less)
      obtain ⟨t, first⟩ := sooner 0 (Nat.succ_pos n)
      rw [tokensFrom]
      split
      next found =>
        rw [pull, found] at first
        cases first
      next t behind found =>
        rw [pull, found] at fault
        rw [found] at later
        split
        next eof =>
          rw [pull_eof found eof] at fault
          cases fault
        next => exact ih later fault

end Source

end Lexer

open Lexer

/-- A run of symbol characters outside strings and comments that is as long as it can be is one token, of
the class that its spelling tells. Pulling tokens comes to it whatever was refused before. It is among the
tokens of a text that is read, and what it is refused with, if nothing before it is refused, is what the
text is refused with. -/
theorem run_classified {text : String} {before run behind : List Char}
    (whole : text.toList = before ++ (run ++ behind)) (maximal : MaximalRun before run behind)
    (code : Reading.code.through before = .code) :
    ∃ p x n, p.Ends before ∧ (∀ y, Classified run p y ↔ y = x) ∧
      ((Source.ofText text).pull n).next = (x, ⟨behind, p.after run⟩) ∧
      (∀ tokens, tokenize text = .ok tokens → ∃ t ∈ tokens, x = .ok t) ∧
      ∀ d, x = .error d → (∀ m < n, ∃ t, ((Source.ofText text).pull m).next.1 = .ok t) →
        tokenize text = .error d := by
  obtain ⟨n, found⟩ := pull_run before maximal code .start
  rw [← whole] at found
  refine ⟨Position.start.after before, answer run (.after .start before) (symbolRun run), n, ?_, ?_, found,
    ?_, ?_⟩
  · exact Position.Ends.start.after before
  · intro y
    rw [classified_iff, eq_comm]
  · intro tokens read
    obtain ⟨t, member, same⟩ := Source.tokensFrom_pull read n
    rw [Source.ofText, found] at same
    exact ⟨t, member, same⟩
  · intro d refused sooner
    refine Source.tokensFrom_fault sooner ?_
    rw [Source.ofText, found]
    exact refused

section Quoted

def quotedDigits : String := "\"; \\\" 7\" ; \"8\n-0042,x"

def quotedBefore : List Char := "\"; \\\" 7\" ; \"8\n".toList

theorem quotedDigits_classified : MaximalRun quotedBefore "-0042".toList ",x".toList ∧
    Reading.code.through quotedBefore = .code ∧
    ∃ n, ((Source.ofText quotedDigits).pull n).next.1 =
      .ok ⟨.long, "-0042", some (.long (-42)), ⟨2, 1, 14⟩⟩ := by
  have newline : ∀ c ∈ quotedBefore.getLast?, isSymbolChar c = false := by
    intro c last
    cases last
    decide
  have maximal : MaximalRun quotedBefore "-0042".toList ",x".toList :=
    ⟨by decide, List.all_eq_true.mp (by decide), newline, stops_cons (by decide) _⟩
  have code : Reading.code.through quotedBefore = .code := by decide
  have whole : quotedDigits.toList = quotedBefore ++ ("-0042".toList ++ ",x".toList) := by decide
  obtain ⟨p, x, n, ends, classes, found, _⟩ := run_classified whole maximal code
  obtain rfl : p = ⟨2, 1, 14⟩ := by
    obtain ⟨_, _, _⟩ := p
    obtain ⟨rfl, rfl, rfl⟩ := ends
    decide
  have shape : IsInteger "-0042".toList true ['0', '0', '4', '2'] :=
    ⟨⟨by decide, List.all_eq_true.mp (by decide)⟩, by decide⟩
  have long := (classes _).mp (.long (n := -42) shape (by decide))
  refine ⟨maximal, code, n, ?_⟩
  rw [found, ← long]
  rfl

end Quoted

end LispMachine
