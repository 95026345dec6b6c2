import LispMachine.Proofs.Expression.Nodes
import LispMachine.Proofs.Expression.Texts

set_option autoImplicit false

namespace LispMachine

namespace Lexer

variable {n : Nat} {lexeme : Lexeme} {s : String}

theorem number_ne_str (run : List Char) : number run ≠ .ok (lexeme, some (.str s)) := by
  have whole : integer run ≠ .ok (lexeme, some (.str s)) := by
    simp only [integer]
    split <;> split <;> simp
  intro read
  simp only [number] at read
  split at read <;> split at read
  · exact whole read
  all_goals cases read

theorem symbolRun_ne_str (run : List Char) : symbolRun run ≠ .ok (lexeme, some (.str s)) := by
  intro read
  unfold symbolRun at read
  split at read
  · cases read
  · split at read
    · exact number_ne_str run read
    · cases read

-- An escape is two characters for one.
theorem length_scanString {raw value cs : List Char} (shorter : value.length ≤ raw.length)
    (read : (scanString raw value cs).meaning = .ok (lexeme, some (.str s))) :
    s.length ≤ (scanString raw value cs).raw.length := by
  fun_induction scanString raw value cs with
  | case1 | case3 | case5 => cases read
  | case2 raw value rest =>
      cases read
      simp only [String.length_ofList, List.length_reverse, List.length_cons]
      omega
  | case4 _ _ _ _ _ _ _ ih | case6 _ _ _ _ _ _ ih =>
      refine ih ?_ read
      simp only [List.length_cons]
      omega

theorem length_scan {c : Char} {cs : List Char} (read : (scan c cs).meaning = .ok (lexeme, some (.str s))) :
    s.length ≤ (scan c cs).raw.length := by
  unfold scan at read ⊢
  split at read
  · cases read
  next =>
    split at read
    next quote =>
      subst quote
      simp only [if_true]
      exact length_scanString (Nat.zero_le _) read
    next =>
      split at read
      · exact (symbolRun_ne_str _ read).elim
      · cases read

namespace Source

theorem next_tells {s behind : Source} {t : Token} (read : s.next = (.ok t, behind))
    (short : s.rest.length ≤ n) : t.Tells (·.length ≤ n) := by
  have gap : s.skipGap.rest.length ≤ s.rest.length := length_skipGapFrom _ _ _
  simp only [next] at read
  split at read
  · cases read
    refine ⟨Nat.zero_le _, fun text told => ?_⟩
    cases told
  next c cs rest =>
    have whole := congrArg List.length (scan_append c cs)
    rw [List.length_append, ← rest] at whole
    split at read <;> cases read
    next lexeme literal found =>
      constructor
      case text =>
        rw [String.length_ofList]
        omega
      case literal =>
        rintro text rfl
        have bound := length_scan found
        omega

theorem tokensFrom_tells {s : Source} {before tokens : List Token} (read : s.tokensFrom before = .ok tokens)
    (short : s.rest.length ≤ n) (told : ∀ t ∈ before, t.Tells (·.length ≤ n)) :
    tokens.length ≤ before.length + s.rest.length + 1 ∧ ∀ t ∈ tokens, t.Tells (·.length ≤ n) := by
  fun_induction tokensFrom s before with
  | case1 => cases read
  | case2 s before t rest found eof =>
      cases read
      refine ⟨by simp, fun t' member => ?_⟩
      rcases List.mem_cons.mp (List.mem_reverse.mp member) with rfl | member
      · exact next_tells found short
      · exact told t' member
  | case3 s before t rest found more ih =>
      have shorter := length_next found more
      have later := ih read (by omega) (List.forall_mem_cons.mpr ⟨next_tells found short, told⟩)
      refine ⟨?_, later.2⟩
      have bound := later.1
      rw [List.length_cons] at bound
      omega

end Source

end Lexer

theorem tokenize_tells {text : String} {tokens : List Token} (read : tokenize text = .ok tokens) :
    tokens.length ≤ text.length + 1 ∧ ∀ t ∈ tokens, t.Tells (·.length ≤ text.length) := by
  have told := Lexer.Source.tokensFrom_tells read (Nat.le_refl _) (List.forall_mem_nil _)
  simpa only [Lexer.Source.ofText, String.length_toList, List.length_nil, Nat.zero_add] using told

open Expression

theorem parse_sizes {text : String} {forms : List Expression} {p : Position}
    (read : parse text = .ok (.block forms p)) :
    (nodesAll forms).length ≤ text.length + 1 ∧ ∀ s ∈ textsAll forms, s.length ≤ text.length := by
  obtain ⟨tokens, lexed, read⟩ := bind_ok.mp read
  obtain ⟨few, tell⟩ := tokenize_tells lexed
  have proper := List.takeWhile_sublist (fun t : Token => t.lexeme ≠ .eof) (l := tokens)
  cases Parser.parseTokens_derives read with
  | block derives _ =>
  constructor
  · have fewer := derives.offsets.length_le
    rw [List.length_map] at fewer
    exact Nat.le_trans fewer (Nat.le_trans proper.length_le few)
  · exact derives.texts fun t member => tell t (proper.subset member)

end LispMachine
