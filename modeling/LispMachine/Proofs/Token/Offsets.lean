import LispMachine.Token.Lexer

set_option autoImplicit false

namespace LispMachine

namespace Lexer.Source

theorem offset_le_skipGapFrom (comment : Bool) (cs : List Char) (p : Position) :
    p.offset ≤ (skipGapFrom comment cs p).position.offset := by
  fun_induction skipGapFrom comment cs p with
  | case1 | case5 => exact Nat.le_refl _
  | case2 c rest p ih | case3 comment rest p code ih | case4 comment c rest p code sep blank ih =>
      rw [Position.offset_advance] at ih
      omega

theorem scan_raw_ne_nil (c : Char) (cs : List Char) : (scan c cs).raw ≠ [] := by
  intro empty
  have whole := scan_append c cs
  have shorter := length_scan_rest c cs
  rw [empty, List.nil_append] at whole
  rw [whole, List.length_cons] at shorter
  omega

theorem offset_le_next {s behind : Source} {t : Token} (read : s.next = (.ok t, behind)) :
    s.position.offset ≤ t.position.offset := by
  have gap : s.position.offset ≤ s.skipGap.position.offset := offset_le_skipGapFrom _ _ _
  simp only [next] at read
  split at read
  next =>
    cases read
    exact gap
  next c cs rest =>
    split at read <;> cases read
    exact gap

theorem offset_lt_behind {s behind : Source} {t : Token} (read : s.next = (.ok t, behind))
    (more : t.lexeme ≠ .eof) : t.position.offset < behind.position.offset := by
  simp only [next] at read
  split at read
  next =>
    cases read
    exact absurd rfl more
  next c cs rest =>
    have long := List.length_pos_iff.mpr (scan_raw_ne_nil c cs)
    split at read <;> cases read
    simp only [Position.offset_after]
    omega

-- The tokens read so far, last first, stand in falling order before the rest of the source.
theorem tokensFrom_increasing {s : Source} {before tokens : List Token}
    (read : s.tokensFrom before = .ok tokens)
    (falling : before.Pairwise (fun a b => b.position.offset < a.position.offset))
    (behind : ∀ t ∈ before, t.position.offset < s.position.offset) :
    tokens.Pairwise (fun a b => a.position.offset < b.position.offset) := by
  fun_induction tokensFrom s before with
  | case1 => cases read
  | case2 s before t rest found eof =>
      cases read
      have start := offset_le_next found
      rw [List.pairwise_reverse, List.pairwise_cons]
      exact ⟨fun a member => Nat.lt_of_lt_of_le (behind a member) start, falling⟩
  | case3 s before t rest found more ih =>
      have start := offset_le_next found
      have stop := offset_lt_behind found more
      apply ih read
      · rw [List.pairwise_cons]
        exact ⟨fun a member => Nat.lt_of_lt_of_le (behind a member) start, falling⟩
      · intro a member
        rcases List.mem_cons.mp member with rfl | member
        · exact stop
        · have := behind a member
          omega

end Lexer.Source

theorem tokenize_increasing {text : String} {tokens : List Token}
    (read : tokenize text = .ok tokens) :
    tokens.Pairwise (fun a b => a.position.offset < b.position.offset) :=
  Lexer.Source.tokensFrom_increasing read .nil (by simp)

end LispMachine
