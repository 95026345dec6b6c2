import LispMachine.Proofs.Artifact.Reports

set_option autoImplicit false

namespace LispMachine.CompiledUnit

open Artifact

variable {unit : CompiledUnit} {bytes rest : List UInt8}

def behindHeader (rest : List UInt8) : Cursor := ⟨rest, 5, rest.length + 5, Nat.add_comm _ _⟩

theorem behindHeader_over (rest : List UInt8) : (behindHeader rest).Over (magic ++ version :: rest) :=
  ⟨rfl, by simp [behindHeader, magic]⟩

theorem behindHeader_extend (rest more : List UInt8) :
    (behindHeader rest).extend more = behindHeader (rest ++ more) := by
  simp only [behindHeader, Cursor.extend, List.length_append, Nat.add_right_comm]

section Header

theorem ofBytes_unmarked (unmarked : ¬ magic <+: bytes) : ofBytes bytes = .error .badMagic := by
  have refused : readMagic (Cursor.ofBytes bytes) = .error .badMagic := by
    unfold readMagic
    split
    next front c taken =>
      have shape : bytes = front ++ c.rest := (take_writes taken).1
      rw [if_neg]
      rintro rfl
      exact unmarked ⟨c.rest, shape.symm⟩
    next => rfl
  simp only [ofBytes, read, bind, refused, Except.map]

theorem readMagic_marked (rest : List UInt8) : readMagic (Cursor.ofBytes (magic ++ rest)) =
    .ok ((), ⟨rest, 4, rest.length + 4, Nat.add_comm _ _⟩) := by
  simp [readMagic, Reader.take, Cursor.ofBytes, Cursor.remaining, Cursor.advance, magic]

theorem readVersion_cons (v : UInt8) (rest : List UInt8) :
    readVersion ⟨v :: rest, 4, (v :: rest).length + 4, Nat.add_comm _ _⟩ =
      if v = version then .ok ((), behindHeader rest) else .error (.unsupportedVersion v) := by
  have read : Reader.byte ⟨v :: rest, 4, (v :: rest).length + 4, Nat.add_comm _ _⟩ =
      .ok (v, behindHeader rest) := by
    simp [Reader.byte, Reader.word, Reader.take, Cursor.remaining, Cursor.advance, bind, pure, ofLittleEndian,
      behindHeader]
  simp only [readVersion, bind, read]
  split <;> rfl

theorem ofBytes_foreign {v : UInt8} (foreign : v ≠ version) (rest : List UInt8) :
    ofBytes (magic ++ v :: rest) = .error (.unsupportedVersion v) := by
  simp only [ofBytes, read, bind, readMagic_marked, readVersion_cons, if_neg foreign, Except.map]

theorem ofBytes_header (rest : List UInt8) : ofBytes (magic ++ version :: rest) =
    match readContents (behindHeader rest) with
    | .ok (unit, c) => if c.rest = [] then .ok unit else .error (.trailingBytes c.rest.length)
    | .error e => .error e := by
  simp only [ofBytes, read_eq, bind, readMagic_marked, readVersion_cons, if_true, Except.map]
  rcases readContents (behindHeader rest) with e | ⟨unit, c⟩
  · rfl
  · simp only [readEnd, c.remaining_eq, List.length_eq_zero_iff]
    by_cases ended : c.rest = []
    · simp only [if_pos ended]
      rfl
    · simp only [if_neg ended]

end Header

inductive Refused (bytes : List UInt8) : DecodeError → Prop
  | unmarked : ¬ magic <+: bytes → Refused bytes .badMagic
  | foreign {v rest} : bytes = magic ++ v :: rest → v ≠ version → Refused bytes (.unsupportedVersion v)
  | inside {e} : e.Describes bytes → Refused bytes e
  | trailing {unit : CompiledUnit} {rest} : unit.Fits → bytes = unit.bytes ++ rest → rest ≠ [] →
      Refused bytes (.trailingBytes rest.length)

theorem ofBytes_refused {e : DecodeError} (failed : ofBytes bytes = .error e) : Refused bytes e := by
  by_cases marked : magic <+: bytes
  · obtain ⟨behind, rfl⟩ := marked
    cases behind with
    | nil =>
        cases failed
        exact .inside rfl
    | cons v rest =>
        by_cases foreign : v = version
        · subst foreign
          rw [ofBytes_header] at failed
          have told := readContents_truthful _ _ (behindHeader_over rest)
          cases found : readContents (behindHeader rest) with
          | error e' =>
              rw [found] at failed
              cases failed
              exact .inside (told.error e found).1
          | ok pair =>
              obtain ⟨unit, c⟩ := pair
              obtain ⟨front, fits⟩ := contents_writes found
              have shape : magic ++ version :: rest = unit.bytes ++ c.rest := by
                rw [bytes_eq, List.append_assoc, List.cons_append, ← front]
                rfl
              rw [found] at failed
              simp only at failed
              split at failed <;> cases failed
              next more => exact .trailing fits shape more
        · rw [ofBytes_foreign foreign] at failed
          cases failed
          exact .foreign rfl foreign
  · rw [ofBytes_unmarked marked] at failed
    cases failed
    exact .unmarked marked

theorem ofBytes_trailing (small : unit.Fits) {extra : List UInt8} (more : extra ≠ []) :
    ofBytes (unit.bytes ++ extra) = .error (.trailingBytes extra.length) := by
  obtain ⟨unit', c, found, behind, _⟩ := contents_reads (c := behindHeader (unit.contents ++ extra)) small rfl
  rw [bytes_eq, List.append_assoc, List.cons_append, ofBytes_header, found]
  simp only [behind, if_neg more]

/-- Errors tell the truth about the bytes. An end is reported where the bytes end; an unknown tag is the byte
at its offset and past the last of its kind; a text that is no UTF-8 has its size before it and lies in the
bytes; behind trailing bytes there is a whole artifact. The mark and the version are reported exactly where
they are not as they should be. -/
theorem ofBytes_error_true (bytes : List UInt8) :
    (∀ n, ofBytes bytes = .error (.unexpectedEnd n) → n = bytes.length) ∧
    (∀ kind tag offset, ofBytes bytes = .error (.unknownTag kind tag offset) →
      offset < bytes.length ∧ bytes[offset]? = some tag ∧ kind.last < tag) ∧
    (∀ start, ofBytes bytes = .error (.invalidUtf8 start) → ∃ size, 4 ≤ start ∧
      ofLittleEndian ((bytes.drop (start - 4)).take 4) = size ∧ start + size ≤ bytes.length ∧
      ¬ ((bytes.drop start).take size).toByteArray.IsValidUTF8) ∧
    (∀ k, ofBytes bytes = .error (.trailingBytes k) → 0 < k ∧ k < bytes.length ∧
      ∃ unit, ofBytes (bytes.take (bytes.length - k)) = .ok unit) ∧
    (ofBytes bytes = .error .badMagic ↔ ¬ magic <+: bytes) ∧
    ∀ v, ofBytes bytes = .error (.unsupportedVersion v) ↔
      magic <+: bytes ∧ bytes[4]? = some v ∧ v ≠ version := by
  refine ⟨fun n failed => ?_, fun kind tag offset failed => ?_, fun start failed => ?_, fun k failed => ?_,
    ⟨fun failed => ?_, ofBytes_unmarked⟩, fun v => ⟨fun failed => ?_, ?_⟩⟩
  · cases ofBytes_refused failed with
    | inside describes => exact describes
  · cases ofBytes_refused failed with
    | inside describes =>
        obtain ⟨here, beyond⟩ := describes
        exact ⟨(List.getElem?_eq_some_iff.mp here).1, here, beyond⟩
  · cases ofBytes_refused failed with
    | inside describes => exact describes
  · cases ofBytes_refused failed with
    | inside describes => exact describes.elim
    | @trailing unit rest fits shape more =>
        obtain ⟨unit', found, _⟩ := ofBytes_bytes fits
        have nonempty : 0 < unit.bytes.length := by simp [bytes_eq, magic]
        refine ⟨List.length_pos_iff.mpr more, ?_, unit', ?_⟩
        · rw [shape, List.length_append]
          omega
        · rw [shape, List.length_append, Nat.add_sub_cancel, List.take_left]
          exact found
  · cases ofBytes_refused failed with
    | unmarked other => exact other
    | inside describes => exact describes.elim
  · cases ofBytes_refused failed with
    | inside describes => exact describes.elim
    | @foreign _ rest shape other =>
        subst shape
        exact ⟨List.prefix_append _ _, rfl, other⟩
  · rintro ⟨⟨behind, rfl⟩, here, foreign⟩
    cases behind with
    | nil => cases here
    | cons v' rest =>
        cases here
        exact ofBytes_foreign foreign rest

-- A constant with tag 7, a text of one byte that no letter starts with, and a byte behind an artifact.
theorem garbled_described :
    (ofBytes (magic ++ version :: [0, 0, 0, 0, 1, 0, 0, 0, 7]) = .error (.unknownTag .constant 7 13) ∧
      TagKind.constant.last < 7) ∧
    (ofBytes (magic ++ version :: [1, 0, 0, 0, 0xff]) = .error (.invalidUtf8 9) ∧
      ¬ [0xff].toByteArray.IsValidUTF8) ∧
    (ofBytes (letters.bytes ++ [0]) = .error (.trailingBytes 1) ∧
      ∃ unit, ofBytes ((letters.bytes ++ [0]).take ((letters.bytes ++ [0]).length - 1)) = .ok unit) ∧
    (ofBytes magic = .error (.unexpectedEnd 4) ∧ magic.length = 4) ∧
    ofBytes (magic ++ [2]) = .error (.unsupportedVersion 2) := by
  have tagged : ofBytes (magic ++ version :: [0, 0, 0, 0, 1, 0, 0, 0, 7]) =
    .error (.unknownTag .constant 7 13) := rfl
  have text : ofBytes (magic ++ version :: [1, 0, 0, 0, 0xff]) = .error (.invalidUtf8 9) := rfl
  have trailing : ofBytes (letters.bytes ++ [0]) = .error (.trailingBytes 1) :=
    ofBytes_trailing letters_fit (List.cons_ne_nil _ _)
  have ended : ofBytes magic = .error (.unexpectedEnd 4) := rfl
  obtain ⟨size, _, rfl, _, invalid⟩ := (ofBytes_error_true _).2.2.1 _ text
  exact ⟨⟨tagged, ((ofBytes_error_true _).2.1 _ _ _ tagged).2.2⟩, ⟨text, invalid⟩,
    ⟨trailing, ((ofBytes_error_true _).2.2.2.1 _ trailing).2.2⟩,
    ⟨ended, ((ofBytes_error_true _).1 _ ended).symm⟩,
    ((ofBytes_error_true _).2.2.2.2.2 2).mpr ⟨List.prefix_append _ _, rfl, by decide⟩⟩

theorem contents_truncated (small : unit.Fits) {front missing : List UInt8}
    (whole : unit.contents = front ++ missing) (cut : missing ≠ []) :
    readContents (behindHeader front) = .error (.unexpectedEnd (front.length + 5)) := by
  obtain ⟨unit', c', found, behind, _⟩ :=
    contents_reads (c := behindHeader unit.contents) small (List.append_nil _).symm
  rw [whole, ← behindHeader_extend] at found
  have told := readContents_truthful _ _ (behindHeader_over front)
  cases read : readContents (behindHeader front) with
  | ok pair =>
      obtain ⟨unit'', c''⟩ := pair
      have longer := (told.ok unit'' c'' read).2 missing
      rw [found] at longer
      cases longer
      exact absurd (List.append_eq_nil_iff.mp behind).2 cut
  | error e =>
      obtain ⟨_, rfl | longer⟩ := told.error e read
      · simp [magic]
      · cases found.symm.trans (longer missing)

theorem ofBytes_truncated (small : unit.Fits) {n : Nat} (cut : n < unit.bytes.length) :
    ofBytes (unit.bytes.take n) = .error (if n < 4 then .badMagic else .unexpectedEnd n) := by
  rcases Nat.lt_trichotomy n 4 with early | rfl | late
  · rw [if_pos early]
    refine ofBytes_unmarked fun marked => ?_
    have long : 4 ≤ (unit.bytes.take n).length := marked.length_le
    rw [List.length_take] at long
    omega
  · rw [bytes_eq]
    rfl
  · obtain ⟨k, rfl⟩ := Nat.exists_eq_add_of_le' late
    have size : unit.bytes.length = unit.contents.length + 5 := by simp [bytes_eq, magic]
    have kept : unit.bytes.take (k + 5) = magic ++ version :: unit.contents.take k := by
      rw [bytes_eq]
      rfl
    have missing : unit.contents.drop k ≠ [] := by
      rw [ne_eq, List.drop_eq_nil_iff]
      omega
    have short := contents_truncated small (List.take_append_drop k unit.contents).symm missing
    rw [kept, ofBytes_header, short, List.length_take, Nat.min_eq_left (by omega), if_neg (by omega)]

/-- An artifact that is cut off is refused as one without a mark or for the end that comes too early, and one
that goes on for what comes behind it. So no artifact is the beginning of another one. -/
theorem damaged_refused {unit : CompiledUnit} (small : unit.Fits) :
    (∀ n < unit.bytes.length,
      ofBytes (unit.bytes.take n) = .error (if n < 4 then .badMagic else .unexpectedEnd n)) ∧
    (∀ extra ≠ [], ofBytes (unit.bytes ++ extra) = .error (.trailingBytes extra.length)) ∧
    ∀ other : CompiledUnit, other.Fits → unit.bytes <+: other.bytes → unit.bytes = other.bytes := by
  refine ⟨fun n cut => ofBytes_truncated small cut, fun extra more => ofBytes_trailing small more, ?_⟩
  rintro other also ⟨extra, whole⟩
  by_cases none : extra = []
  · rw [← whole, none, List.append_nil]
  · obtain ⟨_, found, _⟩ := ofBytes_bytes also
    rw [← whole, ofBytes_trailing small none] at found
    cases found

theorem letters_damaged : letters.Fits ∧ ofBytes (letters.bytes.take 3) = .error .badMagic ∧
    ofBytes (letters.bytes.take 10) = .error (.unexpectedEnd 10) ∧
    ofBytes (letters.bytes ++ letters.bytes) = .error (.trailingBytes letters.bytes.length) := by
  have name : letters.name.utf8ByteSize = 3 := by decide
  have long : 12 ≤ letters.bytes.length := by
    simp [bytes_eq, contents, magic, textBytes, name]
    omega
  have some_bytes : letters.bytes ≠ [] := List.ne_nil_of_length_pos (by omega)
  obtain ⟨cut, more, _⟩ := damaged_refused letters_fit
  exact ⟨letters_fit, cut 3 (by omega), cut 10 (by omega), more letters.bytes some_bytes⟩

end LispMachine.CompiledUnit
