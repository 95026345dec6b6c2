import LispMachine.Proofs.Artifact.RoundTrip

set_option autoImplicit false

namespace LispMachine.Artifact

variable {α β : Type}

def TagKind.last : TagKind → UInt8
  | .constant => 2
  | .opcode => 16
  | .builtin => 13
  | .positionFlag => 1

def DecodeError.Describes (bytes : List UInt8) : DecodeError → Prop
  | .unexpectedEnd size => size = bytes.length
  | .unknownTag kind tag offset => bytes[offset]? = some tag ∧ kind.last < tag
  | .invalidUtf8 start => ∃ size, 4 ≤ start ∧ ofLittleEndian ((bytes.drop (start - 4)).take 4) = size ∧
      start + size ≤ bytes.length ∧ ¬ ((bytes.drop start).take size).toByteArray.IsValidUTF8
  | _ => False

namespace Cursor

variable {bytes more : List UInt8} {c c' : Cursor} {n : Nat}

structure Over (c : Cursor) (bytes : List UInt8) : Prop where
  rest : c.rest = bytes.drop c.offset
  size : c.size = bytes.length

theorem Over.advance (upon : c.Over bytes) (enough : n ≤ c.remaining) : (c.advance n enough).Over bytes where
  rest := by simp [Cursor.advance, upon.rest]
  size := upon.size

theorem Over.between (upon : c.Over bytes) (upon' : c'.Over bytes) {front : List UInt8}
    (read : c.rest = front ++ c'.rest) :
    (bytes.drop c.offset).take front.length = front ∧ c'.offset = c.offset + front.length ∧
      c'.offset ≤ bytes.length := by
  have before := c.size_eq
  have after := c'.size_eq
  rw [upon.size, read, List.length_append] at before
  rw [upon'.size] at after
  refine ⟨?_, by omega, by omega⟩
  rw [← upon.rest, read, List.take_left]

def extend (c : Cursor) (more : List UInt8) : Cursor where
  rest := c.rest ++ more
  offset := c.offset
  size := c.size + more.length
  size_eq := by rw [List.length_append, ← Nat.add_assoc, c.size_eq]

theorem remaining_extend (c : Cursor) (more : List UInt8) :
    (c.extend more).remaining = c.remaining + more.length := by
  simp [remaining_eq, extend]

theorem take_extend (enough : n ≤ c.remaining) : (c.extend more).rest.take n = c.rest.take n := by
  rw [remaining_eq] at enough
  exact List.take_append_of_le_length enough

theorem advance_extend (enough : n ≤ c.remaining) (also : n ≤ (c.extend more).remaining) :
    (c.extend more).advance n also = (c.advance n enough).extend more := by
  rw [remaining_eq] at enough
  simp [advance, extend, List.drop_append_of_le_length enough]

end Cursor

structure Tells (bytes : List UInt8) (read : Reader α) (c : Cursor) : Prop where
  ok : ∀ a c', read c = .ok (a, c') →
    c'.Over bytes ∧ ∀ more, read (c.extend more) = .ok (a, c'.extend more)
  error : ∀ e, read c = .error e →
    e.Describes bytes ∧ (e = .unexpectedEnd bytes.length ∨ ∀ more, read (c.extend more) = .error e)

def Reader.Truthful (read : Reader α) : Prop := ∀ bytes c, c.Over bytes → Tells bytes read c

namespace Tells

variable {bytes : List UInt8} {c : Cursor} {read : Reader α}

theorem pure (upon : c.Over bytes) (a : α) : Tells bytes (Pure.pure a : Reader α) c where
  ok a c' found := by
    cases found
    exact ⟨upon, fun _ => rfl⟩
  error e failed := by cases failed

theorem fail {e : DecodeError} (describes : e.Describes bytes) : Tells bytes (Reader.fail e : Reader α) c where
  ok a c' found := by cases found
  error e failed := by
    cases failed
    exact ⟨describes, .inr fun _ => rfl⟩

theorem offset {next : Nat → Reader α} (told : Tells bytes (next c.offset) c) :
    Tells bytes (Reader.offset >>= next) c :=
  ⟨told.ok, told.error⟩

theorem bind {next : α → Reader β} (told : Tells bytes read c)
    (rest : ∀ a c', read c = .ok (a, c') → c'.Over bytes → Tells bytes (next a) c') :
    Tells bytes (read >>= next) c where
  ok b c' found := by
    obtain ⟨a, c₁, first, second⟩ := Reader.bind_ok.mp found
    obtain ⟨upon, longer⟩ := told.ok a c₁ first
    obtain ⟨upon', longer'⟩ := (rest a c₁ first upon).ok b c' second
    exact ⟨upon', fun more => Reader.bind_ok.mpr ⟨a, _, longer more, longer' more⟩⟩
  error e failed := by
    rcases Reader.bind_error.mp failed with first | ⟨a, c₁, first, second⟩
    · obtain ⟨describes, longer⟩ := told.error e first
      exact ⟨describes, longer.imp_right fun longer more => Reader.bind_error.mpr (.inl (longer more))⟩
    · obtain ⟨upon, longer⟩ := told.ok a c₁ first
      obtain ⟨describes, longer'⟩ := (rest a c₁ first upon).error e second
      exact ⟨describes, longer'.imp_right fun longer' more =>
        Reader.bind_error.mpr (.inr ⟨a, _, longer more, longer' more⟩)⟩

theorem map (told : Tells bytes read c) (f : α → β) : Tells bytes (do return f (← read)) c :=
  told.bind fun a _ _ upon => .pure upon (f a)

end Tells

theorem take_truthful (n : Nat) : (Reader.take n).Truthful := by
  intro bytes c upon
  constructor
  case ok =>
    intro front c' taken
    unfold Reader.take at taken
    split at taken <;> cases taken
    next enough =>
      refine ⟨upon.advance enough, fun more => ?_⟩
      have also : n ≤ (c.extend more).remaining := by
        rw [c.remaining_extend]
        exact Nat.le_add_right_of_le enough
      rw [Reader.take, dif_pos also, Cursor.take_extend enough, Cursor.advance_extend enough]
  case error =>
    intro e failed
    unfold Reader.take at failed
    split at failed <;> cases failed
    exact ⟨upon.size, .inl (upon.size ▸ rfl)⟩

theorem word_truthful (width : Nat) : (Reader.word width).Truthful :=
  fun bytes c upon => (take_truthful width bytes c upon).map ofLittleEndian

theorem byte_truthful : Reader.byte.Truthful := fun bytes c upon => (word_truthful 1 bytes c upon).map _

theorem word16_truthful : Reader.word16.Truthful := fun bytes c upon => (word_truthful 2 bytes c upon).map _

theorem word32_truthful : Reader.word32.Truthful := fun bytes c upon => (word_truthful 4 bytes c upon).map _

theorem word64_truthful : Reader.word64.Truthful := fun bytes c upon => (word_truthful 8 bytes c upon).map _

-- An error about a tag may speak of the byte that was read where the tag stands.
theorem tagged_tells {bytes : List UInt8} {c : Cursor} {next : Nat → UInt8 → Reader α} (upon : c.Over bytes)
    (selected : ∀ tag c', bytes[c.offset]? = some tag → c'.Over bytes → Tells bytes (next c.offset tag) c') :
    Tells bytes (do
      let start ← Reader.offset
      let tag ← Reader.byte
      next start tag) c := by
  refine .offset ((byte_truthful bytes c upon).bind fun tag c' found upon' => selected tag c' ?_ upon')
  have front := (byte_format.writes c tag c' found).1
  rw [upon.rest] at front
  have here : (bytes.drop c.offset)[0]? = some tag := by rw [front]; rfl
  rwa [List.getElem?_drop] at here

theorem text_truthful : Reader.text.Truthful := by
  intro bytes c upon
  refine (word_truthful 4 bytes c upon).bind fun size c₁ counted upon₁ => .offset ?_
  refine (take_truthful size bytes c₁ upon₁).bind fun content c₂ taken upon₂ => ?_
  cases decoded : String.fromUTF8? content.toByteArray with
  | some s => exact .pure upon₂ s
  | none =>
      refine .fail ⟨size, ?_⟩
      obtain ⟨front, small⟩ := (word_format 4).writes c size c₁ counted
      obtain ⟨behind, length⟩ := take_writes taken
      obtain ⟨before, start, _⟩ := upon.between upon₁ front
      obtain ⟨inside, stop, within⟩ := upon₁.between upon₂ behind
      rw [length_littleEndian] at before start
      rw [length] at inside stop
      have invalid : ¬ content.toByteArray.IsValidUTF8 := by
        intro valid
        rw [String.fromUTF8?, dif_pos valid] at decoded
        cases decoded
      refine ⟨by omega, ?_, by omega, inside.symm ▸ invalid⟩
      rw [start, Nat.add_sub_cancel, before, ofLittleEndian_littleEndian]
      exact Nat.mod_eq_of_lt small

theorem appendItems_tells {read : Reader α} (truthful : read.Truthful) {bytes : List UInt8} (count : Nat)
    {c : Cursor} (upon : c.Over bytes) (done : Array α) :
    Tells bytes (Reader.appendItems read count done) c := by
  induction count generalizing c done with
  | zero => exact .pure upon done
  | succ count ih =>
      exact (truthful bytes c upon).bind fun item _ _ upon => ih upon (done.push item)

theorem items_truthful {read : Reader α} (truthful : read.Truthful) (count : Nat) :
    (Reader.items read count).Truthful :=
  fun _ _ upon => appendItems_tells truthful count upon #[]

end LispMachine.Artifact

namespace LispMachine

open Artifact

theorem Datum.read_truthful : Datum.read.Truthful := by
  intro bytes c upon
  refine tagged_tells upon fun tag c' here upon => ?_
  split
  · exact (word64_truthful bytes c' upon).map _
  · exact (word64_truthful bytes c' upon).map _
  · exact (text_truthful bytes c' upon).map _
  next =>
    have beyond : 2 < tag := by grind
    exact .fail ⟨here, beyond⟩

theorem Builtin.read_truthful : Builtin.read.Truthful := by
  intro bytes c upon
  refine tagged_tells upon fun tag c' here upon => ?_
  split
  · exact .pure upon _
  next unknown =>
    refine .fail ⟨here, ?_⟩
    have beyond : all.length ≤ tag.toNat := List.getElem?_eq_none_iff.mp unknown
    exact UInt8.lt_iff_toNat_lt.mpr beyond

theorem Opcode.read_truthful : Opcode.read.Truthful := by
  intro bytes c upon
  refine tagged_tells upon fun tag c' here upon => ?_
  split
  case h_4 | h_5 | h_6 | h_7 | h_8 | h_9 | h_10 => exact (word16_truthful bytes c' upon).map _
  case h_13 | h_14 => exact (word32_truthful bytes c' upon).map _
  case h_16 =>
    exact (word16_truthful bytes c' upon).bind fun index c₁ _ upon => (byte_truthful bytes c₁ upon).map _
  case h_17 =>
    exact (Builtin.read_truthful bytes c' upon).bind fun builtin c₁ _ upon => (byte_truthful bytes c₁ upon).map _
  case h_18 =>
    have beyond : 16 < tag := by grind
    exact .fail ⟨here, beyond⟩
  all_goals exact .pure upon _

theorem Instruction.readPosition_truthful : Instruction.readPosition.Truthful := by
  intro bytes c upon
  refine tagged_tells upon fun flag c' here upon => ?_
  split
  · exact .pure upon _
  · refine (word32_truthful bytes c' upon).bind fun line c₁ _ upon => ?_
    refine (word32_truthful bytes c₁ upon).bind fun column c₂ _ upon => ?_
    exact (word32_truthful bytes c₂ upon).map _
  next =>
    have beyond : 1 < flag := by grind
    exact .fail ⟨here, beyond⟩

theorem Instruction.read_truthful : Instruction.read.Truthful := fun bytes c upon =>
  (Opcode.read_truthful bytes c upon).bind fun _ c₁ _ upon => (readPosition_truthful bytes c₁ upon).map _

-- A count that fits what is left also fits what is left of a longer artifact.
theorem Chunk.readCode_truthful : Chunk.readCode.Truthful := by
  intro bytes c upon
  refine (word_truthful 4 bytes c upon).bind fun count c₁ _ upon => ?_
  have told := items_truthful Instruction.read_truthful count bytes c₁ upon
  by_cases short : c₁.remaining / 2 < count
  · constructor
    · intro code c' found
      rw [if_pos short] at found
      cases found
    · intro e failed
      rw [if_pos short] at failed
      cases failed
      exact ⟨upon.size, .inl (upon.size ▸ rfl)⟩
  · have enough (more : List UInt8) : ¬ (c₁.extend more).remaining / 2 < count := by
      rw [c₁.remaining_extend]
      omega
    constructor
    · intro code c' found
      rw [if_neg short] at found
      obtain ⟨upon', longer⟩ := told.ok code c' found
      exact ⟨upon', fun more => by rw [if_neg (enough more), longer]⟩
    · intro e failed
      rw [if_neg short] at failed
      obtain ⟨describes, longer⟩ := told.error e failed
      exact ⟨describes, longer.imp_right fun longer more => by rw [if_neg (enough more), longer]⟩

theorem Chunk.read_truthful : Chunk.read.Truthful := by
  intro bytes c upon
  refine (text_truthful bytes c upon).bind fun name c₁ _ upon => ?_
  refine (byte_truthful bytes c₁ upon).bind fun arity c₂ _ upon => ?_
  refine (word16_truthful bytes c₂ upon).bind fun maxLocals c₃ _ upon => ?_
  refine (word16_truthful bytes c₃ upon).bind fun maxStack c₄ _ upon => ?_
  exact (readCode_truthful bytes c₄ upon).map _

theorem CompiledUnit.readContents_truthful : CompiledUnit.readContents.Truthful := by
  intro bytes c upon
  refine (text_truthful bytes c upon).bind fun name c₁ _ upon => ?_
  refine (word_truthful 4 bytes c₁ upon).bind fun count c₂ _ upon => ?_
  refine (items_truthful Datum.read_truthful count bytes c₂ upon).bind fun constants c₃ _ upon => ?_
  refine (word_truthful 4 bytes c₃ upon).bind fun count' c₄ _ upon => ?_
  refine (items_truthful Chunk.read_truthful count' bytes c₄ upon).bind fun methods c₅ _ upon => ?_
  exact (Chunk.read_truthful bytes c₅ upon).map _

end LispMachine
