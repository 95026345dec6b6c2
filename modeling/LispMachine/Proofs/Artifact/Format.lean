import LispMachine.Artifact.Reading

set_option autoImplicit false

namespace LispMachine.Artifact

variable {α β : Type}

namespace Reader

theorem bind_ok {read : Reader α} {next : α → Reader β} {c c' : Cursor} {b : β} :
    (read >>= next) c = .ok (b, c') ↔ ∃ a c₁, read c = .ok (a, c₁) ∧ next a c₁ = .ok (b, c') := by
  simp only [bind]
  rcases read c with e | ⟨a, c₁⟩
  · simp
  · simp only [Except.ok.injEq, Prod.mk.injEq]
    exact ⟨fun done => ⟨a, c₁, ⟨rfl, rfl⟩, done⟩, fun ⟨_, _, ⟨rfl, rfl⟩, done⟩ => done⟩

theorem bind_error {read : Reader α} {next : α → Reader β} {c : Cursor} {e : DecodeError} :
    (read >>= next) c = .error e ↔
      read c = .error e ∨ ∃ a c₁, read c = .ok (a, c₁) ∧ next a c₁ = .error e := by
  simp only [bind]
  rcases read c with e' | ⟨a, c₁⟩
  · simp
  · simp only [reduceCtorEq, false_or, Except.ok.injEq, Prod.mk.injEq]
    exact ⟨fun failed => ⟨a, c₁, ⟨rfl, rfl⟩, failed⟩, fun ⟨_, _, ⟨rfl, rfl⟩, failed⟩ => failed⟩

theorem bind_assoc {γ : Type} (read : Reader α) (next : α → Reader β) (last : β → Reader γ) :
    read >>= next >>= last = read >>= fun a => next a >>= last := by
  funext c
  simp only [bind]
  rcases read c with e | ⟨a, c₁⟩ <;> rfl

end Reader

structure Format (read : Reader α) (write : α → List UInt8) (fits : α → Prop) : Prop where
  reads : ∀ a, fits a → ∀ (c : Cursor) (rest : List UInt8), c.rest = write a ++ rest →
    ∃ c', read c = .ok (a, c') ∧ c'.rest = rest
  writes : ∀ (c : Cursor) (a : α) (c' : Cursor), read c = .ok (a, c') →
    c.rest = write a ++ c'.rest ∧ fits a

theorem take_reads {c : Cursor} {bytes rest : List UInt8} (front : c.rest = bytes ++ rest) :
    ∃ c', Reader.take bytes.length c = .ok (bytes, c') ∧ c'.rest = rest := by
  have enough : bytes.length ≤ c.remaining := by
    rw [c.remaining_eq, front, List.length_append]
    omega
  refine ⟨c.advance bytes.length enough, ?_, ?_⟩
  · simp [Reader.take, enough, front]
  · simp [Cursor.advance, front]

theorem take_writes {n : Nat} {c c' : Cursor} {bytes : List UInt8}
    (taken : Reader.take n c = .ok (bytes, c')) : c.rest = bytes ++ c'.rest ∧ bytes.length = n := by
  unfold Reader.take at taken
  split at taken <;> cases taken
  next enough =>
    rw [c.remaining_eq] at enough
    exact ⟨by simp [Cursor.advance], by simp [enough]⟩

theorem word_format (width : Nat) :
    Format (Reader.word width) (littleEndian width) (· < Nat.pow 256 width) where
  reads n small c rest front := by
    obtain ⟨c', taken, behind⟩ := take_reads front
    rw [length_littleEndian] at taken
    refine ⟨c', Reader.bind_ok.mpr ⟨_, c', taken, ?_⟩, behind⟩
    simp only [pure, ofLittleEndian_littleEndian, Nat.mod_eq_of_lt small]
  writes c n c' read := by
    obtain ⟨bytes, c₁, taken, done⟩ := Reader.bind_ok.mp read
    cases done
    obtain ⟨front, rfl⟩ := take_writes taken
    rw [littleEndian_ofLittleEndian]
    exact ⟨front, ofLittleEndian_lt bytes⟩

namespace Format

variable {read : Reader α} {write : α → List UInt8} {fits : α → Prop}

theorem map (format : Format read write fits) (f : α → β) (g : β → α) (back : ∀ b, f (g b) = b)
    (forth : ∀ a, fits a → g (f a) = a) :
    Format (do return f (← read)) (fun b => write (g b)) (fun b => fits (g b)) where
  reads b small c rest front := by
    obtain ⟨c', found, behind⟩ := format.reads (g b) small c rest front
    refine ⟨c', Reader.bind_ok.mpr ⟨g b, c', found, ?_⟩, behind⟩
    simp [pure, back]
  writes c b c' found := by
    obtain ⟨a, c₁, found, done⟩ := Reader.bind_ok.mp found
    cases done
    obtain ⟨front, small⟩ := format.writes c a c' found
    rw [forth a small]
    exact ⟨front, small⟩

theorem imp {write' : α → List UInt8} {fits' : α → Prop} (format : Format read write fits)
    (same : ∀ a, write a = write' a) (all : ∀ a, fits a ↔ fits' a) : Format read write' fits' where
  reads a small c rest front := format.reads a ((all a).mpr small) c rest (by rw [same, front])
  writes c a c' found := by
    obtain ⟨front, small⟩ := format.writes c a c' found
    rw [← same]
    exact ⟨front, (all a).mp small⟩

end Format

theorem byte_format : Format Reader.byte (fun b => [b]) (fun _ => True) := by
  refine ((word_format 1).map UInt8.ofNat UInt8.toNat (fun b => UInt8.ofNat_toNat) fun n small => ?_).imp
    (fun b => ?_) fun b => ?_
  · exact UInt8.toNat_ofNat_of_lt' small
  · simp [littleEndian]
  · simpa using b.toNat_lt

theorem word16_format : Format Reader.word16 (littleEndian 2 ·.toNat) (fun _ => True) := by
  refine ((word_format 2).map UInt16.ofNat UInt16.toNat (fun n => UInt16.ofNat_toNat) fun n small => ?_).imp
    (fun _ => rfl) fun n => ?_
  · exact UInt16.toNat_ofNat_of_lt' small
  · simpa using n.toNat_lt

theorem word32_format : Format Reader.word32 (littleEndian 4 ·.toNat) (fun _ => True) := by
  refine ((word_format 4).map UInt32.ofNat UInt32.toNat (fun n => UInt32.ofNat_toNat) fun n small => ?_).imp
    (fun _ => rfl) fun n => ?_
  · exact UInt32.toNat_ofNat_of_lt' small
  · simpa using n.toNat_lt

theorem word64_format : Format Reader.word64 (littleEndian 8 ·.toNat) (fun _ => True) := by
  refine ((word_format 8).map UInt64.ofNat UInt64.toNat (fun n => UInt64.ofNat_toNat) fun n small => ?_).imp
    (fun _ => rfl) fun n => ?_
  · exact UInt64.toNat_ofNat_of_lt' small
  · simpa using n.toNat_lt

theorem fromUTF8?_toByteArray (s : String) :
    String.fromUTF8? s.toUTF8.data.toList.toByteArray = some s := by
  have same : s.toUTF8.data.toList.toByteArray = s.toByteArray := ByteArray.ext (by simp)
  rw [same, String.fromUTF8?, dif_pos s.isValidUTF8]
  rfl

theorem toUTF8_of_fromUTF8? {bytes : List UInt8} {s : String}
    (read : String.fromUTF8? bytes.toByteArray = some s) : s.toUTF8.data.toList = bytes := by
  unfold String.fromUTF8? at read
  split at read <;> cases read
  exact List.toList_data_toByteArray

theorem text_format : Format Reader.text textBytes (·.utf8ByteSize < UInt32.size) where
  reads s small c rest front := by
    simp only [textBytes, List.append_assoc] at front
    obtain ⟨c₁, counted, behind⟩ := (word_format 4).reads _ small c _ front
    obtain ⟨c₂, taken, behind⟩ := take_reads behind
    refine ⟨c₂, Reader.bind_ok.mpr ⟨_, c₁, counted, Reader.bind_ok.mpr ⟨_, c₁, rfl, ?_⟩⟩, behind⟩
    refine Reader.bind_ok.mpr ⟨_, c₂, taken, ?_⟩
    rw [fromUTF8?_toByteArray]
    rfl
  writes c s c' found := by
    obtain ⟨size, c₁, counted, found⟩ := Reader.bind_ok.mp found
    obtain ⟨_, _, start, found⟩ := Reader.bind_ok.mp found
    cases start
    obtain ⟨bytes, c₂, taken, found⟩ := Reader.bind_ok.mp found
    cases read : String.fromUTF8? bytes.toByteArray with
    | none =>
        rw [read] at found
        cases found
    | some s' =>
        rw [read] at found
        cases found
        obtain ⟨front, small⟩ := (word_format 4).writes c _ _ counted
        obtain ⟨behind, rfl⟩ := take_writes taken
        have same := toUTF8_of_fromUTF8? read
        constructor
        · rw [front, behind, textBytes, same, List.append_assoc]
        · rw [← same] at small
          exact small

section Sequences

variable {γ : Type} {r : Reader α} {w : α → List UInt8} {fits : α → Prop} {r' : Reader β}
  {w' : β → List UInt8} {fits' : β → Prop} {c c' : Cursor} {rest : List UInt8}

theorem return_reads (format : Format r w fits) (f : α → γ) {x : α} (small : fits x)
    (front : c.rest = w x ++ rest) :
    ∃ c', (do return f (← r)) c = .ok (f x, c') ∧ c'.rest = rest := by
  obtain ⟨c₁, found, behind⟩ := format.reads x small c rest front
  exact ⟨c₁, Reader.bind_ok.mpr ⟨x, c₁, found, rfl⟩, behind⟩

theorem return_writes (format : Format r w fits) {f : α → γ} {g : γ}
    (found : (do return f (← r)) c = .ok (g, c')) :
    ∃ x, g = f x ∧ c.rest = w x ++ c'.rest ∧ fits x := by
  obtain ⟨x, c₁, found, done⟩ := Reader.bind_ok.mp found
  cases done
  obtain ⟨front, small⟩ := format.writes c x c' found
  exact ⟨x, rfl, front, small⟩

theorem pair_reads (first : Format r w fits) (second : Format r' w' fits') (f : α → β → γ) {x : α} {y : β}
    (small : fits x) (small' : fits' y) (front : c.rest = w x ++ (w' y ++ rest)) :
    ∃ c', (do
      let x ← r
      let y ← r'
      return f x y) c = .ok (f x y, c') ∧ c'.rest = rest := by
  obtain ⟨c₁, found, behind⟩ := first.reads x small c _ front
  obtain ⟨c₂, found', behind⟩ := second.reads y small' c₁ rest behind
  exact ⟨c₂, Reader.bind_ok.mpr ⟨x, c₁, found, Reader.bind_ok.mpr ⟨y, c₂, found', rfl⟩⟩, behind⟩

theorem pair_writes (first : Format r w fits) (second : Format r' w' fits') {f : α → β → γ} {g : γ}
    (found : (do
      let x ← r
      let y ← r'
      return f x y) c = .ok (g, c')) :
    ∃ x y, g = f x y ∧ c.rest = w x ++ (w' y ++ c'.rest) ∧ fits x ∧ fits' y := by
  obtain ⟨x, c₁, read, found⟩ := Reader.bind_ok.mp found
  obtain ⟨y, c₂, read', done⟩ := Reader.bind_ok.mp found
  cases done
  obtain ⟨front, small⟩ := first.writes c x c₁ read
  obtain ⟨behind, small'⟩ := second.writes c₁ y c' read'
  exact ⟨x, y, rfl, by rw [front, behind], small, small'⟩

end Sequences

section Tagged

variable {next : Nat → UInt8 → Reader α} {c c' : Cursor}

theorem tagged_reads {tag : UInt8} {rest tail : List UInt8} {a : α} (front : c.rest = tag :: rest)
    (selected : ∀ c₁, c₁.rest = rest → ∃ c', next c.offset tag c₁ = .ok (a, c') ∧ c'.rest = tail) :
    ∃ c', (do
      let start ← Reader.offset
      let tag ← Reader.byte
      next start tag) c = .ok (a, c') ∧ c'.rest = tail := by
  obtain ⟨c₁, found, behind⟩ := byte_format.reads tag trivial c rest front
  obtain ⟨c₂, done, after⟩ := selected c₁ behind
  refine ⟨c₂, ?_, after⟩
  simp only [bind, Reader.offset, found, done]

-- The reader that a tag selects, `read`, is kept apart from what it reads.
theorem tagged_writes {a : α} (found : (do
      let start ← Reader.offset
      let tag ← Reader.byte
      next start tag) c = .ok (a, c')) :
    ∃ tag c₁ read, c.rest = tag :: c₁.rest ∧ next c.offset tag = read ∧ read c₁ = .ok (a, c') := by
  obtain ⟨_, _, start, found⟩ := Reader.bind_ok.mp found
  cases start
  obtain ⟨tag, c₁, tagged, found⟩ := Reader.bind_ok.mp found
  exact ⟨tag, c₁, _, (byte_format.writes c tag c₁ tagged).1, rfl, found⟩

end Tagged

section Items

variable {read : Reader α} {write : α → List UInt8} {fits : α → Prop}

theorem appendItems_reads (format : Format read write fits) (xs : List α) (small : ∀ x ∈ xs, fits x)
    (done : Array α) (c : Cursor) (rest : List UInt8) (front : c.rest = xs.flatMap write ++ rest) :
    ∃ c', Reader.appendItems read xs.length done c = .ok (done ++ xs.toArray, c') ∧ c'.rest = rest := by
  induction xs generalizing done c with
  | nil => exact ⟨c, by simp [Reader.appendItems], front⟩
  | cons x xs ih =>
      obtain ⟨first, others⟩ := List.forall_mem_cons.mp small
      rw [List.flatMap_cons, List.append_assoc] at front
      obtain ⟨c₁, found, behind⟩ := format.reads x first c _ front
      obtain ⟨c₂, found', behind⟩ := ih others (done.push x) c₁ behind
      refine ⟨c₂, ?_, behind⟩
      simp only [List.length_cons, Reader.appendItems, found, found']
      simp

theorem appendItems_writes (format : Format read write fits) {count : Nat} {done result : Array α}
    {c c' : Cursor} (found : Reader.appendItems read count done c = .ok (result, c')) :
    ∃ xs : List α, result = done ++ xs.toArray ∧ xs.length = count ∧
      c.rest = xs.flatMap write ++ c'.rest ∧ ∀ x ∈ xs, fits x := by
  induction count generalizing done c with
  | zero =>
      cases found
      exact ⟨[], by simp⟩
  | succ count ih =>
      simp only [Reader.appendItems] at found
      split at found
      next x c₁ first =>
        obtain ⟨front, small⟩ := format.writes c x c₁ first
        obtain ⟨xs, rfl, rfl, behind, others⟩ := ih found
        refine ⟨x :: xs, by simp, rfl, ?_, List.forall_mem_cons.mpr ⟨small, others⟩⟩
        rw [front, behind, List.flatMap_cons, List.append_assoc]
      next => cases found

theorem items_format (format : Format read write fits) (count : Nat) :
    Format (Reader.items read count) (fun xs => xs.toList.flatMap write)
      (fun xs => xs.size = count ∧ ∀ x ∈ xs, fits x) where
  reads xs := by
    rintro ⟨rfl, small⟩ c rest front
    have found := appendItems_reads format xs.toList (by simpa using small) #[] c rest front
    simpa [Reader.items] using found
  writes c result c' found := by
    obtain ⟨xs, rfl, length, front, small⟩ := appendItems_writes format found
    simpa using ⟨front, length, small⟩

theorem sequence_reads (format : Format read write fits) {xs : Array α} (few : xs.size < UInt32.size)
    (small : ∀ x ∈ xs, fits x) {c : Cursor} {rest : List UInt8}
    (front : c.rest = sequenceBytes write xs ++ rest) :
    ∃ c₁ c₂, Reader.word 4 c = .ok (xs.size, c₁) ∧ c₁.rest = xs.toList.flatMap write ++ rest ∧
      Reader.items read xs.size c₁ = .ok (xs, c₂) ∧ c₂.rest = rest := by
  rw [sequenceBytes, List.append_assoc] at front
  obtain ⟨c₁, counted, behind⟩ := (word_format 4).reads _ few c _ front
  obtain ⟨c₂, found, after⟩ := (items_format format xs.size).reads xs ⟨rfl, small⟩ c₁ rest behind
  exact ⟨c₁, c₂, counted, behind, found, after⟩

theorem sequence_writes (format : Format read write fits) {count : Nat} {xs : Array α} {c c₁ c₂ : Cursor}
    (counted : Reader.word 4 c = .ok (count, c₁)) (found : Reader.items read count c₁ = .ok (xs, c₂)) :
    c.rest = sequenceBytes write xs ++ c₂.rest ∧ xs.size < UInt32.size ∧ ∀ x ∈ xs, fits x := by
  obtain ⟨front, few⟩ := (word_format 4).writes c count c₁ counted
  obtain ⟨behind, rfl, small⟩ := (items_format format count).writes c₁ xs c₂ found
  rw [front, behind, sequenceBytes, List.append_assoc]
  exact ⟨rfl, few, small⟩

end Items

end LispMachine.Artifact
