import LispMachine.Proofs.Artifact.Format

set_option autoImplicit false

namespace LispMachine

open Artifact

def Datum.Fits : Datum → Prop
  | .str s => s.utf8ByteSize < UInt32.size
  | _ => True

theorem Datum.format : Format Datum.read Datum.bytes Datum.Fits where
  reads d small c rest front := by
    cases d with
    | long n =>
        refine tagged_reads front fun c₁ behind => ?_
        simpa using return_reads word64_format (fun w => Datum.long w.toInt64) trivial behind
    | double d =>
        refine tagged_reads front fun c₁ behind => ?_
        exact return_reads word64_format (fun w => Datum.double ⟨w⟩) trivial behind
    | str s =>
        refine tagged_reads front fun c₁ behind => ?_
        exact return_reads text_format Datum.str small behind
  writes c d c' found := by
    obtain ⟨tag, c₁, read, front, selected, found⟩ := tagged_writes found
    split at selected <;> subst selected
    · obtain ⟨n, rfl, behind, _⟩ := return_writes word64_format found
      exact ⟨by simp [front, behind, bytes], trivial⟩
    · obtain ⟨n, rfl, behind, _⟩ := return_writes word64_format found
      exact ⟨by simp [front, behind, bytes], trivial⟩
    · obtain ⟨s, rfl, behind, small⟩ := return_writes text_format found
      exact ⟨by simp [front, behind, bytes], small⟩
    · cases found

theorem Builtin.tag_of_ofTag? {tag : UInt8} {builtin : Builtin} (found : ofTag? tag = some builtin) :
    builtin.tag = tag := by
  have same : all[builtin.tag.toNat]? = all[tag.toNat]? := (ofTag?_tag builtin).trans found.symm
  have inside : builtin.tag.toNat < all.length := by cases builtin <;> decide
  exact UInt8.toNat_inj.mp ((List.getElem?_inj inside (by decide)).mp same)

theorem Builtin.format : Format Builtin.read (fun builtin => [builtin.tag]) (fun _ => True) where
  reads builtin _ c rest front := by
    refine tagged_reads front fun c₁ behind => ⟨c₁, ?_, behind⟩
    rw [ofTag?_tag]
    rfl
  writes c builtin c' found := by
    obtain ⟨tag, c₁, read, front, selected, found⟩ := tagged_writes found
    split at selected <;> subst selected
    next b known =>
      cases found
      exact ⟨by simp [front, tag_of_ofTag? known], trivial⟩
    next => cases found

theorem Opcode.format : Format Opcode.read Opcode.bytes (fun _ => True) where
  reads op _ c rest front := by
    cases op with
    | pushNil | pushTrue | pushFalse | dup | pop | ret =>
        exact tagged_reads front fun c₁ behind => ⟨c₁, rfl, behind⟩
    | pushShort n =>
        refine tagged_reads front fun c₁ behind => ?_
        simpa using return_reads word16_format (fun w => Opcode.pushShort w.toInt16) trivial behind
    | loadConst index =>
        exact tagged_reads front fun c₁ behind => return_reads word16_format Opcode.loadConst trivial behind
    | loadLocal slot =>
        exact tagged_reads front fun c₁ behind => return_reads word16_format Opcode.loadLocal trivial behind
    | storeLocal slot =>
        exact tagged_reads front fun c₁ behind => return_reads word16_format Opcode.storeLocal trivial behind
    | loadGlobal index =>
        exact tagged_reads front fun c₁ behind => return_reads word16_format Opcode.loadGlobal trivial behind
    | storeGlobal index =>
        exact tagged_reads front fun c₁ behind => return_reads word16_format Opcode.storeGlobal trivial behind
    | loadFunction index =>
        exact tagged_reads front fun c₁ behind => return_reads word16_format Opcode.loadFunction trivial behind
    | jump target =>
        exact tagged_reads front fun c₁ behind => return_reads word32_format Opcode.jump trivial behind
    | jumpIfFalse target =>
        exact tagged_reads front fun c₁ behind => return_reads word32_format Opcode.jumpIfFalse trivial behind
    | invoke index argc =>
        refine tagged_reads front fun c₁ behind => ?_
        exact pair_reads word16_format byte_format Opcode.invoke trivial trivial (by simpa using behind)
    | callBuiltin builtin argc =>
        refine tagged_reads front fun c₁ behind => ?_
        exact pair_reads Builtin.format byte_format Opcode.callBuiltin trivial trivial (by simpa using behind)
  writes c op c' found := by
    refine ⟨?_, trivial⟩
    obtain ⟨tag, c₁, read, front, selected, found⟩ := tagged_writes found
    split at selected <;> subst selected
    case h_4 =>
      obtain ⟨n, rfl, behind, _⟩ := return_writes word16_format found
      simp [front, behind, bytes]
    case h_5 | h_6 | h_7 | h_8 | h_9 | h_10 =>
      obtain ⟨n, rfl, behind, _⟩ := return_writes word16_format found
      simp [front, behind, bytes]
    case h_13 | h_14 =>
      obtain ⟨n, rfl, behind, _⟩ := return_writes word32_format found
      simp [front, behind, bytes]
    case h_16 =>
      obtain ⟨index, argc, rfl, behind, _⟩ := pair_writes word16_format byte_format found
      simp [front, behind, bytes]
    case h_17 =>
      obtain ⟨builtin, argc, rfl, behind, _⟩ := pair_writes Builtin.format byte_format found
      simp [front, behind, bytes]
    case h_18 => cases found
    all_goals
      cases found
      exact front

def Instruction.Fits (i : Instruction) : Prop := ∀ p, i.position = some p → p.offset < UInt32.size

theorem Instruction.position_format :
    Format readPosition positionBytes (fun position => ∀ p, position = some p → p.offset < UInt32.size) where
  reads position small c rest front := by
    cases position with
    | none => exact tagged_reads front fun c₁ behind => ⟨c₁, rfl, behind⟩
    | some p =>
        simp only [positionBytes, List.cons_append, List.append_assoc] at front
        refine tagged_reads front fun c₁ behind => ?_
        have low := small p rfl
        have offset : (UInt32.ofNat p.offset).toNat = p.offset := UInt32.toNat_ofNat_of_lt' low
        obtain ⟨c₂, line, behind⟩ := word32_format.reads p.line trivial c₁ _ behind
        obtain ⟨c₃, column, behind⟩ := word32_format.reads p.column trivial c₂ _ behind
        obtain ⟨c₄, last, behind⟩ :=
          word32_format.reads (UInt32.ofNat p.offset) trivial c₃ rest (by rw [offset, behind])
        refine ⟨c₄, Reader.bind_ok.mpr ⟨_, c₂, line, Reader.bind_ok.mpr ⟨_, c₃, column, ?_⟩⟩, behind⟩
        exact Reader.bind_ok.mpr ⟨_, c₄, last, by rw [offset]; rfl⟩
  writes c position c' found := by
    obtain ⟨tag, c₁, read, front, selected, found⟩ := tagged_writes found
    split at selected <;> subst selected
    · cases found
      exact ⟨front, nofun⟩
    · obtain ⟨line, c₂, first, found⟩ := Reader.bind_ok.mp found
      obtain ⟨column, c₃, second, found⟩ := Reader.bind_ok.mp found
      obtain ⟨offset, c₄, third, done⟩ := Reader.bind_ok.mp found
      cases done
      have behind := (word32_format.writes _ _ _ first).1
      rw [(word32_format.writes _ _ _ second).1, (word32_format.writes _ _ _ third).1] at behind
      refine ⟨by simp [front, behind, positionBytes], fun p same => ?_⟩
      cases same
      exact offset.toNat_lt
    · cases found

theorem Instruction.format : Format Instruction.read Instruction.bytes Instruction.Fits where
  reads i small c rest front := by
    rw [bytes, List.append_assoc] at front
    exact pair_reads Opcode.format position_format Instruction.mk trivial small front
  writes c i c' found := by
    obtain ⟨op, position, rfl, front, _, small⟩ := pair_writes Opcode.format position_format found
    exact ⟨by rw [front, bytes, List.append_assoc], small⟩

theorem Instruction.two_le_length_bytes (i : Instruction) : 2 ≤ i.bytes.length := by
  have opcode : 1 ≤ i.opcode.bytes.length := by cases i.opcode <;> simp [Opcode.bytes]
  have position : 1 ≤ (positionBytes i.position).length := by cases i.position <;> simp [positionBytes]
  rw [bytes, List.length_append]
  omega

theorem Instruction.two_mul_le_length (code : List Instruction) :
    2 * code.length ≤ (code.flatMap Instruction.bytes).length := by
  induction code with
  | nil => simp
  | cons i code ih =>
      have two := two_le_length_bytes i
      rw [List.flatMap_cons, List.length_append, List.length_cons]
      omega

structure Chunk.Fits (chunk : Chunk) : Prop where
  name : chunk.name.utf8ByteSize < UInt32.size
  code : chunk.code.size < UInt32.size
  offsets : ∀ i ∈ chunk.code, i.Fits

theorem Chunk.code_format : Format readCode (sequenceBytes Instruction.bytes)
    (fun code => code.size < UInt32.size ∧ ∀ i ∈ code, i.Fits) where
  reads code small c rest front := by
    obtain ⟨c₁, c₂, counted, middle, found, behind⟩ :=
      sequence_reads Instruction.format small.1 small.2 front
    refine ⟨c₂, Reader.bind_ok.mpr ⟨_, c₁, counted, ?_⟩, behind⟩
    have enough : ¬ c₁.remaining / 2 < code.size := by
      have two := Instruction.two_mul_le_length code.toList
      rw [c₁.remaining_eq, middle, List.length_append]
      rw [Array.length_toList] at two
      omega
    rw [if_neg enough]
    exact found
  writes c code c' found := by
    obtain ⟨count, c₁, counted, found⟩ := Reader.bind_ok.mp found
    split at found
    · cases found
    · exact sequence_writes Instruction.format counted found

theorem Chunk.format : Format Chunk.read Chunk.bytes Chunk.Fits where
  reads chunk small c rest front := by
    simp only [bytes, List.append_assoc, List.cons_append] at front
    obtain ⟨c₁, name, behind⟩ := text_format.reads _ small.name c _ front
    obtain ⟨c₂, arity, behind⟩ := byte_format.reads chunk.arity trivial c₁ _ behind
    obtain ⟨c₃, maxLocals, behind⟩ := word16_format.reads _ trivial c₂ _ behind
    obtain ⟨c₄, maxStack, behind⟩ := word16_format.reads _ trivial c₃ _ behind
    obtain ⟨c₅, code, behind⟩ := code_format.reads _ ⟨small.code, small.offsets⟩ c₄ _ behind
    refine ⟨c₅, ?_, behind⟩
    simp only [Chunk.read, bind, name, arity, maxLocals, maxStack, code]
    rfl
  writes c chunk c' found := by
    obtain ⟨name, c₁, first, found⟩ := Reader.bind_ok.mp found
    obtain ⟨arity, c₂, second, found⟩ := Reader.bind_ok.mp found
    obtain ⟨maxLocals, c₃, third, found⟩ := Reader.bind_ok.mp found
    obtain ⟨maxStack, c₄, fourth, found⟩ := Reader.bind_ok.mp found
    obtain ⟨code, c₅, fifth, done⟩ := Reader.bind_ok.mp found
    cases done
    obtain ⟨front, named⟩ := text_format.writes _ _ _ first
    obtain ⟨last, few, offsets⟩ := code_format.writes _ _ _ fifth
    rw [(byte_format.writes _ _ _ second).1, (word16_format.writes _ _ _ third).1,
      (word16_format.writes _ _ _ fourth).1, last] at front
    exact ⟨by simp [front, bytes], named, few, offsets⟩

theorem ConstantPool.entries_ofEntries (entries : Array Datum) : (ofEntries entries).entries = entries := by
  have grows (data : List Datum) (pool : ConstantPool) :
      (data.foldl append pool).entries = pool.entries ++ data.toArray := by
    induction data generalizing pool with
    | nil => simp
    | cons d data ih => simp [ih, append]
  rw [ofEntries, ← Array.foldl_toList, grows]
  simp [empty]

namespace CompiledUnit

structure Fits (unit : CompiledUnit) : Prop where
  name : unit.name.utf8ByteSize < UInt32.size
  constants : unit.constants.entries.size < UInt32.size
  data : ∀ d ∈ unit.constants.entries, d.Fits
  methods : unit.methods.size < UInt32.size
  bodies : ∀ chunk ∈ unit.methods, chunk.Fits
  entry : unit.entry.Fits

/-- Agreement in all that an artifact holds, which leaves out how constants are looked up. -/
structure Agrees (a b : CompiledUnit) : Prop where
  name : a.name = b.name
  constants : a.constants.entries = b.constants.entries
  methods : a.methods = b.methods
  entry : a.entry = b.entry

theorem Agrees.bytes {a b : CompiledUnit} (agrees : Agrees a b) : a.bytes = b.bytes := by
  simp only [CompiledUnit.bytes, agrees.name, agrees.constants, agrees.methods, agrees.entry]

theorem readMagic_reads {c : Cursor} {rest : List UInt8} (front : c.rest = magic ++ rest) :
    ∃ c', readMagic c = .ok ((), c') ∧ c'.rest = rest := by
  obtain ⟨c', taken, behind⟩ := take_reads front
  exact ⟨c', by simp only [readMagic, taken, if_true], behind⟩

theorem readMagic_writes {c c' : Cursor} (found : readMagic c = .ok ((), c')) :
    c.rest = magic ++ c'.rest := by
  unfold readMagic at found
  split at found
  next taken =>
    split at found <;> cases found
    next same => exact same ▸ (take_writes taken).1
  next => cases found

theorem readVersion_reads {c : Cursor} {rest : List UInt8} (front : c.rest = version :: rest) :
    ∃ c', readVersion c = .ok ((), c') ∧ c'.rest = rest := by
  obtain ⟨c', found, behind⟩ := byte_format.reads version trivial c rest front
  exact ⟨c', Reader.bind_ok.mpr ⟨version, c', found, rfl⟩, behind⟩

theorem readVersion_writes {c c' : Cursor} (found : readVersion c = .ok ((), c')) :
    c.rest = version :: c'.rest := by
  obtain ⟨byte, c₁, read, found⟩ := Reader.bind_ok.mp found
  by_cases same : byte = version
  · rw [if_pos same] at found
    cases found
    exact same ▸ (byte_format.writes _ _ _ read).1
  · rw [if_neg same] at found
    cases found

theorem readEnd_iff {c c' : Cursor} : readEnd c = .ok ((), c') ↔ c.rest = [] ∧ c' = c := by
  have none : c.remaining = 0 ↔ c.rest = [] := by rw [c.remaining_eq, List.length_eq_zero_iff]
  unfold readEnd
  split
  next empty => simp [none.mp empty, eq_comm]
  next other => simp [mt none.mpr other]

def contents (unit : CompiledUnit) : List UInt8 :=
  textBytes unit.name ++ sequenceBytes Datum.bytes unit.constants.entries ++
    sequenceBytes Chunk.bytes unit.methods ++ unit.entry.bytes

theorem bytes_eq (unit : CompiledUnit) : unit.bytes = magic ++ version :: unit.contents := by
  simp only [bytes, contents, List.append_assoc, List.cons_append]

def readContents : Reader CompiledUnit := do
  let name ← Reader.text
  let constants ← Reader.items Datum.read (← Reader.word 4)
  let methods ← Reader.items Chunk.read (← Reader.word 4)
  let entry ← Chunk.read
  return { name, constants := .ofEntries constants, methods, entry }

theorem read_eq : read = do
    readMagic
    readVersion
    let unit ← readContents
    readEnd
    return unit := by
  simp only [read, readContents, Reader.bind_assoc]
  rfl

theorem contents_reads {unit : CompiledUnit} (small : unit.Fits) {c : Cursor} {rest : List UInt8}
    (front : c.rest = unit.contents ++ rest) :
    ∃ unit' c', readContents c = .ok (unit', c') ∧ c'.rest = rest ∧ Agrees unit' unit := by
  simp only [contents, List.append_assoc] at front
  obtain ⟨c₁, name, behind⟩ := text_format.reads _ small.name c _ front
  obtain ⟨c₂, c₃, constants, _, data, behind⟩ :=
    sequence_reads Datum.format small.constants small.data behind
  obtain ⟨c₄, c₅, methods, _, bodies, behind⟩ :=
    sequence_reads Chunk.format small.methods small.bodies behind
  obtain ⟨c₆, entry, behind⟩ := Chunk.format.reads _ small.entry c₅ _ behind
  refine ⟨⟨unit.name, .ofEntries unit.constants.entries, unit.methods, unit.entry⟩, c₆, ?_, behind, ?_⟩
  · simp only [readContents, bind, name, constants, data, methods, bodies, entry]
    rfl
  · exact ⟨rfl, ConstantPool.entries_ofEntries _, rfl, rfl⟩

theorem contents_writes {unit : CompiledUnit} {c c' : Cursor} (found : readContents c = .ok (unit, c')) :
    c.rest = unit.contents ++ c'.rest ∧ unit.Fits := by
  obtain ⟨name, c₁, first, found⟩ := Reader.bind_ok.mp found
  obtain ⟨count, c₂, counted, found⟩ := Reader.bind_ok.mp found
  obtain ⟨constants, c₃, second, found⟩ := Reader.bind_ok.mp found
  obtain ⟨count', c₄, counted', found⟩ := Reader.bind_ok.mp found
  obtain ⟨methods, c₅, third, found⟩ := Reader.bind_ok.mp found
  obtain ⟨entry, c₆, fourth, done⟩ := Reader.bind_ok.mp found
  cases done
  obtain ⟨front, short⟩ := text_format.writes _ _ _ first
  obtain ⟨pooled, few, data⟩ := sequence_writes Datum.format counted second
  obtain ⟨listed, few', bodies⟩ := sequence_writes Chunk.format counted' third
  obtain ⟨last, fits⟩ := Chunk.format.writes _ _ _ fourth
  rw [pooled, listed, last] at front
  have entries := ConstantPool.entries_ofEntries constants
  exact ⟨by simp [front, contents, entries], short, entries.symm ▸ few, entries.symm ▸ data, few', bodies, fits⟩

theorem read_reads {unit : CompiledUnit} (small : unit.Fits) {c : Cursor} (front : c.rest = unit.bytes) :
    ∃ unit' c', read c = .ok (unit', c') ∧ Agrees unit' unit := by
  rw [bytes_eq] at front
  obtain ⟨c₁, marked, behind⟩ := readMagic_reads front
  obtain ⟨c₂, versioned, behind⟩ := readVersion_reads behind
  rw [← List.append_nil unit.contents] at behind
  obtain ⟨unit', c₃, found, behind, agrees⟩ := contents_reads small behind
  have ended := readEnd_iff.mpr ⟨behind, rfl⟩
  refine ⟨unit', c₃, ?_, agrees⟩
  simp only [read_eq, bind, marked, versioned, found, ended]
  rfl

theorem read_writes {unit : CompiledUnit} {c c' : Cursor} (found : read c = .ok (unit, c')) :
    c.rest = unit.bytes ∧ unit.Fits := by
  rw [read_eq] at found
  obtain ⟨_, c₁, marked, found⟩ := Reader.bind_ok.mp found
  obtain ⟨_, c₂, versioned, found⟩ := Reader.bind_ok.mp found
  obtain ⟨unit, c₃, held, found⟩ := Reader.bind_ok.mp found
  obtain ⟨_, c₄, ended, done⟩ := Reader.bind_ok.mp found
  cases done
  obtain ⟨empty, rfl⟩ := readEnd_iff.mp ended
  obtain ⟨behind, fits⟩ := contents_writes held
  rw [readMagic_writes marked, readVersion_writes versioned, behind, empty, List.append_nil, bytes_eq]
  exact ⟨rfl, fits⟩

theorem ofBytes_bytes {unit : CompiledUnit} (small : unit.Fits) :
    ∃ unit', ofBytes unit.bytes = .ok unit' ∧ Agrees unit' unit := by
  obtain ⟨unit', c', found, agrees⟩ := read_reads (c := Cursor.ofBytes unit.bytes) small rfl
  exact ⟨unit', by simp only [ofBytes, found, Except.map], agrees⟩

theorem bytes_of_ofBytes {unit : CompiledUnit} {bytes : List UInt8} (found : ofBytes bytes = .ok unit) :
    unit.bytes = bytes ∧ unit.Fits := by
  unfold ofBytes at found
  cases decoded : read (Cursor.ofBytes bytes) with
  | error e =>
      rw [decoded] at found
      cases found
  | ok pair =>
      rw [decoded] at found
      cases found
      obtain ⟨front, small⟩ := read_writes decoded
      exact ⟨front.symm, small⟩

/-- Artifacts and the units that fit into them correspond one to one. -/
theorem artifact_bijection :
    (∀ unit : CompiledUnit, unit.Fits → ∃ unit', ofBytes unit.bytes = .ok unit' ∧ Agrees unit' unit) ∧
      (∀ bytes unit, ofBytes bytes = .ok unit → unit.bytes = bytes ∧ unit.Fits) ∧
      ∀ bytes bytes' unit unit', ofBytes bytes = .ok unit → ofBytes bytes' = .ok unit' →
        Agrees unit unit' → bytes = bytes' := by
  refine ⟨fun unit small => ofBytes_bytes small, fun bytes unit found => bytes_of_ofBytes found, ?_⟩
  intro bytes bytes' unit unit' found found' agrees
  calc
    bytes = unit.bytes := (bytes_of_ofBytes found).1.symm
    _ = unit'.bytes := agrees.bytes
    _ = bytes' := (bytes_of_ofBytes found').1

def letters : CompiledUnit :=
  { name := "λx"
    constants := .ofEntries #[.str "é", .double ⟨0x7ff8000000000001⟩]
    methods := #[⟨"f", 1, 1, 1, #[⟨.loadLocal 0, some ⟨1, 13, 12⟩⟩, ⟨.ret, none⟩]⟩]
    entry := ⟨"<main>", 0, 0, 1, #[⟨.loadConst 1, some ⟨2, 1, 20⟩⟩, ⟨.invoke 0 1, none⟩, ⟨.ret, none⟩]⟩ }

theorem letters_fit : letters.Fits := by
  have entries : letters.constants.entries = #[.str "é", .double ⟨0x7ff8000000000001⟩] :=
    ConstantPool.entries_ofEntries _
  constructor
  case name => decide
  case constants => simp [entries, UInt32.size]
  case data =>
    simp [entries, Datum.Fits]
    decide
  case methods => simp [letters, UInt32.size]
  case bodies =>
    intro chunk listed
    obtain rfl := Array.mem_singleton.mp listed
    exact ⟨by decide, by simp [UInt32.size], by simp [Instruction.Fits, UInt32.size]⟩
  case entry =>
    exact ⟨by decide, by simp [letters, UInt32.size], by simp [letters, Instruction.Fits, UInt32.size]⟩

theorem artifact_letters : letters.Fits ∧
    ∃ unit, ofBytes letters.bytes = .ok unit ∧ Agrees unit letters ∧ unit.bytes = letters.bytes := by
  refine ⟨letters_fit, ?_⟩
  obtain ⟨unit, found, agrees⟩ := artifact_bijection.1 letters letters_fit
  exact ⟨unit, found, agrees, (artifact_bijection.2.1 _ unit found).1⟩

end CompiledUnit

end LispMachine
