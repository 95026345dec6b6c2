import LispMachine.Proofs.Artifact.RoundTrip
import LispMachine.Proofs.Except
import LispMachine.Proofs.Pool.Additions

set_option autoImplicit false

namespace LispMachine

namespace ConstantPool

variable {pool after : ConstantPool} {d : Datum} {i : UInt16}

theorem getElem?_ne_of_lt_idxOf {data : List Datum} {k : Nat} (before : k < data.idxOf d) :
    data[k]? ≠ some d := by
  intro held
  obtain ⟨inside, entry⟩ := List.getElem?_eq_some_iff.mp held
  have other : (data[k] == d) = false := List.not_of_lt_findIdx before
  simp [entry] at other

theorem Indexed.add_index (indexed : pool.Indexed) (added : pool.add d = (some i, after)) :
    i.toNat = pool.entries.toList.idxOf d % limit := by
  by_cases old : d ∈ pool.entries
  next =>
    rw [indexed.add_old old] at added
    cases added
    exact UInt16.toNat_ofNat'
  next =>
    obtain ⟨number, room⟩ := indexed.toNat_of_new old (congrArg Prod.fst added)
    have last : pool.entries.toList.idxOf d = pool.size :=
      List.idxOf_eq_length (by simpa using old)
    rw [last, Nat.mod_eq_of_lt room, number]

theorem Indexed.add_found_iff (indexed : pool.Indexed) (added : pool.add d = (some i, after)) :
    after.get? i = some d ↔ pool.entries.toList.idxOf d < limit := by
  have number := indexed.add_index added
  by_cases old : d ∈ pool.entries
  next =>
    have member : d ∈ pool.entries.toList := Array.mem_toList_iff.mpr old
    rw [indexed.add_old old] at added
    cases added
    rw [get?, number, ← Array.getElem?_toList]
    constructor
    · intro held
      by_cases small : pool.entries.toList.idxOf d < limit
      next => exact small
      next =>
        have wrapped : pool.entries.toList.idxOf d % limit < limit := Nat.mod_lt _ (by decide)
        exact absurd held (getElem?_ne_of_lt_idxOf (by omega))
    · intro small
      have inside := List.idxOf_lt_length_of_mem member
      rw [Nat.mod_eq_of_lt small, List.getElem?_eq_getElem inside, List.getElem_idxOf]
  next =>
    obtain ⟨last, room⟩ := indexed.toNat_of_new old (congrArg Prod.fst added)
    have pushed := (indexed.add_new old room).2.1
    rw [added] at pushed
    have found : after.get? i = some d := by
      rw [get?, last, pushed]
      exact Array.getElem?_push_size
    have small : pool.entries.toList.idxOf d < limit := by
      rw [List.idxOf_eq_length (by simpa using old)]
      exact room
    exact iff_of_true found small

end ConstantPool

namespace CompiledUnit

open ConstantPool

open Artifact

theorem readContents_indexed {c c' : Cursor} {unit : CompiledUnit}
    (read : readContents c = .ok (unit, c')) : unit.constants.Indexed := by
  obtain ⟨name, _, _, read⟩ := Reader.bind_ok.mp read
  obtain ⟨_, _, _, read⟩ := Reader.bind_ok.mp read
  obtain ⟨constants, _, _, read⟩ := Reader.bind_ok.mp read
  obtain ⟨_, _, _, read⟩ := Reader.bind_ok.mp read
  obtain ⟨_, _, _, read⟩ := Reader.bind_ok.mp read
  obtain ⟨_, _, _, done⟩ := Reader.bind_ok.mp read
  cases done
  exact indexed_ofEntries constants

theorem ofBytes_indexed {bytes : List UInt8} {unit : CompiledUnit} (decoded : ofBytes bytes = .ok unit) :
    unit.constants.Indexed := by
  obtain ⟨⟨_, _⟩, read, same⟩ := map_ok decoded
  cases same
  rw [read_eq] at read
  obtain ⟨_, _, _, read⟩ := Reader.bind_ok.mp read
  obtain ⟨_, _, _, read⟩ := Reader.bind_ok.mp read
  obtain ⟨unit, _, contents, read⟩ := Reader.bind_ok.mp read
  obtain ⟨_, _, _, done⟩ := Reader.bind_ok.mp read
  cases done
  exact readContents_indexed contents

/-- A constant is found among those of a decoded unit, or added to them, under an index that stands for it,
unless the first one like it stands behind as many others as 16 bits can number. Then the index is that of
another constant. -/
theorem decoded_add_iff {bytes : List UInt8} {unit : CompiledUnit} {d : Datum} {i : UInt16}
    {after : ConstantPool} (decoded : ofBytes bytes = .ok unit) (added : unit.constants.add d = (some i, after)) :
    i.toNat = unit.constants.entries.toList.idxOf d % limit ∧
      (after.get? i = some d ↔ unit.constants.entries.toList.idxOf d < limit) := by
  have indexed := ofBytes_indexed decoded
  exact ⟨indexed.add_index added, indexed.add_found_iff added⟩

section Crowded

def crowd : Array Datum := (Array.replicate limit (.str "")).push (.long 1)

def crowded : CompiledUnit :=
  { name := "crowded"
    constants := .ofEntries crowd
    methods := #[]
    entry := ⟨"<main>", 0, 0, 1, #[⟨.pushNil, none⟩, ⟨.ret, none⟩]⟩ }

theorem idxOf_crowd : crowd.toList.idxOf (.long 1) = limit := by
  have other : Datum.long 1 ∉ List.replicate limit (Datum.str "") := by simp
  simp [crowd, List.idxOf_append, other]

theorem crowded_fits : crowded.Fits := by
  have entries : crowded.constants.entries = crowd := entries_ofEntries crowd
  constructor
  case name => decide
  case constants =>
    rw [entries, crowd, Array.size_push, Array.size_replicate]
    decide
  case data =>
    rw [entries]
    intro d listed
    simp only [crowd, Array.mem_push, Array.mem_replicate] at listed
    obtain ⟨_, rfl⟩ | rfl := listed <;> simp [Datum.Fits, UInt32.size]
  case methods => simp [crowded, UInt32.size]
  case bodies => simp [crowded]
  case entry =>
    exact ⟨by decide, by simp [crowded, UInt32.size], by simp [crowded, Instruction.Fits]⟩

theorem crowded_misled : ∃ unit, ofBytes crowded.bytes = .ok unit ∧
    unit.constants.add (.long 1) = (some 0, unit.constants) ∧ unit.constants.get? 0 = some (.str "") ∧
    unit.constants.get? 0 ≠ some (.long 1) := by
  obtain ⟨unit, decoded, agrees⟩ := ofBytes_bytes crowded_fits
  have entries : unit.constants.entries = crowd := agrees.constants.trans (entries_ofEntries crowd)
  have listed : Datum.long 1 ∈ unit.constants.entries := by
    rw [entries]
    exact Array.mem_push_self
  have added := (ofBytes_indexed decoded).add_old listed
  rw [entries, idxOf_crowd] at added
  obtain ⟨_, found⟩ := decoded_add_iff decoded added
  rw [entries, idxOf_crowd] at found
  refine ⟨unit, decoded, added, ?_, fun same => ?_⟩
  · have first : 0 < limit := by decide
    rw [get?, entries, crowd, Array.getElem?_push_lt (by simpa using first)]
    simp
  · exact absurd (found.mp same) (Nat.lt_irrefl _)

end Crowded

end CompiledUnit

end LispMachine
