import LispMachine.Proofs.Pool

set_option autoImplicit false

namespace LispMachine

namespace ConstantPool

variable {pool : ConstantPool} {d : Datum} {i : UInt16}

def addAll (pool : ConstantPool) (history : List Datum) : ConstantPool :=
  history.foldl (fun pool d => (pool.add d).2) pool

def Indexed (pool : ConstantPool) : Prop :=
  ∀ d, pool.index[d]? =
    if d ∈ pool.entries then some (UInt16.ofNat (pool.entries.toList.idxOf d)) else none

theorem indexed_empty : empty.Indexed := by
  intro d
  simp [empty]

theorem Indexed.push {after : ConstantPool} (indexed : pool.Indexed)
    (entries : after.entries = pool.entries.push d)
    (recorded : ∀ e, after.index[e]? =
      if d = e ∧ d ∉ pool.entries then some (UInt16.ofNat pool.entries.size) else pool.index[e]?) :
    after.Indexed := by
  intro e
  rw [recorded, indexed e, entries, Array.toList_push, List.idxOf_append]
  by_cases old : e ∈ pool.entries
  next =>
    have other : ¬ (d = e ∧ d ∉ pool.entries) := by
      rintro ⟨rfl, new⟩
      exact new old
    rw [if_neg other]
    simp [old]
  next =>
    by_cases same : d = e
    next =>
      subst same
      simp [old]
    next => simp [old, same, Ne.symm same]

theorem Indexed.append (indexed : pool.Indexed) (d : Datum) : (pool.append d).Indexed := by
  have lookup := indexed d
  apply indexed.push rfl
  intro e
  simp only [ConstantPool.append, Std.HashMap.getElem?_insertIfNew, beq_iff_eq,
    Std.HashMap.mem_iff_isSome_getElem?, lookup]
  by_cases old : d ∈ pool.entries <;> simp [old]

theorem indexed_ofEntries (entries : Array Datum) : (ofEntries entries).Indexed := by
  rw [ofEntries, ← Array.foldl_toList]
  generalize entries.toList = data
  have grows (pool : ConstantPool) (indexed : pool.Indexed) : (data.foldl append pool).Indexed := by
    induction data generalizing pool with
    | nil => exact indexed
    | cons d data ih => exact ih (pool.append d) (indexed.append d)
  exact grows empty indexed_empty

section Add

variable (indexed : pool.Indexed)
include indexed

theorem Indexed.add_old (old : d ∈ pool.entries) :
    pool.add d = (some (UInt16.ofNat (pool.entries.toList.idxOf d)), pool) := by
  have lookup := indexed d
  rw [if_pos old] at lookup
  simp only [ConstantPool.add, lookup]

theorem Indexed.add_full (new : d ∉ pool.entries) (full : limit ≤ pool.size) :
    pool.add d = (none, pool) := by
  have lookup := indexed d
  rw [if_neg new] at lookup
  simp only [ConstantPool.add, lookup]
  exact if_neg (Nat.not_lt.mpr full)

theorem Indexed.add_new (new : d ∉ pool.entries) (room : pool.size < limit) :
    (pool.add d).1 = some (UInt16.ofNat pool.size) ∧
      (pool.add d).2.entries = pool.entries.push d ∧ (pool.add d).2.Indexed := by
  have lookup := indexed d
  rw [if_neg new] at lookup
  have added : pool.add d = (some (UInt16.ofNat pool.size),
      ⟨pool.entries.push d, pool.index.insert d (UInt16.ofNat pool.size)⟩) := by
    simp only [ConstantPool.add, lookup]
    exact if_pos room
  rw [added]
  refine ⟨rfl, rfl, indexed.push rfl ?_⟩
  intro e
  simp [Std.HashMap.getElem?_insert, new, size]

theorem Indexed.toNat_of_new (new : d ∉ pool.entries) (answer : (pool.add d).1 = some i) :
    i.toNat = pool.size ∧ pool.size < limit := by
  by_cases room : pool.size < limit
  next =>
    rw [(indexed.add_new new room).1] at answer
    cases answer
    exact ⟨UInt16.toNat_ofNat_of_lt' room, room⟩
  next =>
    rw [indexed.add_full new (Nat.not_lt.mp room)] at answer
    cases answer

theorem Indexed.add_eq_none_iff : (pool.add d).1 = none ↔ limit ≤ pool.size ∧ d ∉ pool.entries := by
  by_cases old : d ∈ pool.entries
  next => simp [indexed.add_old old, old]
  next =>
    by_cases room : pool.size < limit
    next => simp [(indexed.add_new old room).1, Nat.not_le.mpr room]
    next => simp [indexed.add_full old (Nat.not_lt.mp room), Nat.not_lt.mp room, old]

theorem Indexed.valid (small : pool.size ≤ limit) : pool.Valid := by
  refine ⟨small, ?_⟩
  intro d i found
  rw [indexed d] at found
  split at found <;> cases found
  next old =>
    have inside : pool.entries.toList.idxOf d < pool.entries.toList.length :=
      List.idxOf_lt_length_of_mem (by simpa using old)
    have number : (UInt16.ofNat (pool.entries.toList.idxOf d)).toNat = pool.entries.toList.idxOf d :=
      UInt16.toNat_ofNat_of_lt' (Nat.lt_of_lt_of_le inside small)
    rw [get?, number, ← Array.getElem?_toList, List.getElem?_eq_getElem inside, List.getElem_idxOf]

end Add

theorem Valid.add (valid : pool.Valid) (d : Datum) : (pool.add d).2.Valid ∧ pool.Within (pool.add d).2 := by
  cases answer : (pool.add d).1 with
  | some i =>
      obtain ⟨filled, within, _⟩ := add_some valid (Prod.ext answer rfl)
      exact ⟨filled, within⟩
  | none =>
      obtain ⟨entries, index⟩ := pool
      simp only [ConstantPool.add] at answer ⊢
      split at answer
      next => cases answer
      next =>
        split at answer
        next => cases answer
        next full =>
          rw [if_neg full]
          exact ⟨valid, .refl _⟩

theorem Valid.addAll (valid : pool.Valid) (later : List Datum) : pool.Within (pool.addAll later) := by
  induction later generalizing pool with
  | nil => exact .refl _
  | cons d later ih =>
      obtain ⟨filled, within⟩ := valid.add d
      exact within.trans (ih filled)

structure Records (history : List Datum) (pool : ConstantPool) : Prop where
  indexed : pool.Indexed
  distinct : pool.entries.toList.Nodup
  entries : pool.entries.toList = history.eraseDups.take limit

namespace Records

variable {history : List Datum}

theorem size_le (records : Records history pool) : pool.size ≤ limit := by
  rw [size, ← Array.length_toList, records.entries]
  exact List.length_take_le _ _

theorem add (records : Records history pool) (d : Datum) : Records (history ++ [d]) (pool.add d).2 := by
  have longer : (history ++ [d]).eraseDups = history.eraseDups ++ ([d].removeAll history).eraseDups :=
    List.eraseDups_append
  by_cases old : d ∈ pool.entries
  next =>
    have listed : d ∈ history := by
      have taken : d ∈ history.eraseDups.take limit := records.entries ▸ Array.mem_toList_iff.mpr old
      exact List.mem_eraseDups.mp (List.mem_of_mem_take taken)
    have same : (history ++ [d]).eraseDups = history.eraseDups := by
      rw [longer]
      simp [List.removeAll, listed]
    rw [records.indexed.add_old old]
    exact ⟨records.indexed, records.distinct, same ▸ records.entries⟩
  next =>
    have length : pool.size = min limit history.eraseDups.length := by
      rw [size, ← Array.length_toList, records.entries, List.length_take]
    by_cases room : pool.size < limit
    next =>
      have short : history.eraseDups.length < limit := by omega
      have entries : pool.entries.toList = history.eraseDups := by
        rw [records.entries, List.take_of_length_le (Nat.le_of_lt short)]
      have new : d ∉ history := by
        rwa [← List.mem_eraseDups, ← entries, Array.mem_toList_iff]
      have single : ([d].removeAll history).eraseDups = [d] := by
        simp [List.removeAll, new, List.eraseDups_cons]
      obtain ⟨_, pushed, indexed⟩ := records.indexed.add_new old room
      refine ⟨indexed, ?_, ?_⟩
      · rw [pushed, Array.toList_push]
        have apart : ∀ e ∈ pool.entries.toList, e ≠ d := by
          rintro e member rfl
          exact old (Array.mem_toList_iff.mp member)
        simpa [List.nodup_append] using And.intro records.distinct apart
      · rw [pushed, Array.toList_push, longer, single, entries, List.take_of_length_le]
        simpa using Nat.succ_le_of_lt short
    next =>
      have long : limit ≤ history.eraseDups.length := by omega
      rw [records.indexed.add_full old (Nat.not_lt.mp room)]
      refine ⟨records.indexed, records.distinct, ?_⟩
      rw [longer, List.take_append_of_le_length long]
      exact records.entries

theorem addAll (records : Records history pool) (later : List Datum) :
    Records (history ++ later) (pool.addAll later) := by
  induction later generalizing history pool with
  | nil => simpa [ConstantPool.addAll] using records
  | cons d later ih => simpa [ConstantPool.addAll] using ih (records.add d)

-- Each entry stands once, so it is found under its own number.
theorem add_of_get? (records : Records history pool) (held : pool.get? i = some d) :
    pool.add d = (some i, pool) := by
  have old : d ∈ pool.entries := Array.mem_of_getElem? held
  rw [get?, ← Array.getElem?_toList] at held
  obtain ⟨inside, entry⟩ := List.getElem?_eq_some_iff.mp held
  have number := records.distinct.idxOf_getElem i.toNat inside
  rw [records.indexed.add_old old, ← entry, number, UInt16.ofNat_toNat]

end Records

theorem records_empty : Records [] empty := by
  refine ⟨indexed_empty, ?_, ?_⟩ <;> simp [empty]

theorem records_addAll (history : List Datum) : Records history (empty.addAll history) :=
  records_empty.addAll history

/-- A pool that began empty holds each constant that came, once and in the order of first arrival, until it
is full. Constants are one if they agree in kind and value, doubles bit by bit. The index that an addition
gives is the number of entries before a new constant and stands for that constant ever after. Only a full
pool refuses, and only what it lacks; it stays as it is, and the constants in it keep being found. -/
theorem additions_stable (history : List Datum) :
    let pool := empty.addAll history
    pool.entries.toList = history.eraseDups.take limit ∧ pool.entries.toList.Nodup ∧
      ∀ d : Datum,
        (∀ i, (pool.add d).1 = some i → (d ∉ pool.entries → i.toNat = pool.size) ∧
          ∀ later, ((pool.add d).2.addAll later).get? i = some d) ∧
        ((pool.add d).1 = none ↔ pool.size = limit ∧ d ∉ pool.entries) ∧
        ((pool.add d).1 = none → (pool.add d).2 = pool) ∧
        (d ∈ pool.entries →
          ∃ i, ∀ later, (pool.addAll later).add d = (some i, pool.addAll later)) := by
  intro pool
  have records : Records history pool := records_addAll history
  have indexed := records.indexed
  have small := records.size_le
  have valid := indexed.valid small
  refine ⟨records.entries, records.distinct, ?_⟩
  intro d
  have refuses := indexed.add_eq_none_iff (d := d)
  refine ⟨?_, ?_, ?_, ?_⟩
  · intro i answer
    obtain ⟨filled, _, found⟩ := add_some valid (Prod.ext answer rfl)
    constructor
    · intro new
      exact (indexed.toNat_of_new new answer).1
    · intro later
      exact filled.addAll later i d found
  · rw [refuses]
    refine and_congr_left fun _ => ?_
    omega
  · intro refused
    obtain ⟨full, new⟩ := refuses.mp refused
    rw [indexed.add_full new full]
  · intro old
    have present := indexed.add_old old
    obtain ⟨_, _, held⟩ := add_some valid present
    exact ⟨_, fun later => (records.addAll later).add_of_get? (valid.addAll later _ d held)⟩

-- The two zeros are two constants, a NaN with one payload is one.
example : [Datum.double ⟨0⟩, .double ⟨0x8000000000000000⟩, .double ⟨0x7ff8000000000000⟩, .double ⟨0⟩,
    .double ⟨0x7ff8000000000000⟩].eraseDups.length = 3 := by decide

end ConstantPool

end LispMachine
