import LispMachine.Code.Pool

set_option autoImplicit false

namespace LispMachine.ConstantPool

structure Valid (pool : ConstantPool) : Prop where
  size : pool.entries.size ≤ limit
  index : ∀ (d : Datum) (i : UInt16), pool.index[d]? = some i → pool.get? i = some d

def Within (a b : ConstantPool) : Prop := ∀ (i : UInt16) (d : Datum), a.get? i = some d → b.get? i = some d

theorem Within.refl (pool : ConstantPool) : pool.Within pool := fun _ _ found => found

theorem Within.trans {a b c : ConstantPool} (first : a.Within b) (second : b.Within c) : a.Within c :=
  fun i d found => second i d (first i d found)

theorem valid_empty : empty.Valid := by
  constructor <;> simp [empty]

theorem add_some {pool pool' : ConstantPool} {d : Datum} {i : UInt16} (valid : pool.Valid)
    (added : pool.add d = (some i, pool')) :
    pool'.Valid ∧ pool.Within pool' ∧ pool'.get? i = some d := by
  obtain ⟨entries, index⟩ := pool
  simp only [add] at added
  split at added
  next found =>
    cases added
    exact ⟨valid, .refl _, valid.index d i found⟩
  next =>
    split at added <;> cases added
    next room =>
      have number : (UInt16.ofNat entries.size).toNat = entries.size :=
        UInt16.toNat_ofNat_of_lt' room
      have older : Within ⟨entries, index⟩ ⟨entries.push d, index.insert d (UInt16.ofNat entries.size)⟩ := by
        intro j e found
        have inside : j.toNat < entries.size := (Array.getElem?_eq_some_iff.mp found).1
        simp only [get?] at found ⊢
        rw [Array.getElem?_push_lt inside, ← found, Array.getElem?_eq_getElem inside]
      have newest : get? ⟨entries.push d, index.insert d (UInt16.ofNat entries.size)⟩
          (UInt16.ofNat entries.size) = some d := by
        simp only [get?, number, Array.getElem?_push_size]
      refine ⟨⟨?_, ?_⟩, older, newest⟩
      · simp only [Array.size_push]
        omega
      · intro e j found
        simp only [Std.HashMap.getElem?_insert] at found
        split at found
        next same =>
          cases found
          rw [← eq_of_beq same]
          exact newest
        next => exact older j e (valid.index e j found)

end LispMachine.ConstantPool
