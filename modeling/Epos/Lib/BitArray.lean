import Mathlib.Data.List.Basic

namespace bitarray

/-- An array of bits. Its length is kept apart, and no bit past it counts. -/
abbrev Bits := Nat → Bool

def fill (f : Bits) (start cnt : Nat) (value : Bool) : Bits :=
  fun i => if start ≤ i ∧ i < start + cnt then value else f i

def flip (f : Bits) (idx : Nat) : Bits := fun i => if i = idx then !f i else f i

def count (f : Bits) (start cnt : Nat) (value : Bool) : Nat :=
  (List.range' start cnt).countP fun i => f i == value

def contains (f : Bits) (start cnt : Nat) (value : Bool) : Bool :=
  (List.range' start cnt).any fun i => f i == value

/-- Where the first group of `cnt` bits equal to `value` starts, at or after `start`,
in an array of `n` bits. -/
def first_group (n : Nat) (f : Bits) (start cnt : Nat) (value : Bool) : Option Nat :=
  (List.range' start (n + 1 - cnt - start)).find? fun i => !contains f i cnt (!value)

/-- Two arrays of `n` bits are the same. -/
def Agree (n : Nat) (f g : Bits) : Prop := ∀ i < n, f i = g i

section Arrays

variable {n start cnt : Nat} {f g : Bits} {value : Bool}

theorem Agree.count_eq (hagree : Agree n f g) (hfits : start + cnt ≤ n) :
    count f start cnt value = count g start cnt value := by
  apply List.countP_congr
  intro i hi
  have hbounds := List.mem_range'_1.mp hi
  rw [hagree i (by omega)]

theorem Agree.contains_eq (hagree : Agree n f g) (hfits : start + cnt ≤ n) :
    contains f start cnt value = contains g start cnt value := by
  rw [Bool.eq_iff_iff, contains, contains, List.any_eq_true, List.any_eq_true]
  constructor
  · rintro ⟨i, hi, heq⟩
    have hbounds := List.mem_range'_1.mp hi
    exact ⟨i, hi, hagree i (by omega) ▸ heq⟩
  · rintro ⟨i, hi, heq⟩
    have hbounds := List.mem_range'_1.mp hi
    exact ⟨i, hi, (hagree i (by omega)).symm ▸ heq⟩

/-- Filling a range changes nothing just when the range holds the value already. -/
theorem agree_fill_iff (hfits : start + cnt ≤ n) :
    Agree n f (fill f start cnt value) ↔ ∀ i, start ≤ i → i < start + cnt → f i = value := by
  constructor
  · intro hagree i hge hlt
    have hi := hagree i (by omega)
    rwa [fill, if_pos ⟨hge, hlt⟩] at hi
  · intro hall i hi
    rw [fill]
    split
    · next hin => exact hall i hin.1 hin.2
    · rfl

theorem agree_fill_one_iff (hfits : start < n) :
    Agree n f (fill f start 1 value) ↔ f start = value := by
  rw [agree_fill_iff (by omega)]
  constructor
  · intro hall
    exact hall start (Nat.le_refl start) (by omega)
  · intro heq i hge hlt
    have hi : i = start := by omega
    rw [hi, heq]

theorem not_agree_flip (hfits : start < n) : ¬ Agree n f (flip f start) := by
  intro hagree
  have hi := hagree start hfits
  rw [flip, if_pos rfl] at hi
  cases hbit : f start <;> simp [hbit] at hi

theorem contains_eq_false_iff :
    contains f start cnt value = false ↔ ∀ i, start ≤ i → i < start + cnt → f i = !value := by
  rw [contains, List.any_eq_false]
  constructor
  · intro hall i hge hlt
    have hne := hall i (List.mem_range'_1.mpr ⟨hge, hlt⟩)
    cases hbit : f i <;> cases value <;> simp_all
  · intro hall i hi
    have hbounds := List.mem_range'_1.mp hi
    rw [hall i hbounds.1 hbounds.2]
    cases value <;> decide

theorem first_group_some {i : Nat} (hfound : first_group n f start cnt value = some i) :
    start ≤ i ∧ i + cnt ≤ n ∧ ∀ j, i ≤ j → j < i + cnt → f j = value := by
  have hmem := List.mem_of_find?_eq_some hfound
  have hgroup := List.find?_some hfound
  have hbounds := List.mem_range'_1.mp hmem
  rw [Bool.not_eq_true', contains_eq_false_iff, Bool.not_not] at hgroup
  exact ⟨hbounds.1, by omega, hgroup⟩

theorem first_group_none_iff :
    first_group n f start cnt value = none ↔
      ∀ i, start ≤ i → i + cnt ≤ n → ∃ j, i ≤ j ∧ j < i + cnt ∧ f j ≠ value := by
  rw [first_group, List.find?_eq_none]
  constructor
  · intro hall i hge hfits
    have hnot := hall i (List.mem_range'_1.mpr ⟨hge, by omega⟩)
    rw [Bool.not_eq_true', contains_eq_false_iff, Bool.not_not] at hnot
    by_contra hnone
    apply hnot
    intro j hj hlt
    by_contra hne
    exact hnone ⟨j, hj, hlt, hne⟩
  · intro hall i hi
    have hbounds := List.mem_range'_1.mp hi
    obtain ⟨j, hj, hlt, hne⟩ := hall i hbounds.1 (by omega)
    rw [Bool.not_eq_true', contains_eq_false_iff, Bool.not_not]
    intro hgroup
    exact hne (hgroup j hj hlt)

end Arrays

end bitarray
