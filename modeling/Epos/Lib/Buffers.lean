import Epos.Lib.WordAt
import Mathlib.Logic.Function.Basic

open bytes

namespace buffers

/-- What is in the buffer at an address, if there is one. -/
abbrev Buffers := Nat → Option (List UInt8)

/-- The `n` bytes at an address. -/
def contents (mem : ByteMem) (p n : Nat) : List UInt8 := (List.range n).map fun i => byte mem (p + i)

/-- The memory has what the buffers say, and they fit in it. -/
def Holds (mem : ByteMem) (s : Buffers) : Prop :=
  ∀ p bs, s p = some bs → p + bs.length ≤ 2 ^ 32 ∧ contents mem p bs.length = bs

/-- No two buffers overlap. -/
def Apart (s : Buffers) : Prop :=
  ∀ p q bs cs, s p = some bs → s q = some cs → p ≠ q → p + bs.length ≤ q ∨ q + cs.length ≤ p

/-- A buffer that is not there yet, and overlaps none. -/
def New (s : Buffers) (p n : Nat) : Prop :=
  p ≠ 0 ∧ s p = none ∧ ∀ q cs, s q = some cs → p + n ≤ q ∨ q + cs.length ≤ p

section Contents

variable {mem mem' : ByteMem} {s : Buffers} {p n : Nat} {bs : List UInt8}

theorem contents_length (mem : ByteMem) (p n : Nat) : (contents mem p n).length = n := by
  rw [contents, List.length_map, List.length_range]

theorem contents_congr {q : Nat} (hsame : ∀ i < n, byte mem' (q + i) = byte mem (p + i)) :
    contents mem' q n = contents mem p n :=
  List.map_congr_left fun i hi => hsame i (List.mem_range.mp hi)

theorem contents_take (mem : ByteMem) (p n k : Nat) : (contents mem p n).take k = contents mem p (min k n) := by
  rw [contents, ← List.map_take, List.take_range, contents]

theorem contents_getElem? (mem : ByteMem) (p n : Nat) {i : Nat} (hi : i < n) :
    (contents mem p n)[i]? = some (byte mem (p + i)) := by
  rw [contents, List.getElem?_map, List.getElem?_range hi, Option.map_some]

theorem Holds.getElem? (hholds : Holds mem s) (hp : s p = some bs) {i : Nat} (hi : i < bs.length) :
    bs[i]? = some (byte mem (p + i)) := by
  have hcontents := contents_getElem? mem p bs.length hi
  rw [(hholds p bs hp).2] at hcontents
  exact hcontents

end Contents

section Updates

variable {mem mem' : ByteMem} {s : Buffers} {p n : Nat} {bs : List UInt8}

/-- A step that leaves the bytes of the buffers alone. -/
theorem Holds.congr (hholds : Holds mem s) (hsame : ∀ p bs, s p = some bs → ∀ i < bs.length, byte mem' (p + i) = byte mem (p + i)) :
    Holds mem' s := by
  intro p bs hp
  obtain ⟨hfits, hcontents⟩ := hholds p bs hp
  exact ⟨hfits, (contents_congr (hsame p bs hp)).trans hcontents⟩

theorem Holds.erase (hholds : Holds mem s) (p : Nat) : Holds mem (Function.update s p none) := by
  intro q cs hq
  by_cases hqp : q = p
  · rw [hqp, Function.update_self] at hq
    cases hq
  · rw [Function.update_of_ne hqp] at hq
    exact hholds q cs hq

/-- A buffer that holds what has been found in it. -/
theorem Holds.insert (hholds : Holds mem s) (hfits : p + n ≤ 2 ^ 32) :
    Holds mem (Function.update s p (some (contents mem p n))) := by
  intro q cs hq
  by_cases hqp : q = p
  · rw [hqp, Function.update_self] at hq
    obtain rfl := Option.some.inj hq
    rw [hqp, contents_length]
    exact ⟨hfits, rfl⟩
  · rw [Function.update_of_ne hqp] at hq
    exact hholds q cs hq

theorem Apart.erase (hapart : Apart s) (p : Nat) : Apart (Function.update s p none) := by
  have hold : ∀ q cs, Function.update s p none q = some cs → s q = some cs := by
    intro q cs hq
    by_cases hqp : q = p
    · rw [hqp, Function.update_self] at hq
      cases hq
    · rwa [Function.update_of_ne hqp] at hq
  exact fun q r cs ds hq hr hne => hapart q r cs ds (hold q cs hq) (hold r ds hr) hne

theorem Apart.insert (hapart : Apart s) (hnew : New s p bs.length) : Apart (Function.update s p (some bs)) := by
  obtain ⟨-, -, hout⟩ := hnew
  intro q r cs ds hq hr hne
  by_cases hqp : q = p
  · have hrp : r ≠ p := fun h => hne (hqp.trans h.symm)
    rw [hqp, Function.update_self] at hq
    rw [Function.update_of_ne hrp] at hr
    obtain rfl := Option.some.inj hq
    rw [hqp]
    exact hout r ds hr
  · rw [Function.update_of_ne hqp] at hq
    by_cases hrp : r = p
    · rw [hrp, Function.update_self] at hr
      obtain rfl := Option.some.inj hr
      rw [hrp]
      exact (hout q cs hq).symm
    · rw [Function.update_of_ne hrp] at hr
      exact hapart q r cs ds hq hr hne

/-- A byte that is written to a buffer. -/
theorem Holds.write (hholds : Holds mem s) (hapart : Apart s) (hp : s p = some bs) {i : Nat} (hi : i < bs.length) (v : UInt8) :
    Holds (store8 mem (UInt32.ofNat (p + i)) v) (Function.update s p (some (bs.set i v))) := by
  obtain ⟨hfits, hcontents⟩ := hholds p bs hp
  intro q cs hq
  by_cases hqp : q = p
  · rw [hqp, Function.update_self] at hq
    obtain rfl := Option.some.inj hq
    rw [hqp, List.length_set]
    refine ⟨hfits, List.ext_getElem? fun j => ?_⟩
    by_cases hj : j < bs.length
    · have hold := hholds.getElem? hp hj
      rw [contents_getElem? _ _ _ hj, byte_store8 _ _ (by omega) (by omega), List.getElem?_set]
      by_cases hji : j = i
      · rw [if_pos (by omega), if_pos hji.symm, if_pos hi]
      · rw [if_neg (by omega), if_neg (fun h => hji h.symm), hold]
    · rw [List.getElem?_eq_none (by rw [contents_length]; omega), List.getElem?_eq_none (by rw [List.length_set]; omega)]
  · rw [Function.update_of_ne hqp] at hq
    obtain ⟨hfits', hcontents'⟩ := hholds q cs hq
    have hout := hapart q p cs bs hq hp hqp
    refine ⟨hfits', (contents_congr fun j hj => ?_).trans hcontents'⟩
    rw [byte_store8 _ _ (by omega) (by omega), if_neg (by omega)]

theorem Apart.write (hapart : Apart s) (hp : s p = some bs) (i : Nat) (v : UInt8) :
    Apart (Function.update s p (some (bs.set i v))) := by
  have hold : ∀ q cs, Function.update s p (some (bs.set i v)) q = some cs → ∃ ds, s q = some ds ∧ ds.length = cs.length := by
    intro q cs hq
    by_cases hqp : q = p
    · rw [hqp, Function.update_self] at hq
      obtain rfl := Option.some.inj hq
      exact ⟨bs, hqp ▸ hp, (List.length_set ..).symm⟩
    · rw [Function.update_of_ne hqp] at hq
      exact ⟨cs, hq, rfl⟩
  intro q r cs ds hq hr hne
  obtain ⟨cs', hq', hcs⟩ := hold q cs hq
  obtain ⟨ds', hr', hds⟩ := hold r ds hr
  have := hapart q r cs' ds' hq' hr' hne
  omega

end Updates

end buffers
