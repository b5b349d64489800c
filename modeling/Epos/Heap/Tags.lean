import Epos.Heap.Slots

open bits bytes

namespace epos.tlsf

/-- The size word of a block of `s` bytes: whether it is free, and whether the one before it is. -/
def tag (s : Nat) (f p : Bool) : Nat := s + f.toNat + 2 * p.toNat

section Tags

variable {s s' : Nat} {f p : Bool}

theorem tag_lt (hs : s % 8 = 0) (hlt : s < 2 ^ 32) : tag s f p < 2 ^ 32 := by
  have hf := Bool.toNat_le f
  have hp := Bool.toNat_le p
  unfold tag
  omega

theorem testBit_tag (hs : s % 8 = 0) (i : Nat) :
    (tag s f p).testBit i = if i = 0 then f else if i = 1 then p else s.testBit i := by
  have hf := Bool.toNat_le f
  have hp := Bool.toNat_le p
  have hsplit : tag s f p = 2 ^ 2 * (s / 2 ^ 2) + (f.toNat + 2 * p.toNat) := by
    unfold tag
    omega
  rw [hsplit, Nat.testBit_two_pow_mul_add _ (by omega)]
  match i with
  | 0 => cases f <;> cases p <;> rfl
  | 1 => cases f <;> cases p <;> rfl
  | i + 2 =>
    rw [if_neg (by omega), if_neg (by omega), if_neg (by omega), Nat.testBit_div_two_pow]
    congr 1

theorem testBit_low (hs : s % 8 = 0) {i : Nat} (hi : i < 2) : s.testBit i = false := by
  have h := testBit_tag (f := false) (p := false) hs i
  have hsame : tag s false false = s := rfl
  rw [hsame] at h
  rw [h]
  split
  · rfl
  · rw [if_pos (by omega)]

/-- A word is known by its bits. -/
theorem eq_ofNat_of_testBit {w : UInt32} {n : Nat} (hn : n < 2 ^ 32) (hbits : ∀ i < 32, w.toNat.testBit i = n.testBit i) :
    w = UInt32.ofNat n := by
  rw [← UInt32.toNat_inj, UInt32.toNat_ofNat', Nat.mod_eq_of_lt hn]
  apply Nat.eq_of_testBit_eq
  intro i
  by_cases hi : i < 32
  · exact hbits i hi
  · have hpow : 2 ^ 32 ≤ 2 ^ i := Nat.pow_le_pow_right (by decide) (Nat.le_of_not_lt hi)
    rw [Nat.testBit_lt_two_pow (Nat.lt_of_lt_of_le w.toNat_lt hpow), Nat.testBit_lt_two_pow (Nat.lt_of_lt_of_le hn hpow)]

theorem toNat_tag (hs : s % 8 = 0) (hlt : s < 2 ^ 32) : (UInt32.ofNat (tag s f p)).toNat = tag s f p := by
  rw [UInt32.toNat_ofNat', Nat.mod_eq_of_lt (tag_lt hs hlt)]

theorem bit_masks : ∀ i < 32, FREE_BLOCK.toNat.testBit i = decide (i = 0) ∧ PREV_FREE.toNat.testBit i = decide (i = 1) ∧
    BLOCK_SIZE.toNat.testBit i = decide (2 ≤ i) ∧ (~~~FREE_BLOCK).toNat.testBit i = decide (i ≠ 0) ∧
    (~~~PREV_FREE).toNat.testBit i = decide (i ≠ 1) := by decide

theorem and_BLOCK_SIZE (hs : s % 8 = 0) (hlt : s < 2 ^ 32) :
    UInt32.ofNat (tag s f p) &&& BLOCK_SIZE = UInt32.ofNat s := by
  apply eq_ofNat_of_testBit hlt
  intro i hi
  rw [UInt32.toNat_and, toNat_tag hs hlt, Nat.testBit_and, (bit_masks i hi).2.2.1, testBit_tag hs]
  by_cases hlow : i < 2
  · rw [testBit_low hs hlow, decide_eq_false (by omega), Bool.and_false]
  · rw [if_neg (by omega), if_neg (by omega), decide_eq_true (by omega), Bool.and_true]

theorem and_ne_zero_iff {w : UInt32} {k : Nat} (hk : k < 32) (m : UInt32) (hm : ∀ i < 32, m.toNat.testBit i = decide (i = k)) :
    w &&& m ≠ 0 ↔ w.toNat.testBit k = true := by
  constructor
  · intro hne
    refine Decidable.byContradiction fun hbit => hne ?_
    refine eq_ofNat_of_testBit (by decide) fun i hi => ?_
    rw [UInt32.toNat_and, Nat.testBit_and, hm i hi, Nat.zero_testBit]
    by_cases hik : i = k
    · rw [hik, (Bool.not_eq_true _).mp hbit, Bool.false_and]
    · rw [decide_eq_false hik, Bool.and_false]
  · intro hbit hzero
    have hand : (w &&& m).toNat.testBit k = true := by
      rw [UInt32.toNat_and, Nat.testBit_and, hm k hk, hbit, decide_eq_true rfl, Bool.and_true]
    rw [hzero, UInt32.toNat_zero, Nat.zero_testBit] at hand
    cases hand

theorem and_FREE_BLOCK (hs : s % 8 = 0) (hlt : s < 2 ^ 32) :
    UInt32.ofNat (tag s f p) &&& FREE_BLOCK ≠ 0 ↔ f = true := by
  rw [and_ne_zero_iff (by decide) _ fun i hi => (bit_masks i hi).1, toNat_tag hs hlt, testBit_tag hs, if_pos rfl]

theorem and_PREV_FREE (hs : s % 8 = 0) (hlt : s < 2 ^ 32) :
    UInt32.ofNat (tag s f p) &&& PREV_FREE ≠ 0 ↔ p = true := by
  rw [and_ne_zero_iff (by decide) _ fun i hi => (bit_masks i hi).2.1, toNat_tag hs hlt, testBit_tag hs,
    if_neg (by decide), if_pos rfl]

theorem or_FREE_BLOCK (hs : s % 8 = 0) (hlt : s < 2 ^ 32) :
    UInt32.ofNat (tag s f p) ||| FREE_BLOCK = UInt32.ofNat (tag s true p) := by
  apply eq_ofNat_of_testBit (tag_lt hs hlt)
  intro i hi
  rw [UInt32.toNat_or, toNat_tag hs hlt, Nat.testBit_or, (bit_masks i hi).1, testBit_tag hs, testBit_tag hs]
  by_cases hzero : i = 0
  · simp [hzero]
  · simp [hzero]

theorem or_PREV_FREE (hs : s % 8 = 0) (hlt : s < 2 ^ 32) :
    UInt32.ofNat (tag s f p) ||| PREV_FREE = UInt32.ofNat (tag s f true) := by
  apply eq_ofNat_of_testBit (tag_lt hs hlt)
  intro i hi
  rw [UInt32.toNat_or, toNat_tag hs hlt, Nat.testBit_or, (bit_masks i hi).2.1, testBit_tag hs, testBit_tag hs]
  by_cases hone : i = 1
  · simp [hone]
  · simp [hone]

theorem and_not_FREE_BLOCK (hs : s % 8 = 0) (hlt : s < 2 ^ 32) :
    UInt32.ofNat (tag s f p) &&& ~~~FREE_BLOCK = UInt32.ofNat (tag s false p) := by
  apply eq_ofNat_of_testBit (tag_lt hs hlt)
  intro i hi
  rw [UInt32.toNat_and, toNat_tag hs hlt, Nat.testBit_and, (bit_masks i hi).2.2.2.1, testBit_tag hs, testBit_tag hs]
  by_cases hzero : i = 0
  · simp [hzero]
  · simp [hzero]

theorem and_not_PREV_FREE (hs : s % 8 = 0) (hlt : s < 2 ^ 32) :
    UInt32.ofNat (tag s f p) &&& ~~~PREV_FREE = UInt32.ofNat (tag s f false) := by
  apply eq_ofNat_of_testBit (tag_lt hs hlt)
  intro i hi
  rw [UInt32.toNat_and, toNat_tag hs hlt, Nat.testBit_and, (bit_masks i hi).2.2.2.2, testBit_tag hs, testBit_tag hs]
  by_cases hone : i = 1
  · simp [hone]
  · simp [hone]

/-- `size | (word & PREV_STATE)` -/
theorem or_PREV_STATE (hs : s % 8 = 0) (hlt : s < 2 ^ 32) (hs' : s' % 8 = 0) (hlt' : s' < 2 ^ 32) :
    UInt32.ofNat s ||| (UInt32.ofNat (tag s' f p) &&& PREV_STATE) = UInt32.ofNat (tag s false p) := by
  apply eq_ofNat_of_testBit (tag_lt hs hlt)
  intro i hi
  have hstate : PREV_STATE.toNat.testBit i = decide (i = 1) := (bit_masks i hi).2.1
  rw [UInt32.toNat_or, UInt32.toNat_and, toNat_tag hs' hlt', UInt32.toNat_ofNat', Nat.mod_eq_of_lt hlt, Nat.testBit_or,
    Nat.testBit_and, hstate, testBit_tag hs, testBit_tag hs']
  by_cases hzero : i = 0
  · simp [hzero, testBit_low hs (i := 0) (by decide)]
  · by_cases hone : i = 1
    · simp [hone, testBit_low hs (i := 1) (by decide)]
    · simp [hzero, hone]

end Tags

end epos.tlsf
