import Epos.Heap.Defs
import Epos.Lib.BitWord
import Epos.Lib.WordAt

open bits bytes

namespace epos.tlsf

theorem table_eq : ∀ n < 256, n ≠ 0 → table.getD n 0 = UInt32.ofNat n.log2 := by decide +kernel

theorem table_shift_spec {x : UInt32} (hx : x ≠ 0) :
    ∃ a, (table_shift x).toNat = a ∧ a < 32 ∧ x.toNat / 2 ^ a ≠ 0 ∧ x.toNat / 2 ^ a < 256 := by
  have hlt := x.toNat_lt
  have hne : x.toNat ≠ 0 := fun h => hx (UInt32.toNat_inj.mp h)
  have hff : (0xff : UInt32).toNat = 0xff := rfl
  have hffff : (0xffff : UInt32).toNat = 0xffff := rfl
  have hffffff : (0xffffff : UInt32).toNat = 0xffffff := rfl
  unfold table_shift
  simp only [UInt32.le_iff_toNat_le, hff, hffff, hffffff]
  split
  · split
    · exact ⟨0, rfl, by decide, by omega, by omega⟩
    · exact ⟨8, rfl, by decide, by omega, by omega⟩
  · split
    · exact ⟨16, rfl, by decide, by omega, by omega⟩
    · exact ⟨24, rfl, by decide, by omega, by omega⟩

/-- `table[x >> a] + a` is the position of the highest bit. -/
theorem table_log2 {x : UInt32} (hx : x ≠ 0) :
    (table.getD (x >>> table_shift x).toNat 0 + table_shift x).toNat = x.toNat.log2 := by
  obtain ⟨a, ha, hsmall, hpos, hbyte⟩ := table_shift_spec hx
  have hshift : (x >>> table_shift x).toNat = x.toNat / 2 ^ a := by
    rw [UInt32.toNat_shiftRight, ha, Nat.mod_eq_of_lt hsmall, Nat.shiftRight_eq_div_pow]
  have hlog : (x.toNat / 2 ^ a).log2 + a = x.toNat.log2 := by
    have hne : x.toNat ≠ 0 := fun h => hx (UInt32.toNat_inj.mp h)
    symm
    rw [Nat.log2_eq_iff hne]
    have hlow := (Nat.log2_eq_iff hpos).mp rfl
    generalize (x.toNat / 2 ^ a).log2 = e at hlow
    have hpow : 2 ^ (e + a + 1) = 2 ^ (e + 1) * 2 ^ a := by
      rw [← Nat.pow_add]
      congr 1
      omega
    rw [Nat.pow_add, hpow]
    constructor
    · exact Nat.mul_le_of_le_div _ _ _ hlow.1
    · exact (Nat.div_lt_iff_lt_mul (Nat.two_pow_pos a)).mp hlow.2
  have hlt : x.toNat.log2 < 32 := by
    have hne : x.toNat ≠ 0 := fun h => hx (UInt32.toNat_inj.mp h)
    rw [Nat.log2_lt hne]
    exact x.toNat_lt
  rw [hshift, table_eq _ hbyte hpos, UInt32.toNat_add, UInt32.toNat_ofNat', ha]
  omega

theorem ms_bit_toNat {i : UInt32} (hi : i ≠ 0) : (ms_bit i).toNat = i.toNat.log2 := table_log2 hi

theorem ls_bit_toNat {i : UInt32} {j : Nat} (hlow : Lowest i.toNat j) : (ls_bit i).toNat = j := by
  have hi : i ≠ 0 := by
    rintro rfl
    exact absurd hlow.1 (by rw [UInt32.toNat_zero, Nat.zero_testBit]; decide)
  have hbit := and_neg_toNat hi hlow
  have hne : i &&& -i ≠ 0 := by
    intro h
    have hpos := Nat.two_pow_pos j
    rw [h, UInt32.toNat_zero] at hbit
    omega
  rw [ls_bit, table_log2 hne, hbit, Nat.log2_two_pow]

theorem ls_bit_zero : ls_bit 0 = -1 := by decide

/-! The lists are numbered row by row: list `c` is at row `c / 32` and column `c % 32`. -/

/-- The list for blocks of `n` bytes. -/
def class_of (n : Nat) : Nat :=
  if n < 128 then n / 4 else 32 * (n.log2 - 6) + (n / 2 ^ (n.log2 - 5) - 32)

/-- The least size of a block in list `c`. -/
def lower (c : Nat) : Nat := if c < 32 then 4 * c else (32 + c % 32) * 2 ^ (c / 32 + 1)

/-- What a request for `n` bytes is rounded up to, so that every block of its list fits. -/
def fit (n : Nat) : Nat :=
  if n < 128 then n else (n + (2 ^ (n.log2 - 5) - 1)) / 2 ^ (n.log2 - 5) * 2 ^ (n.log2 - 5)

theorem log2_ge {n : Nat} (hn : 128 ≤ n) : 7 ≤ n.log2 := (Nat.le_log2 (by omega)).mpr hn

/-- The leading six bits of a size. -/
theorem leading {n k : Nat} (hk : 5 ≤ k) (hlow : 2 ^ k ≤ n) (hhigh : n < 2 ^ (k + 1)) :
    32 ≤ n / 2 ^ (k - 5) ∧ n / 2 ^ (k - 5) < 64 := by
  have hpos : 0 < 2 ^ (k - 5) := Nat.two_pow_pos _
  have hpow : 2 ^ k = 32 * 2 ^ (k - 5) := by
    rw [Nat.mul_comm]
    exact (Nat.pow_sub_mul_pow 2 hk).symm
  rw [Nat.pow_succ] at hhigh
  constructor
  · rw [Nat.le_div_iff_mul_le hpos]
    omega
  · rw [Nat.div_lt_iff_lt_mul hpos]
    omega

/-- A block is in list `c` or a later one just when it has the least size of that list. -/
theorem le_class_of_iff {c n : Nat} : c ≤ class_of n ↔ lower c ≤ n := by
  unfold class_of lower
  by_cases hn : n < 128
  · rw [if_pos hn]
    split
    · omega
    · next hc =>
      have hpow : 2 ^ 2 ≤ 2 ^ (c / 32 + 1) := Nat.pow_le_pow_right (by decide) (by omega)
      have hmul := Nat.mul_le_mul (Nat.le_add_right 32 (c % 32)) hpow
      constructor <;> intro h <;> omega
  · have hge := Nat.not_lt.mp hn
    have hlog := log2_ge hge
    obtain ⟨hlow, hhigh⟩ := (Nat.log2_eq_iff (by omega : n ≠ 0)).mp rfl
    obtain ⟨h32, h64⟩ := leading (by omega) hlow hhigh
    rw [if_neg hn]
    generalize n.log2 = k at *
    split
    · constructor <;> intro _ <;> omega
    · next hc =>
      have hpos : 0 < 2 ^ (k - 5) := Nat.two_pow_pos _
      rcases Nat.lt_trichotomy (c / 32) (k - 6) with hlt | heq | hgt
      · -- a lower row
        have hpow : 2 ^ (c / 32 + 1) ≤ 2 ^ (k - 6) := Nat.pow_le_pow_right (by decide) (by omega)
        have hmul := Nat.mul_le_mul (show 32 + c % 32 ≤ 64 by omega) hpow
        have hk : 64 * 2 ^ (k - 6) = 2 ^ k := by
          rw [Nat.mul_comm]
          exact Nat.pow_sub_mul_pow 2 (show 6 ≤ k by omega)
        constructor <;> intro _ <;> omega
      · -- the same row
        have hexp : c / 32 + 1 = k - 5 := by omega
        rw [hexp, ← Nat.le_div_iff_mul_le hpos]
        constructor <;> intro _ <;> omega
      · -- a higher row
        have hpow : 2 ^ (k - 4) ≤ 2 ^ (c / 32 + 1) := Nat.pow_le_pow_right (by decide) (by omega)
        have hmul := Nat.mul_le_mul (Nat.le_add_right 32 (c % 32)) hpow
        have hk : 32 * 2 ^ (k - 4) = 2 ^ (k + 1) := by
          rw [Nat.mul_comm]
          exact Nat.pow_sub_mul_pow 2 (show 5 ≤ k + 1 by omega)
        constructor <;> intro _ <;> omega

theorem class_of_mono {n m : Nat} (hle : n ≤ m) : class_of n ≤ class_of m :=
  le_class_of_iff.mpr (Nat.le_trans (le_class_of_iff.mp (Nat.le_refl _)) hle)

theorem log2_lt_32 (r : UInt32) (hr : r ≠ 0) : r.toNat.log2 < 32 := by
  have hne : r.toNat ≠ 0 := fun h => hr (UInt32.toNat_inj.mp h)
  rw [Nat.log2_lt hne]
  exact r.toNat_lt

/-- The row and the column that the leading bits of a large size give. -/
theorem large_indices {r : UInt32} (hr : 128 ≤ r.toNat) :
    ms_bit r - FLI_OFFSET = UInt32.ofNat (class_of r.toNat / 32) ∧
      (r >>> (ms_bit r - MAX_LOG2_SLI)) - MAX_SLI = UInt32.ofNat (class_of r.toNat % 32) := by
  have hne : r ≠ 0 := by
    rintro rfl
    exact absurd hr (by decide)
  have hlog := log2_ge hr
  have hbit := ms_bit_toNat hne
  have hlt := log2_lt_32 r hne
  obtain ⟨hlow, hhigh⟩ := (Nat.log2_eq_iff (by omega : r.toNat ≠ 0)).mp rfl
  obtain ⟨h32, h64⟩ := leading (by omega) hlow hhigh
  have hsix : FLI_OFFSET.toNat = 6 := rfl
  have hfive : MAX_LOG2_SLI.toNat = 5 := rfl
  have hrows : MAX_SLI.toNat = 32 := rfl
  have hclass : class_of r.toNat = 32 * (r.toNat.log2 - 6) + (r.toNat / 2 ^ (r.toNat.log2 - 5) - 32) :=
    if_neg (Nat.not_lt.mpr hr)
  have hshift : (ms_bit r - MAX_LOG2_SLI).toNat = r.toNat.log2 - 5 := by
    rw [UInt32.toNat_sub, hbit, hfive]
    omega
  have hlead : (r >>> (ms_bit r - MAX_LOG2_SLI)).toNat = r.toNat / 2 ^ (r.toNat.log2 - 5) := by
    rw [UInt32.toNat_shiftRight, hshift, Nat.mod_eq_of_lt (by omega), Nat.shiftRight_eq_div_pow]
  constructor
  · rw [← UInt32.toNat_inj, UInt32.toNat_sub, hbit, hsix, UInt32.toNat_ofNat', hclass]
    omega
  · rw [← UInt32.toNat_inj, UInt32.toNat_sub, hlead, hrows, UInt32.toNat_ofNat', hclass]
    omega

theorem small_indices {r : UInt32} (hr : r.toNat < 128) :
    (0 : UInt32) = UInt32.ofNat (class_of r.toNat / 32) ∧
      r / (SMALL_BLOCK / MAX_SLI) = UInt32.ofNat (class_of r.toNat % 32) := by
  have hclass : class_of r.toNat = r.toNat / 4 := if_pos hr
  have hwidth : (SMALL_BLOCK / MAX_SLI).toNat = 4 := rfl
  constructor
  · rw [← UInt32.toNat_inj, UInt32.toNat_ofNat', hclass, UInt32.toNat_zero]
    omega
  · rw [← UInt32.toNat_inj, UInt32.toNat_div, hwidth, UInt32.toNat_ofNat', hclass]
    omega

theorem small_iff (r : UInt32) : r < SMALL_BLOCK ↔ r.toNat < 128 := UInt32.lt_iff_toNat_lt

theorem MAPPING_INSERT_eq (r : UInt32) :
    MAPPING_INSERT r = (UInt32.ofNat (class_of r.toNat / 32), UInt32.ofNat (class_of r.toNat % 32)) := by
  unfold MAPPING_INSERT
  simp only [small_iff]
  split
  · next hr => rw [← (small_indices hr).1, ← (small_indices hr).2]
  · next hr =>
    rw [← (large_indices (Nat.not_lt.mp hr)).1, ← (large_indices (Nat.not_lt.mp hr)).2]

section Fit

variable {n : Nat}

/-- What is added to a size before it is cut to its leading bits. -/
theorem fit_step (hn : 128 ≤ n) :
    0 < 2 ^ (n.log2 - 5) ∧ 32 * 2 ^ (n.log2 - 5) ≤ n ∧ n < 64 * 2 ^ (n.log2 - 5) := by
  have hlog := log2_ge hn
  obtain ⟨hlow, hhigh⟩ := (Nat.log2_eq_iff (by omega : n ≠ 0)).mp rfl
  obtain ⟨h32, h64⟩ := leading (by omega) hlow hhigh
  have hpos := Nat.two_pow_pos (n.log2 - 5)
  exact ⟨hpos, (Nat.le_div_iff_mul_le hpos).mp h32, (Nat.div_lt_iff_lt_mul hpos).mp h64⟩

theorem le_fit (n : Nat) : n ≤ fit n := by
  unfold fit
  split
  · exact Nat.le_refl n
  · next hn =>
    obtain ⟨hpos, -, -⟩ := fit_step (Nat.not_lt.mp hn)
    have hlt := Nat.lt_div_mul_add (a := n + (2 ^ (n.log2 - 5) - 1)) hpos
    omega

theorem fit_lt (hn : n ≤ 0xFC000000) : fit n < 2 ^ 32 := by
  unfold fit
  split
  · omega
  · next hlarge =>
    have hlog : n.log2 < 32 := (Nat.log2_lt (by omega)).mpr (by omega)
    have hpow : 2 ^ (n.log2 - 5) ≤ 2 ^ 26 := Nat.pow_le_pow_right (by decide) (by omega)
    have hle := Nat.div_mul_le_self (n + (2 ^ (n.log2 - 5) - 1)) (2 ^ (n.log2 - 5))
    omega

/-- The list of a size with the leading bits `q`. -/
theorem class_of_leading {e q : Nat} (he : 2 ≤ e) (h32 : 32 ≤ q) (h64 : q < 64) (hlow : q * 2 ^ e ≤ n)
    (hhigh : n < (q + 1) * 2 ^ e) : class_of n = 32 * (e - 1) + (q - 32) := by
  have hpos : 0 < 2 ^ e := Nat.two_pow_pos e
  have hmin : 2 ^ 2 ≤ 2 ^ e := Nat.pow_le_pow_right (by decide) he
  have hfirst := Nat.mul_le_mul_right (2 ^ e) h32
  have hlast := Nat.mul_le_mul_right (2 ^ e) (show q + 1 ≤ 64 by omega)
  have hlog : n.log2 = e + 5 := by
    have hpow : 2 ^ (e + 5) = 32 * 2 ^ e := by rw [Nat.pow_add, Nat.mul_comm]
    have hpow' : 2 ^ (e + 5 + 1) = 64 * 2 ^ e := by rw [Nat.add_assoc, Nat.pow_add, Nat.mul_comm]
    rw [Nat.log2_eq_iff (by omega), hpow, hpow']
    omega
  have hlead : n / 2 ^ e = q := Nat.div_eq_of_lt_le hlow hhigh
  rw [class_of, if_neg (by omega), hlog, Nat.add_sub_cancel, hlead]
  omega

theorem lower_leading {e q : Nat} (he : 2 ≤ e) (h32 : 32 ≤ q) (h64 : q < 64) :
    lower (32 * (e - 1) + (q - 32)) = q * 2 ^ e := by
  have hcol : 32 + (32 * (e - 1) + (q - 32)) % 32 = q := by omega
  have hrow : (32 * (e - 1) + (q - 32)) / 32 + 1 = e := by omega
  rw [lower, if_neg (by omega), hcol, hrow]

/-- The leading bits of a rounded size, and of the sum that is cut to it. -/
theorem fit_leading (hn : 128 ≤ n) :
    ∃ e q, 2 ≤ e ∧ 32 ≤ q ∧ q < 64 ∧ fit n = q * 2 ^ e ∧ q * 2 ^ e ≤ n + (2 ^ (n.log2 - 5) - 1) ∧
      n + (2 ^ (n.log2 - 5) - 1) < (q + 1) * 2 ^ e := by
  obtain ⟨hpos, hlow, hhigh⟩ := fit_step hn
  have hlog := log2_ge hn
  have hfit : fit n = (n + (2 ^ (n.log2 - 5) - 1)) / 2 ^ (n.log2 - 5) * 2 ^ (n.log2 - 5) := if_neg (Nat.not_lt.mpr hn)
  generalize he : n.log2 - 5 = e at *
  generalize hm : n + (2 ^ e - 1) = m at *
  have hle := Nat.div_mul_le_self m (2 ^ e)
  have hlt := Nat.lt_div_mul_add (a := m) hpos
  have h32 : 32 ≤ m / 2 ^ e := (Nat.le_div_iff_mul_le hpos).mpr (by omega)
  have h65 : m / 2 ^ e < 65 := (Nat.div_lt_iff_lt_mul hpos).mpr (by omega)
  generalize m / 2 ^ e = q at *
  by_cases hq : q < 64
  · refine ⟨e, q, by omega, h32, hq, hfit, hle, ?_⟩
    rw [Nat.succ_mul]
    exact hlt
  · -- the sum has gone up to the next power of two
    obtain rfl : q = 64 := by omega
    have hdouble : 32 * 2 ^ (e + 1) = 64 * 2 ^ e := by
      rw [Nat.pow_succ]
      omega
    refine ⟨e + 1, 32, by omega, Nat.le_refl _, by decide, by omega, by omega, ?_⟩
    rw [Nat.pow_succ]
    omega

/-- The rounded size is the least one of its list. -/
theorem lower_fit (hn : n % 4 = 0) : lower (class_of (fit n)) = fit n := by
  by_cases hsmall : n < 128
  · have hfit : fit n = n := if_pos hsmall
    rw [hfit, class_of, if_pos hsmall, lower, if_pos (by omega)]
    omega
  · obtain ⟨e, q, he, h32, h64, hfit, -, -⟩ := fit_leading (Nat.not_lt.mp hsmall)
    have hpos : 0 < 2 ^ e := Nat.two_pow_pos e
    have hlt : q * 2 ^ e < (q + 1) * 2 ^ e := Nat.mul_lt_mul_of_pos_right (Nat.lt_succ_self q) hpos
    rw [hfit, class_of_leading he h32 h64 (Nat.le_refl _) hlt, lower_leading he h32 h64]

theorem fit_mod (hn : n % 8 = 0) : fit n % 8 = 0 := by
  unfold fit
  split
  · exact hn
  · next hlarge =>
    have hlog := log2_ge (Nat.not_lt.mp hlarge)
    obtain heq | hgt := Nat.eq_or_lt_of_le (show 2 ≤ n.log2 - 5 by omega)
    · rw [← heq]
      omega
    · have hdvd : 2 ^ 3 ∣ 2 ^ (n.log2 - 5) := Nat.pow_dvd_pow 2 hgt
      exact Nat.mod_eq_zero_of_dvd (Nat.dvd_trans hdvd (Nat.dvd_mul_left _ _))

/-- A block has room for a request in just the lists from that of the rounded size on. -/
theorem class_of_fit_le_iff (hn : n % 4 = 0) (m : Nat) : class_of (fit n) ≤ class_of m ↔ fit n ≤ m := by
  rw [le_class_of_iff, lower_fit hn]

end Fit

theorem MAPPING_SEARCH_eq {r : UInt32} (hr : r.toNat ≤ 0xFC000000) :
    MAPPING_SEARCH r = (UInt32.ofNat (fit r.toNat), UInt32.ofNat (class_of (fit r.toNat) / 32),
      UInt32.ofNat (class_of (fit r.toNat) % 32)) := by
  unfold MAPPING_SEARCH
  simp only [small_iff]
  split
  · next hsmall =>
    have hfit : fit r.toNat = r.toNat := if_pos hsmall
    rw [hfit, UInt32.ofNat_toNat, ← (small_indices hsmall).1, ← (small_indices hsmall).2]
  · next hlarge =>
    have hge := Nat.not_lt.mp hlarge
    have hne : r ≠ 0 := by
      rintro rfl
      exact absurd hge (by decide)
    have hlog := log2_ge hge
    have hlt := log2_lt_32 r hne
    obtain ⟨e, q, he, h32, h64, hfit, hlow, hhigh⟩ := fit_leading hge
    obtain ⟨hpos, hstep, -⟩ := fit_step hge
    have hfive : MAX_LOG2_SLI.toNat = 5 := rfl
    have hexp : (ms_bit r - MAX_LOG2_SLI).toNat = r.toNat.log2 - 5 := by
      rw [UInt32.toNat_sub, ms_bit_toNat hne, hfive]
      omega
    have hpow : 2 ^ (r.toNat.log2 - 5) ≤ 2 ^ 26 := Nat.pow_le_pow_right (by decide) (by omega)
    have ht : ((1 : UInt32) <<< (ms_bit r - MAX_LOG2_SLI) - 1).toNat = 2 ^ (r.toNat.log2 - 5) - 1 := by
      rw [UInt32.toNat_sub, one_shiftLeft_toNat (by omega), hexp, UInt32.toNat_one]
      omega
    have hsum : (r + ((1 : UInt32) <<< (ms_bit r - MAX_LOG2_SLI) - 1)).toNat =
        r.toNat + (2 ^ (r.toNat.log2 - 5) - 1) := by
      rw [UInt32.toNat_add, ht]
      omega
    have hmask : (~~~((1 : UInt32) <<< (ms_bit r - MAX_LOG2_SLI) - 1)).toNat =
        2 ^ 32 - 2 ^ (r.toNat.log2 - 5) := by
      have hsize : UInt32.size = 2 ^ 32 := rfl
      rw [UInt32.toNat_not, ht, hsize]
      omega
    have hcut : (r + ((1 : UInt32) <<< (ms_bit r - MAX_LOG2_SLI) - 1)) &&&
        ~~~((1 : UInt32) <<< (ms_bit r - MAX_LOG2_SLI) - 1) = UInt32.ofNat (fit r.toNat) := by
      have hfit' : fit r.toNat = _ := if_neg hlarge
      rw [← UInt32.ofNat_toNat (x := _ &&& _), UInt32.toNat_and, hmask, hsum,
        and_high_bits (by omega) (by omega), hfit']
    have hclass : class_of (fit r.toNat) = class_of (r.toNat + (2 ^ (r.toNat.log2 - 5) - 1)) := by
      have hpos : 0 < 2 ^ e := Nat.two_pow_pos e
      have hlt : q * 2 ^ e < (q + 1) * 2 ^ e := Nat.mul_lt_mul_of_pos_right (Nat.lt_succ_self q) hpos
      rw [hfit, class_of_leading he h32 h64 (Nat.le_refl _) hlt, class_of_leading he h32 h64 hlow hhigh]
    obtain ⟨hrow, hcol⟩ := large_indices (r := r + ((1 : UInt32) <<< (ms_bit r - MAX_LOG2_SLI) - 1)) (by omega)
    rw [hsum] at hrow hcol
    rw [hcut, hrow, hcol, hclass]

end epos.tlsf
