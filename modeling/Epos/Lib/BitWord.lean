import Mathlib.Algebra.Group.Nat.Defs
import Mathlib.Data.Nat.Find

namespace bits

/-- Bit `i` is the lowest one of `n`. -/
def Lowest (n i : Nat) : Prop := n.testBit i = true ∧ ∀ j < i, n.testBit j = false

theorem exists_lowest {n : Nat} (hn : n ≠ 0) : ∃ i, Lowest n i := by
  have hbit := Nat.exists_testBit_of_ne_zero hn
  exact ⟨Nat.find hbit, Nat.find_spec hbit, fun j hj => Bool.eq_false_iff.mpr (Nat.find_min hbit hj)⟩

theorem Lowest.unique {n i j : Nat} (hi : Lowest n i) (hj : Lowest n j) : i = j := by
  rcases Nat.lt_trichotomy i j with hlt | heq | hgt
  · exact absurd hi.1 (Bool.eq_false_iff.mp (hj.2 i hlt))
  · exact heq
  · exact absurd hj.1 (Bool.eq_false_iff.mp (hi.2 j hgt))

/-- Behind its lowest bit a number is even. -/
theorem Lowest.eq_mul {n i : Nat} (hlow : Lowest n i) : n = 2 ^ i * (n / 2 ^ i) := by
  have hzero : n % 2 ^ i = 0 := by
    apply Nat.eq_of_testBit_eq
    intro j
    rw [Nat.testBit_mod_two_pow, Nat.zero_testBit]
    by_cases hj : j < i
    · rw [hlow.2 j hj, Bool.and_false]
    · rw [decide_eq_false hj, Bool.false_and]
  have hdiv := Nat.div_add_mod n (2 ^ i)
  omega

/-- Taking away one turns the lowest bit off and leaves those above it. -/
theorem Lowest.testBit_pred {n i j : Nat} (hlow : Lowest n i) (hj : i ≤ j) :
    (n - 1).testBit j = (n.testBit j && decide (j ≠ i)) := by
  have hpos : 0 < 2 ^ i := Nat.two_pow_pos i
  have hmul := hlow.eq_mul
  have hodd := hlow.1
  generalize hy : n / 2 ^ i = y at hmul
  rw [hmul, Nat.testBit_two_pow_mul, Nat.sub_self, Nat.testBit_zero] at hodd
  have hodd' : y % 2 = 1 := by simpa using hodd
  have hpred : n - 1 = 2 ^ i * (y - 1) + (2 ^ i - 1) := by
    have hone : 2 ^ i * 1 ≤ 2 ^ i * y := Nat.mul_le_mul_left _ (by omega)
    rw [Nat.mul_one] at hone
    rw [hmul, Nat.mul_sub_one]
    omega
  have hbound : 2 ^ i - 1 < 2 ^ i := by omega
  rw [hpred, Nat.testBit_two_pow_mul_add _ hbound, hmul, Nat.testBit_two_pow_mul, if_neg (Nat.not_lt.mpr hj)]
  obtain hzero | hsucc := Nat.eq_zero_or_pos (j - i)
  · have heq : j = i := by omega
    rw [hzero, heq, Nat.testBit_zero, Nat.testBit_zero]
    simp
    omega
  · obtain ⟨k, hk⟩ := Nat.exists_eq_succ_of_ne_zero (Nat.ne_of_gt hsucc)
    have hhalf : (y - 1) / 2 = y / 2 := by omega
    have hne : j ≠ i := by omega
    rw [hk, Nat.testBit_succ, Nat.testBit_succ, hhalf]
    simp [hj, hne]

section Words

variable {x : UInt32}

theorem testBit_neg (hx : x ≠ 0) {i : Nat} (hi : i < 32) : (-x).toNat.testBit i = !(x.toNat - 1).testBit i := by
  have hlt := x.toNat_lt
  have hpos : x.toNat ≠ 0 := fun h => hx (UInt32.toNat_inj.mp h)
  have hneg : (-x).toNat = 2 ^ 32 - (x.toNat - 1 + 1) := by
    have hsize : UInt32.size = 2 ^ 32 := rfl
    rw [UInt32.toNat_neg, hsize]
    omega
  rw [hneg, Nat.testBit_two_pow_sub_succ (by omega), decide_eq_true hi, Bool.true_and]

/-- `x & -x` is the lowest bit of `x`. -/
theorem and_neg_toNat (hx : x ≠ 0) {i : Nat} (hlow : Lowest x.toNat i) : (x &&& -x).toNat = 2 ^ i := by
  apply Nat.eq_of_testBit_eq
  intro j
  rw [UInt32.toNat_and, Nat.testBit_and, Nat.testBit_two_pow]
  by_cases hj : j < 32
  · rw [testBit_neg hx hj]
    by_cases hlt : j < i
    · rw [hlow.2 j hlt, Bool.false_and, decide_eq_false (by omega)]
    · rw [hlow.testBit_pred (Nat.not_lt.mp hlt)]
      by_cases heq : j = i
      · rw [heq, hlow.1]
        simp
      · have hne : i ≠ j := fun h => heq h.symm
        cases x.toNat.testBit j <;> simp [heq, hne]
  · have hzero : x.toNat.testBit j = false :=
      Nat.testBit_lt_two_pow (Nat.lt_of_lt_of_le x.toNat_lt (Nat.pow_le_pow_right (by decide) (by omega)))
    have hne : i ≠ j := fun h => absurd hlow.1 (Bool.eq_false_iff.mp (h ▸ hzero))
    rw [hzero, Bool.false_and, decide_eq_false hne]

theorem lt_of_testBit {i : Nat} (hbit : x.toNat.testBit i = true) : i < 32 := by
  refine Nat.lt_of_not_le fun hge => ?_
  have hzero := Nat.testBit_lt_two_pow (Nat.lt_of_lt_of_le x.toNat_lt (Nat.pow_le_pow_right (by decide) hge))
  rw [hzero] at hbit
  cases hbit

theorem one_shiftLeft_toNat {k : UInt32} (hk : k.toNat < 32) : ((1 : UInt32) <<< k).toNat = 2 ^ k.toNat := by
  have hlt : 2 ^ k.toNat < 2 ^ 32 := Nat.pow_lt_pow_right (by decide) hk
  rw [UInt32.toNat_shiftLeft, UInt32.toNat_one, Nat.mod_eq_of_lt hk, Nat.one_shiftLeft, Nat.mod_eq_of_lt hlt]

theorem testBit_set {k : UInt32} (hk : k.toNat < 32) (i : Nat) :
    (x ||| (1 : UInt32) <<< k).toNat.testBit i = (x.toNat.testBit i || decide (k.toNat = i)) := by
  rw [UInt32.toNat_or, Nat.testBit_or, one_shiftLeft_toNat hk, Nat.testBit_two_pow]

theorem testBit_not {y : UInt32} {i : Nat} (hi : i < 32) : (~~~y).toNat.testBit i = !y.toNat.testBit i := by
  have hlt := y.toNat_lt
  have hsize : UInt32.size = 2 ^ 32 := rfl
  have hnot : (~~~y).toNat = 2 ^ 32 - (y.toNat + 1) := by
    rw [UInt32.toNat_not]
    omega
  rw [hnot, Nat.testBit_two_pow_sub_succ hlt, decide_eq_true hi, Bool.true_and]

theorem testBit_clear {k : UInt32} (hk : k.toNat < 32) (i : Nat) :
    (x &&& ~~~((1 : UInt32) <<< k)).toNat.testBit i = (x.toNat.testBit i && decide (k.toNat ≠ i)) := by
  rw [UInt32.toNat_and, Nat.testBit_and]
  by_cases hi : i < 32
  · rw [testBit_not hi, one_shiftLeft_toNat hk, Nat.testBit_two_pow, decide_not]
  · have hzero : x.toNat.testBit i = false :=
      Nat.testBit_lt_two_pow (Nat.lt_of_lt_of_le x.toNat_lt (Nat.pow_le_pow_right (by decide) (by omega)))
    rw [hzero, Bool.false_and, Bool.false_and]

/-- `~0 << k` has the bits from `k` on. -/
theorem testBit_from {k : UInt32} (hk : k.toNat < 32) (i : Nat) :
    (x &&& (~~~0 <<< k)).toNat.testBit i = (x.toNat.testBit i && decide (k.toNat ≤ i)) := by
  have hall : (~~~0 : UInt32).toNat = 2 ^ 32 - 1 := rfl
  rw [UInt32.toNat_and, Nat.testBit_and, UInt32.toNat_shiftLeft, Nat.mod_eq_of_lt hk, hall,
    Nat.testBit_mod_two_pow, Nat.testBit_shiftLeft, Nat.testBit_two_pow_sub_one]
  by_cases hi : i < 32
  · have hback : i - k.toNat < 32 := by omega
    simp [hi, hback]
  · have hzero : x.toNat.testBit i = false :=
      Nat.testBit_lt_two_pow (Nat.lt_of_lt_of_le x.toNat_lt (Nat.pow_le_pow_right (by decide) (by omega)))
    rw [hzero, Bool.false_and, Bool.false_and]

end Words

end bits
