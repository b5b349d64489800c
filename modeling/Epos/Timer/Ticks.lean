import Epos.Timer.Defs
import Mathlib.Tactic.IntervalCases

namespace epos.timer

/-- All the ticks asked for. -/
def total (calls : List UInt32) : Nat := (calls.map UInt32.toNat).sum

/-- The ticks of NUM/DENOM seconds by the comment in `do_sleep`, rounding down. -/
def ticks_of (num denom : Nat) : Nat := num * HZ.toNat / denom

section Totals

theorem HZ_toNat : HZ.toNat = 100 := rfl

theorem total_append (calls rest : List UInt32) : total (calls ++ rest) = total calls + total rest := by
  rw [total, List.map_append, List.sum_append]
  rfl

/-- `do_sleep` asks for the wrapped product, whatever `denom` is. -/
theorem do_sleep_total (num denom : UInt32) : total (do_sleep num denom) = num.toNat * 100 % 2 ^ 32 := by
  have hticks : (num * HZ).toNat = num.toNat * 100 % 2 ^ 32 := by
    rw [UInt32.toNat_mul, HZ_toNat]
  rw [do_sleep, ← hticks]
  split
  · exact Nat.add_zero _
  · next hnone =>
    have hle := UInt32.le_iff_toNat_le.mp (UInt32.not_lt.mp hnone)
    exact (Nat.le_zero.mp hle).symm

theorem sys_sleep_total (seconds : UInt32) : total (sys_sleep seconds) = seconds.toNat * 100 % 2 ^ 32 :=
  do_sleep_total seconds 1

/-- A part of the request that is not positive asks for nothing. -/
theorem part_total {part : Int32} (hpart : 0 ≤ part) (denom : UInt32) :
    total (if part > 0 then do_sleep part.toUInt32 denom else []) = part.toInt.toNat * 100 % 2 ^ 32 := by
  split
  · have hnat : part.toUInt32.toNat = part.toInt.toNat := Int32.toNat_toUInt32_of_le hpart
    rw [do_sleep_total, hnat]
  · next hnone =>
    have hzero : part = 0 := Int32.le_antisymm (Int32.not_lt.mp hnone) hpart
    rw [hzero]
    rfl

theorem toInt_toNat_inj {x y : Int32} (hx : 0 ≤ x) (hy : 0 ≤ y) : x.toInt.toNat = y.toInt.toNat ↔ x = y := by
  have hx' := Int32.le_iff_toInt_le.mp hx
  have hy' := Int32.le_iff_toInt_le.mp hy
  rw [← Int32.toInt_inj]
  rw [Int32.toInt_zero] at hx' hy'
  omega

theorem sys_nanosleep_total {rqtp : timespec} (hsec : 0 ≤ rqtp.tv_sec) (hnsec : 0 ≤ rqtp.tv_nsec) :
    total (sys_nanosleep rqtp) =
      rqtp.tv_sec.toInt.toNat * 100 % 2 ^ 32 + rqtp.tv_nsec.toInt.toNat * 100 % 2 ^ 32 := by
  rw [sys_nanosleep, total_append, part_total hsec, part_total hnsec]

end Totals

/-- The wrapped product of a number of nanoseconds is the documented number of ticks for
four of them. -/
theorem nanoseconds_wrap_iff {n : Nat} (hn : n < 1000000000) :
    n * 100 % 2 ^ 32 = n * 100 / 1000000000 ↔
      n = 0 ∨ n = 42949673 ∨ n = 85899346 ∨ n = 128849019 := by
  constructor
  · intro heq
    have hwraps : n * 100 / 2 ^ 32 < 24 := by omega
    have hsplit := Nat.div_add_mod (n * 100) (2 ^ 32)
    rw [heq] at hsplit
    generalize n * 100 / 2 ^ 32 = k at hwraps hsplit
    interval_cases k <;> omega
  · rintro (rfl | rfl | rfl | rfl) <;> rfl

/-- Without the division `do_sleep` is right for whole seconds, or where a wrapped product
happens to be the quotient. -/
theorem do_sleep_ticks_iff (num denom : UInt32) :
    total (do_sleep num denom) = ticks_of num.toNat denom.toNat ↔
      num.toNat * 100 < 2 ^ 32 ∧ (num = 0 ∨ denom = 1) ∨
      2 ^ 32 ≤ num.toNat * 100 ∧ num.toNat * 100 % 2 ^ 32 = num.toNat * 100 / denom.toNat := by
  rw [do_sleep_total, ticks_of, HZ_toNat]
  by_cases hfits : num.toNat * 100 < 2 ^ 32
  · rw [Nat.mod_eq_of_lt hfits, eq_comm, Nat.div_eq_self, ← UInt32.toNat_inj, ← UInt32.toNat_inj]
    rw [UInt32.toNat_zero, UInt32.toNat_one]
    omega
  · have hge := Nat.not_lt.mp hfits
    simp only [hfits, hge, false_and, true_and, false_or]

/-- The sleeps ask for the documented ticks just when the ticks of the seconds fit into 32
bits and those of the nanoseconds, which are not divided, are right by accident. -/
theorem sleep_ticks_iff (num denom seconds : UInt32) (rqtp : timespec)
    (hsec : 0 ≤ rqtp.tv_sec) (hnsec : 0 ≤ rqtp.tv_nsec) (hlt : rqtp.tv_nsec < 1000000000) :
    (total (do_sleep num denom) = ticks_of num.toNat denom.toNat ↔
      num.toNat * 100 < 2 ^ 32 ∧ (num = 0 ∨ denom = 1) ∨
      2 ^ 32 ≤ num.toNat * 100 ∧ num.toNat * 100 % 2 ^ 32 = num.toNat * 100 / denom.toNat) ∧
    (total (sys_sleep seconds) = ticks_of seconds.toNat 1 ↔ seconds.toNat * 100 < 2 ^ 32) ∧
    (total (sys_nanosleep rqtp) =
        ticks_of rqtp.tv_sec.toInt.toNat 1 + ticks_of rqtp.tv_nsec.toInt.toNat 1000000000 ↔
      rqtp.tv_sec.toInt.toNat * 100 < 2 ^ 32 ∧
        (rqtp.tv_nsec = 0 ∨ rqtp.tv_nsec = 42949673 ∨ rqtp.tv_nsec = 85899346 ∨
          rqtp.tv_nsec = 128849019)) := by
  refine ⟨do_sleep_ticks_iff num denom, ?_, ?_⟩
  · rw [sys_sleep_total, ticks_of, HZ_toNat, Nat.div_one]
    omega
  · have hnsec' := Int32.le_iff_toInt_le.mp hnsec
    have hlt' := Int32.lt_iff_toInt_lt.mp hlt
    have hzero : (0 : Int32).toInt = 0 := rfl
    have hbillion : (1000000000 : Int32).toInt = 1000000000 := rfl
    have hn : rqtp.tv_nsec.toInt.toNat < 1000000000 := by omega
    have hvalues : (rqtp.tv_nsec = 0 ∨ rqtp.tv_nsec = 42949673 ∨ rqtp.tv_nsec = 85899346 ∨
        rqtp.tv_nsec = 128849019) ↔ rqtp.tv_nsec.toInt.toNat * 100 % 2 ^ 32 =
          rqtp.tv_nsec.toInt.toNat * 100 / 1000000000 := by
      rw [nanoseconds_wrap_iff hn, ← toInt_toNat_inj hnsec (by decide), ← toInt_toNat_inj hnsec (by decide),
        ← toInt_toNat_inj hnsec (by decide), ← toInt_toNat_inj hnsec (by decide)]
      rfl
    rw [hvalues, sys_nanosleep_total hsec hnsec, ticks_of, ticks_of, HZ_toNat, Nat.div_one]
    omega

theorem sleep_ticks_whole_seconds :
    (total (do_sleep 3 1) = ticks_of (3 : UInt32).toNat (1 : UInt32).toNat ↔
      (3 : UInt32).toNat * 100 < 2 ^ 32 ∧ ((3 : UInt32) = 0 ∨ (1 : UInt32) = 1) ∨
      2 ^ 32 ≤ (3 : UInt32).toNat * 100 ∧
        (3 : UInt32).toNat * 100 % 2 ^ 32 = (3 : UInt32).toNat * 100 / (1 : UInt32).toNat) ∧
    (total (sys_sleep 3) = ticks_of (3 : UInt32).toNat 1 ↔ (3 : UInt32).toNat * 100 < 2 ^ 32) ∧
    (total (sys_nanosleep ⟨3, 0⟩) =
        ticks_of (3 : Int32).toInt.toNat 1 + ticks_of (0 : Int32).toInt.toNat 1000000000 ↔
      (3 : Int32).toInt.toNat * 100 < 2 ^ 32 ∧
        ((0 : Int32) = 0 ∨ (0 : Int32) = 42949673 ∨ (0 : Int32) = 85899346 ∨ (0 : Int32) = 128849019)) :=
  sleep_ticks_iff 3 1 3 ⟨3, 0⟩ (by decide) (by decide) (by decide)

/-- Half a second is 50 ticks; `sys_nanosleep` asks for 2755359744. -/
theorem half_second_ticks :
    total (sys_nanosleep ⟨0, 500000000⟩) = 2755359744 ∧ ticks_of 0 1 + ticks_of 500000000 1000000000 = 50 := by
  decide

end epos.timer
