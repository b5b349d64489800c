import Epos.Cpu
import Epos.Timer.Defs

open counters

namespace epos.timer

/-- The ticks keep advancing, and a `busy_wait` that starts right after a tick sees the next
one just if it has `N` loops or more. -/
structure Ticking (g_timer_ticks : Nat → UInt32) (N : Nat) : Prop where
  advances : ∀ now, ∃ later ≥ now, g_timer_ticks later ≠ g_timer_ticks now
  -- the tick comes between `t` and `t + 1`; the next number is that of `tmp = g_timer_ticks`
  sees : ∀ t, g_timer_ticks t ≠ g_timer_ticks (t + 1) → ∀ loops : UInt32,
    g_timer_ticks (busy_wait loops.toNat (t + 3)) ≠ g_timer_ticks (t + 2) ↔ N ≤ loops.toNat

section Words

variable {x y : UInt32} {k : Nat}

theorem toNat_double (x : UInt32) : (x <<< 1).toNat = x.toNat * 2 % 2 ^ 32 := by
  rw [UInt32.toNat_shiftLeft, Nat.shiftLeft_eq]
  rfl

theorem toNat_half (x : UInt32) : (x >>> 1).toNat = x.toNat / 2 := by
  rw [UInt32.toNat_shiftRight, Nat.shiftRight_eq_div_pow]
  rfl

/-- A bit that is set and cleared again leaves the word as it was. -/
theorem or_and_not (hx : x.toNat % 2 ^ (k + 1) = 0) (hy : y.toNat = 2 ^ k) : (x ||| y) &&& ~~~y = x := by
  have hclear : x.toNat.testBit k = false := by
    have hmod := Nat.testBit_mod_two_pow x.toNat (k + 1) k
    rw [hx, Nat.zero_testBit] at hmod
    simpa using hmod.symm
  apply UInt32.toBitVec_inj.mp
  apply BitVec.eq_of_getLsbD_eq
  intro i hi
  have hbit : y.toBitVec.getLsbD i = decide (k = i) := by
    change y.toNat.testBit i = _
    rw [hy, Nat.testBit_two_pow]
  have hword : x.toBitVec.getLsbD i = x.toNat.testBit i := rfl
  simp only [UInt32.toBitVec_and, UInt32.toBitVec_or, UInt32.toBitVec_not, BitVec.getLsbD_and, BitVec.getLsbD_or,
    BitVec.getLsbD_not, hbit, hword, hi]
  by_cases hik : k = i
  · subst hik
    simp [hclear]
  · simp [hik]

end Words

section Loops

variable {g_timer_ticks : Nat → UInt32} {N : Nat}

/-- The wait for the start of a tick ends right after one. -/
theorem wait_tick_ends (h : Ticking g_timer_ticks N) (now : Nat) :
    ∃ t, g_timer_ticks t ≠ g_timer_ticks (t + 1) ∧
      Ends (fun fuel => wait_tick g_timer_ticks (g_timer_ticks now) fuel (now + 1)) (t + 2) := by
  obtain ⟨later, hle, hlater⟩ := h.advances now
  -- from any number on up to which nothing has changed
  have hfrom : ∀ d last, last + d = later → g_timer_ticks last = g_timer_ticks now →
      ∃ t, g_timer_ticks t ≠ g_timer_ticks (t + 1) ∧
        Ends (fun fuel => wait_tick g_timer_ticks (g_timer_ticks now) fuel (last + 1)) (t + 2) := by
    intro d
    induction d with
    | zero =>
      intro last hlast hsame
      rw [Nat.add_zero] at hlast
      exact absurd (hlast ▸ hsame) hlater
    | succ d ih =>
      intro last hlast hsame
      by_cases hnext : g_timer_ticks now = g_timer_ticks (last + 1)
      · obtain ⟨t, htick, hends⟩ := ih (last + 1) (by omega) hnext.symm
        refine ⟨t, htick, hends.of_succ fun fuel => ?_⟩
        rw [wait_tick, if_pos hnext]
      · refine ⟨last, hsame ▸ hnext, (Ends.of_eq fun _ => rfl).of_succ fun fuel => ?_⟩
        rw [wait_tick, if_neg hnext]
  obtain ⟨d, hd⟩ := Nat.exists_eq_add_of_le hle
  exact hfrom d now hd.symm rfl

/-- Loops are timed right after a tick. -/
theorem time_loops_ends (h : Ticking g_timer_ticks N) (loops_per_tick : UInt32) (now : Nat) :
    ∃ r, Ends (fun fuel => time_loops g_timer_ticks fuel loops_per_tick now) r ∧
      (r.2.1 ≠ r.1 ↔ N ≤ loops_per_tick.toNat) := by
  obtain ⟨t, htick, hends⟩ := wait_tick_ends h now
  exact ⟨_, hends.map _, h.sees t htick loops_per_tick⟩

/-- Where the doubling ends: at 0, or at the first power of 2 that is as large as `N`. -/
def Doubled (N : Nat) (loops_per_tick : UInt32) : Prop :=
  (loops_per_tick = 0 ∧ 2 ^ 31 < N) ∨
    ∃ k, 12 ≤ k ∧ k ≤ 30 ∧ loops_per_tick.toNat = 2 ^ (k + 1) ∧ N ≤ 2 ^ (k + 1) ∧ (k = 12 ∨ 2 ^ k < N)

theorem double_loops_ends (h : Ticking g_timer_ticks N) {d e : Nat} (hd : e + d = 31) (he : 12 ≤ e)
    {loops_per_tick : UInt32} (hloops : loops_per_tick.toNat = 2 ^ e) (hbelow : e = 12 ∨ 2 ^ e < N) (now : Nat) :
    ∃ r, Doubled N r.1 ∧
      ∃ n, ∀ fuel ≥ n, ∀ passes > d, double_loops g_timer_ticks fuel passes loops_per_tick now = some r := by
  induction d generalizing e loops_per_tick now with
  | zero =>
    obtain rfl : e = 31 := by omega
    have hzero : loops_per_tick <<< 1 = 0 := by
      rw [← UInt32.toNat_inj, toNat_double, hloops]
      rfl
    refine ⟨(0, now), .inl ⟨rfl, by omega⟩, 0, fun fuel _ passes hpasses => ?_⟩
    obtain ⟨passes, rfl⟩ := Nat.exists_eq_succ_of_ne_zero (Nat.ne_of_gt hpasses)
    simp only [double_loops, hzero, if_true]
  | succ d ih =>
    have hlt : 2 ^ (e + 1) < 2 ^ 32 := Nat.pow_lt_pow_right (by decide) (by omega)
    have hdouble : (loops_per_tick <<< 1).toNat = 2 ^ (e + 1) := by
      rw [toNat_double, hloops, ← Nat.pow_succ, Nat.mod_eq_of_lt hlt]
    have hne : loops_per_tick <<< 1 ≠ 0 := by
      intro hzero
      rw [hzero] at hdouble
      exact absurd hdouble (Nat.ne_of_lt (Nat.two_pow_pos (e + 1)))
    obtain ⟨⟨tmp, ticks, after⟩, ⟨n, hn⟩, hsees⟩ := time_loops_ends h (loops_per_tick <<< 1) now
    have hpassed : ticks - tmp ≠ 0 ↔ N ≤ 2 ^ (e + 1) := by
      rw [← hdouble, ← hsees, Ne, UInt32.sub_eq_iff_eq_add, UInt32.zero_add]
    by_cases hover : N ≤ 2 ^ (e + 1)
    · refine ⟨(loops_per_tick <<< 1, after), .inr ⟨e, he, by omega, hdouble, hover, hbelow⟩, n,
        fun fuel hfuel passes hpasses => ?_⟩
      obtain ⟨passes, rfl⟩ := Nat.exists_eq_succ_of_ne_zero (Nat.ne_zero_of_lt hpasses)
      rw [double_loops]
      simp only [if_neg hne, hn fuel hfuel, Option.bind_some, if_pos (hpassed.mpr hover)]
    · obtain ⟨r, hr, m, hm⟩ := ih (by omega) (by omega) hdouble (.inr (by omega)) after
      refine ⟨r, hr, max n m, fun fuel hfuel passes hpasses => ?_⟩
      obtain ⟨passes, rfl⟩ := Nat.exists_eq_succ_of_ne_zero (Nat.ne_zero_of_lt hpasses)
      rw [double_loops]
      simp only [if_neg hne, hn fuel ((Nat.le_max_left n m).trans hfuel), Option.bind_some,
        if_neg fun hne => hover (hpassed.mp hne)]
      exact hm fuel ((Nat.le_max_right n m).trans hfuel) passes (Nat.lt_of_succ_lt_succ hpasses)

/-- What is known of the loops found so far, to the bit `2 ^ j`. -/
structure Approximates (N low : Nat) (loops_per_tick : UInt32) (j : Nat) : Prop where
  low_le : low ≤ loops_per_tick.toNat
  lt : loops_per_tick.toNat < N ∨ loops_per_tick.toNat = low
  le : N ≤ loops_per_tick.toNat + 2 ^ j
  bits : loops_per_tick.toNat % 2 ^ j = 0

/-- The next bit is kept just if this many loops do not see the tick. -/
theorem Approximates.next {N low j : Nat} {loops_per_tick loopbit : UInt32}
    (h : Approximates N low loops_per_tick (j + 1)) (hbit : loopbit.toNat = 2 ^ j) {tmp ticks : UInt32}
    (hsees : ticks ≠ tmp ↔ N ≤ (loops_per_tick ||| loopbit).toNat) :
    Approximates N low (if ticks ≠ tmp then (loops_per_tick ||| loopbit) &&& ~~~loopbit
      else loops_per_tick ||| loopbit) j := by
  have hhalf : 2 ^ j < 2 ^ (j + 1) := Nat.pow_lt_pow_right (by decide) (Nat.lt_succ_self j)
  have hsum : (loops_per_tick ||| loopbit).toNat = loops_per_tick.toNat + 2 ^ j := by
    rw [or_toNat_of_lt h.bits (hbit ▸ hhalf), hbit]
  have hdvd : 2 ^ j ∣ loops_per_tick.toNat :=
    Nat.dvd_trans (Nat.pow_dvd_pow 2 (Nat.le_succ j)) (Nat.dvd_of_mod_eq_zero h.bits)
  have hlow := h.low_le
  by_cases hover : ticks ≠ tmp
  · rw [if_pos hover, or_and_not h.bits hbit]
    exact ⟨hlow, h.lt, hsum ▸ hsees.mp hover, Nat.mod_eq_zero_of_dvd hdvd⟩
  · have hnot : ¬ N ≤ (loops_per_tick ||| loopbit).toNat := fun hle => hover (hsees.mpr hle)
    rw [if_neg hover]
    refine ⟨?_, .inl (Nat.lt_of_not_le hnot), ?_, ?_⟩
    · omega
    · have hle := h.le
      rw [hsum]
      rw [Nat.pow_succ] at hle
      omega
    · rw [hsum]
      exact Nat.mod_eq_zero_of_dvd ((Nat.dvd_add_right hdvd).mpr (Nat.dvd_refl _))

/-- After `LPS_PREC` bits the error is a 256th at most. -/
theorem Approximates.close {N j : Nat} {loops_per_tick : UInt32} (h : Approximates N (2 ^ (j + 8)) loops_per_tick j)
    (hmin : 12 ≤ j + 8) (hfirst : j + 8 = 12 ∨ 2 ^ (j + 8) < N) :
    (2 ^ 12 < N → loops_per_tick.toNat < N ∧ N - loops_per_tick.toNat ≤ loops_per_tick.toNat / 256) ∧
      (N ≤ 2 ^ 12 → loops_per_tick.toNat = 2 ^ 12) := by
  have hlow := h.low_le
  have hunit : 2 ^ (j + 8) = 256 * 2 ^ j := by
    rw [Nat.pow_add, Nat.mul_comm]
  have hpow : 2 ^ 12 ≤ 2 ^ (j + 8) := Nat.pow_le_pow_right (by decide) hmin
  constructor
  · intro hN
    have hlt : loops_per_tick.toNat < N := by
      obtain hlt | hsame := h.lt
      · exact hlt
      · obtain hj | hlt := hfirst
        · rw [hsame, hj]
          exact hN
        · exact hsame ▸ hlt
    have hclose := h.le
    refine ⟨hlt, ?_⟩
    omega
  · intro hN
    obtain hj | hlt := hfirst
    · obtain hlt | hsame := h.lt
      · omega
      · rw [hsame, hj]
    · omega

theorem approximate_ends (h : Ticking g_timer_ticks N) {low p j : Nat} {loops_per_tick loopbit : UInt32}
    (happrox : Approximates N low loops_per_tick (j + p)) (hbit : loopbit.toNat = 2 ^ (j + p)) (now : Nat) :
    ∃ r, Ends (fun fuel => approximate g_timer_ticks fuel p loops_per_tick loopbit now) r ∧
      Approximates N low r.1 j := by
  induction p generalizing loops_per_tick loopbit now with
  | zero => exact ⟨(loops_per_tick, now), Ends.of_eq fun _ => rfl, happrox⟩
  | succ p ih =>
    have hhalf : (loopbit >>> 1).toNat = 2 ^ (j + p) := by
      rw [toNat_half, hbit, ← Nat.add_assoc, Nat.pow_succ]
      exact Nat.mul_div_cancel _ (by decide)
    have hne : loopbit >>> 1 ≠ 0 := by
      intro hzero
      rw [hzero] at hhalf
      exact absurd hhalf (Nat.ne_of_lt (Nat.two_pow_pos (j + p)))
    obtain ⟨⟨tmp, ticks, after⟩, hends, hsees⟩ := time_loops_ends h (loops_per_tick ||| loopbit >>> 1) now
    obtain ⟨r, hrest, hr⟩ := ih (happrox.next hhalf hsees) hhalf after
    refine ⟨r, ?_, hr⟩
    simp only [approximate, if_neg hne]
    exact hends.bind hrest

end Loops

/-- If the next tick is seen from `N` loops on, `calibrate_delay` ends, with a number of loops
that is less than `N` by at most one part in 256; with 2^12 if `N` is not larger, and with 0
if no word with one bit set is large enough. -/
theorem calibrate_delay_converges (g_timer_ticks : Nat → UInt32) (N now : Nat) (h : Ticking g_timer_ticks N) :
    ∃ loops_per_tick, Ends (calibrate_delay g_timer_ticks now) loops_per_tick ∧
      (2 ^ 12 < N → N ≤ 2 ^ 31 → loops_per_tick.toNat < N ∧ N - loops_per_tick.toNat ≤ loops_per_tick.toNat / 256) ∧
      (N ≤ 2 ^ 12 → loops_per_tick.toNat = 2 ^ 12) ∧ (2 ^ 31 < N → loops_per_tick = 0) := by
  have hstart : ((1 : UInt32) <<< (12 : UInt32)).toNat = 2 ^ 12 := rfl
  obtain ⟨⟨doubled, after⟩, hdoubled, n, hn⟩ := double_loops_ends h (by decide : 12 + 19 = 31) (Nat.le_refl 12) hstart
    (.inl rfl) now
  have hends : Ends (fun fuel => double_loops g_timer_ticks fuel fuel ((1 : UInt32) <<< (12 : UInt32)) now)
      (doubled, after) :=
    ⟨max n 20, fun fuel hfuel => hn fuel ((Nat.le_max_left n 20).trans hfuel) fuel ((Nat.le_max_right n 20).trans hfuel)⟩
  obtain ⟨hzero, hlarge⟩ | ⟨k, hk, hk', hpow, hle, hfirst⟩ := hdoubled
  · obtain rfl : doubled = 0 := hzero
    have hrest : Ends (fun fuel =>
        (approximate g_timer_ticks fuel LPS_PREC ((0 : UInt32) >>> 1) ((0 : UInt32) >>> 1) after).map Prod.fst) 0 :=
      Ends.of_eq fun _ => rfl
    refine ⟨0, hends.bind hrest, fun _ _ => ?_, fun _ => ?_, fun _ => rfl⟩
    · omega
    · omega
  · have hhalf : (doubled >>> 1).toNat = 2 ^ k := by
      rw [toNat_half, hpow, Nat.pow_succ]
      exact Nat.mul_div_cancel _ (by decide)
    obtain ⟨j, rfl⟩ := Nat.exists_eq_add_of_le' (Nat.le_trans (by decide : 8 ≤ 12) hk)
    have happrox : Approximates N (2 ^ (j + 8)) (doubled >>> 1) (j + 8) := by
      refine ⟨hhalf.ge, .inr hhalf, ?_, hhalf ▸ Nat.mod_self _⟩
      rw [hhalf, ← Nat.two_mul, ← Nat.pow_succ']
      exact hle
    obtain ⟨⟨loops_per_tick, last⟩, hrest, hfound⟩ := approximate_ends h happrox hhalf after
    obtain ⟨hclose, hmin⟩ := hfound.close hk hfirst
    have hmax : 2 ^ (j + 8 + 1) ≤ 2 ^ 31 := Nat.pow_le_pow_right (by decide) (Nat.succ_le_succ hk')
    exact ⟨loops_per_tick, hends.bind (hrest.map Prod.fst), fun hN _ => hclose hN, hmin,
      fun hN => absurd (hle.trans hmax) (Nat.not_le_of_lt hN)⟩

/-- One tick in 5003 numbers. -/
def steady (now : Nat) : UInt32 := UInt32.ofNat (now / 5003)

theorem busy_wait_eq (loops now : Nat) : busy_wait loops now = now + loops + 1 := by
  induction loops generalizing now with
  | zero => rfl
  | succ loops ih =>
    rw [busy_wait, ih]
    omega

theorem steady_ne_iff (t u : Nat) : steady t ≠ steady u ↔ t / 5003 % 2 ^ 32 ≠ u / 5003 % 2 ^ 32 := by
  rw [Ne, ← UInt32.toNat_inj, steady, steady, UInt32.toNat_ofNat', UInt32.toNat_ofNat']

theorem steady_ticking : Ticking steady 5000 := by
  constructor
  · intro now
    refine ⟨now + 5003, Nat.le_add_right _ _, ?_⟩
    rw [steady_ne_iff]
    omega
  · intro t htick loops
    have hlt := loops.toNat_lt
    rw [steady_ne_iff] at htick
    rw [steady_ne_iff, busy_wait_eq]
    omega

theorem calibrate_delay_steady : ∃ loops_per_tick, Ends (calibrate_delay steady 0) loops_per_tick ∧
    (2 ^ 12 < 5000 → 5000 ≤ 2 ^ 31 → loops_per_tick.toNat < 5000 ∧
      5000 - loops_per_tick.toNat ≤ loops_per_tick.toNat / 256) ∧
    (5000 ≤ 2 ^ 12 → loops_per_tick.toNat = 2 ^ 12) ∧ (2 ^ 31 < 5000 → loops_per_tick = 0) :=
  calibrate_delay_converges steady 5000 0 steady_ticking

end epos.timer
