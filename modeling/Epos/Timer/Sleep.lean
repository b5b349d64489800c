import Epos.Timer.Defs

open counters

namespace epos.timer

/-- When `sleep` returns 0, `ms` milliseconds have passed since its first reading. -/
def SleepsEnough (ms : Int32) : Prop :=
  ∀ (c : Counter) fuel n, sleep c.reading fuel ms = some (0, n) →
    c.count 0 + ms.toInt.toNat * 1000 ≤ c.count n

section Calls

variable {TIMER_CL0 : Nat → UInt32} {ms : Int32} {fuel k : Nat}

theorem sleep_waits (hms : 0 ≤ ms) :
    sleep TIMER_CL0 fuel ms =
      (wait_loop TIMER_CL0 (TIMER_CL0 0) (ms * 1000).toUInt32 fuel 1).map fun n => (0, n) :=
  if_neg (Int32.not_lt.mpr hms)

theorem microseconds_toNat (hms : 0 ≤ ms) :
    (ms * 1000).toUInt32.toNat = ms.toInt.toNat * 1000 % 2 ^ 32 := by
  have hthousand : (1000 : Int32).toUInt32.toNat = 1000 := rfl
  have hnat : ms.toUInt32.toNat = ms.toInt.toNat := Int32.toNat_toUInt32_of_le hms
  rw [Int32.toUInt32_mul, UInt32.toNat_mul, hthousand, hnat]

/-- Once a reading shows the time, `sleep` returns. -/
theorem sleep_returns (hms : 0 ≤ ms) (hk : 1 ≤ k) (hover : ¬ TIMER_CL0 k - TIMER_CL0 0 < (ms * 1000).toUInt32) :
    ∃ n ≤ k, sleep TIMER_CL0 k ms = some (0, n) := by
  have hfuel : k < 1 + k := by omega
  obtain ⟨n, hle, hloop⟩ := wait_loop_returns hk hover hfuel
  refine ⟨n, hle, ?_⟩
  rw [sleep_waits hms, hloop]
  rfl

/-- It has then waited for the microseconds it computed. -/
theorem sleep_elapsed (c : Counter) {n : Nat} (hms : 0 ≤ ms) (hsleep : sleep c.reading fuel ms = some (0, n)) :
    c.count 0 + (ms * 1000).toUInt32.toNat ≤ c.count n := by
  rw [sleep_waits hms] at hsleep
  obtain ⟨m, hloop, heq⟩ := Option.map_eq_some_iff.mp hsleep
  cases heq
  exact c.wait_elapsed (Nat.zero_le 1) hloop

/-- And may return as soon as these have passed. -/
theorem sleep_jump (hms : 0 ≤ ms) :
    sleep (Counter.jump (ms * 1000).toUInt32.toNat).reading 1 ms = some (0, 1) := by
  have hfirst : (Counter.jump (ms * 1000).toUInt32.toNat).reading 1 = (ms * 1000).toUInt32 :=
    UInt32.ofNat_toNat
  have hstart : (Counter.jump (ms * 1000).toUInt32.toNat).reading 0 = 0 := rfl
  have hover : ¬ (ms * 1000).toUInt32 - 0 < (ms * 1000).toUInt32 := by
    rw [UInt32.sub_zero]
    exact UInt32.lt_irrefl _
  rw [sleep_waits hms, wait_loop, hfirst, hstart, if_neg hover]
  rfl

end Calls

/-- `_sleep` waits for the ticks it is asked for. -/
theorem _sleep_elapsed (c : Counter) {ticks r : UInt32} {fuel n : Nat}
    (hsleep : _sleep c.reading fuel ticks = some (r, n)) : c.count 0 + ticks.toNat ≤ c.count n := by
  obtain ⟨m, hloop, heq⟩ := Option.map_eq_some_iff.mp hsleep
  cases heq
  exact c.wait_elapsed (Nat.zero_le 1) hloop

/-- `sleep` never returns early just when the microseconds fit into 32 bits. -/
theorem sleep_enough_iff (ms : Int32) (hms : 0 ≤ ms) :
    SleepsEnough ms ↔ ms.toInt.toNat * 1000 < 2 ^ 32 := by
  have hus := microseconds_toNat hms
  constructor
  · intro henough
    have helapsed := henough _ _ _ (sleep_jump hms)
    rw [Counter.jump_first, Counter.jump_next, hus] at helapsed
    omega
  · intro hfits c fuel n hsleep
    have helapsed := sleep_elapsed c hms hsleep
    rw [hus, Nat.mod_eq_of_lt hfits] at helapsed
    exact helapsed

theorem sleep_enough_half_second : SleepsEnough 500 ↔ (500 : Int32).toInt.toNat * 1000 < 2 ^ 32 :=
  sleep_enough_iff 500 (by decide)

/-- `sleep(4294968)`, of more than an hour, returns after 704 microseconds. -/
theorem sleep_returns_early :
    sleep (Counter.jump 704).reading 1 4294968 = some (0, 1) ∧ ¬ SleepsEnough 4294968 := by
  have hsleep : sleep (Counter.jump 704).reading 1 4294968 = some (0, 1) := by decide
  refine ⟨hsleep, fun henough => ?_⟩
  have helapsed := henough _ _ _ hsleep
  exact absurd helapsed (by decide)

end epos.timer
