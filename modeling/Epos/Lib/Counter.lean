import Mathlib.Algebra.Group.Nat.Defs
import Mathlib.Order.Monotone.Basic

namespace counters

/-- A counter that never goes back, with its exact value at each reading. -/
structure Counter where
  count : Nat → Nat
  monotone : Monotone count

/-- With enough fuel, `run` ends with `r`. -/
def Ends {ρ : Type*} (run : Nat → Option ρ) (r : ρ) : Prop := ∃ n, ∀ fuel ≥ n, run fuel = some r

section Fuel

variable {ρ ω : Type*} {run : Nat → Option ρ} {r : ρ}

theorem Ends.of_eq (heq : ∀ fuel, run fuel = some r) : Ends run r := ⟨0, fun fuel _ => heq fuel⟩

/-- One step of a loop takes one unit. -/
theorem Ends.of_succ {run' : Nat → Option ρ} (hends : Ends run r) (heq : ∀ fuel, run' (fuel + 1) = run fuel) :
    Ends run' r := by
  obtain ⟨n, hn⟩ := hends
  refine ⟨n + 1, fun fuel hfuel => ?_⟩
  obtain ⟨fuel, rfl⟩ := Nat.exists_eq_succ_of_ne_zero (Nat.ne_zero_of_lt hfuel)
  rw [heq]
  exact hn fuel (Nat.le_of_succ_le_succ hfuel)

theorem Ends.map (hends : Ends run r) (f : ρ → ω) : Ends (fun fuel => (run fuel).map f) (f r) := by
  obtain ⟨n, hn⟩ := hends
  exact ⟨n, fun fuel hfuel => congrArg (Option.map f) (hn fuel hfuel)⟩

theorem Ends.bind (hends : Ends run r) {rest : ρ → Nat → Option ω} {r' : ω} (hrest : Ends (rest r) r') :
    Ends (fun fuel => (run fuel).bind fun r => rest r fuel) r' := by
  obtain ⟨n, hn⟩ := hends
  obtain ⟨m, hm⟩ := hrest
  refine ⟨max n m, fun fuel hfuel => ?_⟩
  simp only [hn fuel ((Nat.le_max_left n m).trans hfuel), Option.bind_some]
  exact hm fuel ((Nat.le_max_right n m).trans hfuel)

end Fuel

/-- The register shows its low 32 bits. -/
def Counter.reading (c : Counter) (n : Nat) : UInt32 := UInt32.ofNat (c.count n)

/-- The loop `while (now - start < span);` from reading `n` on. It ends with the number of
the last reading. -/
def wait_loop (reading : Nat → UInt32) (start span : UInt32) : Nat → Nat → Option Nat
  | 0, _ => none
  | fuel + 1, n =>
    if reading n - start < span then wait_loop reading start span fuel (n + 1) else some n

section Loops

variable {reading : Nat → UInt32} {start span : UInt32} {fuel n k : Nat}

/-- Where the loop ends. -/
theorem wait_loop_ends (hloop : wait_loop reading start span fuel n = some k) :
    n ≤ k ∧ ¬ reading k - start < span := by
  induction fuel generalizing n with
  | zero => cases hloop
  | succ fuel ih =>
    rw [wait_loop] at hloop
    split at hloop
    · obtain ⟨hle, hover⟩ := ih hloop
      exact ⟨Nat.le_of_succ_le hle, hover⟩
    · next hover =>
      cases hloop
      exact ⟨Nat.le_refl _, hover⟩

/-- A reading that is far enough ends the loop, or one before it does. -/
theorem wait_loop_returns (hle : n ≤ k) (hover : ¬ reading k - start < span) (hfuel : k < n + fuel) :
    ∃ j ≤ k, wait_loop reading start span fuel n = some j := by
  induction fuel generalizing n with
  | zero => omega
  | succ fuel ih =>
    rw [wait_loop]
    split
    · next hwait =>
      have hne : n ≠ k := fun heq => hover (heq ▸ hwait)
      exact ih (by omega) (by omega)
    · exact ⟨n, hle, rfl⟩

end Loops

section Readings

variable (c : Counter) {j k : Nat}

/-- The difference of two readings is what has been counted between them, modulo `2 ^ 32`. -/
theorem Counter.reading_sub (hle : j ≤ k) :
    (c.reading k - c.reading j).toNat = (c.count k - c.count j) % 2 ^ 32 := by
  have hcount := c.monotone hle
  rw [Counter.reading, Counter.reading, UInt32.toNat_sub, UInt32.toNat_ofNat', UInt32.toNat_ofNat']
  omega

/-- So it is never more than that. -/
theorem Counter.reading_sub_le (hle : j ≤ k) :
    c.count j + (c.reading k - c.reading j).toNat ≤ c.count k := by
  have hcount := c.monotone hle
  have hmod := Nat.mod_le (c.count k - c.count j) (2 ^ 32)
  rw [c.reading_sub hle]
  omega

/-- A wait from reading `j` on lasts at least as long as it should. -/
theorem Counter.wait_elapsed {span : UInt32} {fuel n : Nat} (hstart : j ≤ n)
    (hloop : wait_loop c.reading (c.reading j) span fuel n = some k) :
    c.count j + span.toNat ≤ c.count k := by
  obtain ⟨hle, hover⟩ := wait_loop_ends hloop
  have hspan := UInt32.le_iff_toNat_le.mp (UInt32.not_lt.mp hover)
  have helapsed := c.reading_sub_le (hstart.trans hle)
  omega

end Readings

/-- A counter that advances once, by `span`, after its first reading. -/
def Counter.jump (span : Nat) : Counter where
  count n := if n = 0 then 0 else span
  monotone := by
    intro j k hle
    simp only
    split
    · omega
    · rw [if_neg (by omega)]

theorem Counter.jump_first (span : Nat) : (jump span).count 0 = 0 := rfl

theorem Counter.jump_next (span : Nat) : (jump span).count 1 = span := rfl

end counters
