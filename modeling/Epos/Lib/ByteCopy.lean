import Epos.Lib.ByteMem

namespace bytes

def store8 (mem : ByteMem) (addr : UInt32) (byte : UInt8) : ByteMem :=
  fun a => if a = addr then byte else mem a

/-- Memory after `n` bytes from `dst` on are written, byte `i` with `f i`. -/
def written (mem : ByteMem) (dst : UInt32) (n : Nat) (f : Nat → UInt8) : ByteMem :=
  fun a => if (a - dst).toNat < n then f (a - dst).toNat else mem a

/-- The `n` bytes from `dst` on are what the bytes from `src` on have been. -/
def copied (mem : ByteMem) (dst src : UInt32) (n : Nat) : ByteMem :=
  written mem dst n fun i => mem (src + UInt32.ofNat i)

def filled (mem : ByteMem) (dst : UInt32) (n : Nat) (byte : UInt8) : ByteMem :=
  written mem dst n fun _ => byte

/-- Whoever copies upwards reads none of the bytes that are already overwritten: the
target ends before it reaches the source from behind. -/
def Ahead (dst src : UInt32) (n : Nat) : Prop := (src - dst).toNat + n ≤ 2 ^ 32

instance (dst src : UInt32) (n : Nat) : Decidable (Ahead dst src n) :=
  inferInstanceAs (Decidable (_ ≤ _))

section Written

variable {mem : ByteMem} {dst : UInt32} {f g : Nat → UInt8} {n m : Nat}

theorem written_zero : written mem dst 0 f = mem :=
  funext fun _ => if_neg (Nat.not_lt_zero _)

theorem written_outside {a : UInt32} (ha : n ≤ (a - dst).toNat) : written mem dst n f a = mem a :=
  if_neg (Nat.not_lt.mpr ha)

theorem written_inside {a : UInt32} (ha : (a - dst).toNat < n) : written mem dst n f a = f (a - dst).toNat :=
  if_pos ha

theorem written_congr (hsame : ∀ i < n, f i = g i) : written mem dst n f = written mem dst n g := by
  funext a
  unfold written
  split
  · next ha => exact hsame _ ha
  · rfl

theorem sub_ofNat_toNat {a d : UInt32} {n : Nat} (hn : n ≤ (a - d).toNat) :
    (a - (d + UInt32.ofNat n)).toNat = (a - d).toNat - n := by
  have hlt := (a - d).toNat_lt
  have hlt' := a.toNat_lt
  have hlt'' := d.toNat_lt
  simp only [UInt32.toNat_sub, UInt32.toNat_add, UInt32.toNat_ofNat'] at hn ⊢
  omega

theorem sub_ofNat_toNat_wraps {a d : UInt32} {n : Nat} (hn : (a - d).toNat < n) (hsize : n ≤ 2 ^ 32) :
    (a - (d + UInt32.ofNat n)).toNat = 2 ^ 32 + (a - d).toNat - n := by
  have hlt' := a.toNat_lt
  have hlt'' := d.toNat_lt
  simp only [UInt32.toNat_sub, UInt32.toNat_add, UInt32.toNat_ofNat'] at hn ⊢
  omega

/-- Two ranges that are written one after the other are one. -/
theorem written_written (hsize : n + m ≤ 2 ^ 32) :
    written (written mem dst n f) (dst + UInt32.ofNat n) m g =
      written mem dst (n + m) fun i => if i < n then f i else g (i - n) := by
  funext a
  by_cases hfirst : (a - dst).toNat < n
  · have hwraps := sub_ofNat_toNat_wraps hfirst (by omega)
    rw [written_outside (by omega), written_inside hfirst, written_inside (by omega), if_pos hfirst]
  · have hback := sub_ofNat_toNat (Nat.not_lt.mp hfirst)
    by_cases hsecond : (a - dst).toNat < n + m
    · rw [written_inside (by omega), written_inside hsecond, if_neg hfirst, hback]
    · rw [written_outside (by omega), written_outside (by omega), written_outside (by omega)]

theorem store8_eq (mem : ByteMem) (addr : UInt32) (byte : UInt8) :
    store8 mem addr byte = written mem addr 1 fun _ => byte := by
  funext a
  have hiff : a = addr ↔ (a - addr).toNat < 1 := by
    rw [← UInt32.toNat_inj, UInt32.toNat_sub]
    have hlt := a.toNat_lt
    have hlt' := addr.toNat_lt
    omega
  unfold store8 written
  simp only [hiff]

theorem store32_eq (mem : ByteMem) (addr word : UInt32) :
    store32 mem addr word = written mem addr 4 (byte_of word) := by
  funext a
  have hiff : a - addr < 4 ↔ (a - addr).toNat < 4 := UInt32.lt_iff_toNat_lt
  unfold store32 written
  simp only [hiff]

end Written

section Copied

variable {mem : ByteMem} {dst src : UInt32} {n m : Nat}

theorem copied_zero : copied mem dst src 0 = mem := written_zero

theorem copied_outside {a : UInt32} (ha : n ≤ (a - dst).toNat) : copied mem dst src n a = mem a :=
  written_outside ha

theorem offset_toNat (a : UInt32) {i : Nat} (hi : i < 2 ^ 32) : (a + UInt32.ofNat i - a).toNat = i := by
  have hlt := a.toNat_lt
  simp only [UInt32.toNat_sub, UInt32.toNat_add, UInt32.toNat_ofNat']
  omega

/-- The copy has the bytes of the source in their order. -/
theorem copied_inside {i : Nat} (hi : i < n) (hn : n ≤ 2 ^ 32) :
    copied mem dst src n (dst + UInt32.ofNat i) = mem (src + UInt32.ofNat i) := by
  have hback := offset_toNat dst (Nat.lt_of_lt_of_le hi hn)
  rw [copied, written_inside (by omega), hback]

theorem Ahead.mono (hahead : Ahead dst src n) (hle : m ≤ n) : Ahead dst src m :=
  Nat.le_trans (Nat.add_le_add_left hle _) hahead

/-- Ranges without a common byte. -/
theorem Ahead.of_apart (hfirst : n ≤ (src - dst).toNat) (hsecond : n ≤ (dst - src).toNat) :
    Ahead dst src n := by
  have hlt := dst.toNat_lt
  have hlt' := src.toNat_lt
  unfold Ahead
  rw [UInt32.toNat_sub] at hfirst hsecond ⊢
  omega

theorem Ahead.shift (hahead : Ahead dst src (n + m)) :
    Ahead (dst + UInt32.ofNat n) (src + UInt32.ofNat n) m := by
  have hsame : src + UInt32.ofNat n - (dst + UInt32.ofNat n) = src - dst := by
    rw [← UInt32.toNat_inj]
    have hlt := dst.toNat_lt
    have hlt' := src.toNat_lt
    simp only [UInt32.toNat_sub, UInt32.toNat_add, UInt32.toNat_ofNat']
    omega
  unfold Ahead at hahead ⊢
  rw [hsame]
  omega

/-- What is still to be copied has not changed. -/
theorem copied_source (mem : ByteMem) (hahead : Ahead dst src n) {i : Nat} (hm : m ≤ i) (hi : i < n) :
    copied mem dst src m (src + UInt32.ofNat i) = mem (src + UInt32.ofNat i) := by
  apply copied_outside
  have hlt := dst.toNat_lt
  have hlt' := src.toNat_lt
  unfold Ahead at hahead
  simp only [UInt32.toNat_sub, UInt32.toNat_add, UInt32.toNat_ofNat'] at hahead ⊢
  omega

theorem ofNat_add_ofNat (a : UInt32) (i j : Nat) :
    a + UInt32.ofNat i + UInt32.ofNat j = a + UInt32.ofNat (i + j) := by
  rw [UInt32.add_assoc, ← UInt32.ofNat_add]

/-- Bytes that are copied upwards in two parts. -/
theorem copied_copied (mem : ByteMem) (hahead : Ahead dst src (n + m)) :
    copied (copied mem dst src n) (dst + UInt32.ofNat n) (src + UInt32.ofNat n) m =
      copied mem dst src (n + m) := by
  have hsize : n + m ≤ 2 ^ 32 := Nat.le_trans (Nat.le_add_left _ _) hahead
  unfold copied
  rw [written_written hsize]
  apply written_congr
  intro i hi
  split
  · rfl
  · next hge =>
    rw [ofNat_add_ofNat, Nat.add_sub_cancel' (Nat.not_lt.mp hge)]
    exact copied_source mem hahead (Nat.not_lt.mp hge) hi

theorem store8_eq_copied (mem : ByteMem) (dst src : UInt32) :
    store8 mem dst (mem src) = copied mem dst src 1 := by
  rw [store8_eq]
  apply written_congr
  intro i hi
  obtain rfl : i = 0 := Nat.lt_one_iff.mp hi
  exact congrArg mem (UInt32.add_zero src).symm

end Copied

section Filled

variable {mem : ByteMem} {dst : UInt32} {byte : UInt8} {n m : Nat}

theorem filled_zero : filled mem dst 0 byte = mem := written_zero

theorem filled_filled (hsize : n + m ≤ 2 ^ 32) :
    filled (filled mem dst n byte) (dst + UInt32.ofNat n) m byte = filled mem dst (n + m) byte := by
  unfold filled
  rw [written_written hsize]
  exact written_congr fun _ _ => ite_self _

end Filled

section Words

/-- Byte `i` of the word at `addr`. -/
theorem byte_of_load32 (mem : ByteMem) (addr : UInt32) {i : Nat} (hi : i < 4) :
    byte_of (load32 mem addr) i = mem (addr + UInt32.ofNat i) := by
  have h0 := (mem addr).toNat_lt
  have h1 := (mem (addr + 1)).toNat_lt
  have h2 := (mem (addr + 2)).toNat_lt
  have h3 := (mem (addr + 3)).toNat_lt
  have hzero : addr + 0 = addr := UInt32.add_zero addr
  rw [← UInt8.toNat_inj, byte_of, load32, UInt32.toNat_ofNat', UInt8.toNat_ofNat']
  obtain rfl | rfl | rfl | rfl : i = 0 ∨ i = 1 ∨ i = 2 ∨ i = 3 := by omega
  all_goals
    simp only [UInt32.reduceOfNat, hzero]
    omega

theorem store32_eq_copied (mem : ByteMem) (dst src : UInt32) :
    store32 mem dst (load32 mem src) = copied mem dst src 4 := by
  rw [store32_eq]
  exact written_congr fun i hi => byte_of_load32 mem src hi

/-- Writing what is there changes nothing. -/
theorem store32_load32 (mem : ByteMem) (addr : UInt32) : store32 mem addr (load32 mem addr) = mem := by
  rw [store32_eq_copied]
  funext a
  by_cases ha : (a - addr).toNat < 4
  · have hback : addr + UInt32.ofNat (a - addr).toNat = a := by
      rw [UInt32.ofNat_toNat, UInt32.add_comm, UInt32.sub_add_cancel]
    have hcopied : copied mem addr addr 4 (addr + UInt32.ofNat (a - addr).toNat) = mem (addr + UInt32.ofNat (a - addr).toNat) :=
      copied_inside ha (by decide)
    rw [hback] at hcopied
    exact hcopied
  · exact copied_outside (Nat.le_of_not_lt ha)

theorem byte_of_testBit (word : UInt32) (i j : Nat) :
    (byte_of word i).toNat.testBit j = (decide (j < 8) && word.toNat.testBit (j + 8 * i)) := by
  have hpow : 256 ^ i = 2 ^ (8 * i) := (Nat.pow_mul 2 8 i).symm
  have hbyte : 2 ^ 8 = 256 := rfl
  rw [byte_of, UInt8.toNat_ofNat', hpow, Nat.testBit_mod_two_pow, Nat.testBit_div_two_pow]

/-- The bytes of two words, from byte `k` of the first on. -/
theorem byte_of_joined (low high : UInt32) {k : UInt32} (hpos : 0 < k) (hk : k < 4) {i : Nat} (hi : i < 4) :
    byte_of (low >>> (8 * k) ||| high <<< (8 * (4 - k))) i =
      if i + k.toNat < 4 then byte_of low (i + k.toNat) else byte_of high (i + k.toNat - 4) := by
  have hpos' : 0 < k.toNat := UInt32.lt_iff_toNat_lt.mp hpos
  have hk' : k.toNat < 4 := UInt32.lt_iff_toNat_lt.mp hk
  have height : (8 : UInt32).toNat = 8 := rfl
  have hfour : (4 : UInt32).toNat = 4 := rfl
  have hright : (8 * k).toNat % 32 = 8 * k.toNat := by
    rw [UInt32.toNat_mul, height]
    omega
  have hleft : (8 * (4 - k)).toNat % 32 = 32 - 8 * k.toNat := by
    rw [UInt32.toNat_mul, UInt32.toNat_sub_of_le _ _ (UInt32.le_of_lt hk), height, hfour]
    omega
  rw [← UInt8.toNat_inj]
  apply Nat.eq_of_testBit_eq
  intro j
  rw [byte_of_testBit, UInt32.toNat_or, Nat.testBit_or, UInt32.toNat_shiftRight, UInt32.toNat_shiftLeft,
    hright, hleft, Nat.testBit_shiftRight, Nat.testBit_mod_two_pow, Nat.testBit_shiftLeft]
  by_cases hlow : i + k.toNat < 4
  · have hbit : 8 * k.toNat + (j + 8 * i) = j + 8 * (i + k.toNat) := by omega
    rw [if_pos hlow, byte_of_testBit, hbit]
    by_cases hj : j < 8
    · have hout : ¬ j + 8 * i ≥ 32 - 8 * k.toNat := by omega
      simp [hj, hout]
    · simp [hj]
  · have hbit : j + 8 * i - (32 - 8 * k.toNat) = j + 8 * (i + k.toNat - 4) := by omega
    have hzero : low.toNat.testBit (8 * k.toNat + (j + 8 * i)) = false :=
      Nat.testBit_lt_two_pow (Nat.lt_of_lt_of_le low.toNat_lt (Nat.pow_le_pow_right (by decide) (by omega)))
    rw [if_neg hlow, byte_of_testBit, hbit, hzero]
    by_cases hj : j < 8
    · have hin : j + 8 * i ≥ 32 - 8 * k.toNat := by omega
      have hword : j + 8 * i < 32 := by omega
      simp [hj, hin, hword]
    · simp [hj]

end Words

end bytes
