import Epos.Lib.ByteCopy

namespace bytes

/-- The byte at an address, as numbers count them. -/
def byte (mem : ByteMem) (a : Nat) : UInt8 := mem (UInt32.ofNat a)

/-- The number in the word at an address. -/
def word (mem : ByteMem) (a : Nat) : Nat := (load32 mem (UInt32.ofNat a)).toNat

/-- Only bytes in `Z` have changed. -/
def Touches (Z : Nat → Prop) (mem mem' : ByteMem) : Prop :=
  ∀ a < 2 ^ 32, ¬ Z a → byte mem' a = byte mem a

/-- The `n` bytes from `a` on. -/
def Range (a n : Nat) : Nat → Prop := fun x => a ≤ x ∧ x < a + n

section Words

variable {mem mem' mem'' : ByteMem} {Z Z' : Nat → Prop} {a b : Nat}

theorem load32_ofNat (mem : ByteMem) (a : Nat) : load32 mem (UInt32.ofNat a) = UInt32.ofNat (word mem a) :=
  (UInt32.ofNat_toNat).symm

theorem word_lt (mem : ByteMem) (a : Nat) : word mem a < 2 ^ 32 := UInt32.toNat_lt _

/-- A word is made of four bytes, the least one first. -/
theorem word_eq (mem : ByteMem) (a : Nat) :
    word mem a = (byte mem a).toNat + 256 * (byte mem (a + 1)).toNat + 65536 * (byte mem (a + 2)).toNat +
      16777216 * (byte mem (a + 3)).toNat := by
  have h0 := (byte mem a).toNat_lt
  have h1 := (byte mem (a + 1)).toNat_lt
  have h2 := (byte mem (a + 2)).toNat_lt
  have h3 := (byte mem (a + 3)).toNat_lt
  have hbyte : ∀ i, mem (UInt32.ofNat a + UInt32.ofNat i) = byte mem (a + i) := fun i => by rw [byte, UInt32.ofNat_add]
  have hload : load32 mem (UInt32.ofNat a) = UInt32.ofNat ((byte mem a).toNat + 256 * (byte mem (a + 1)).toNat +
      65536 * (byte mem (a + 2)).toNat + 16777216 * (byte mem (a + 3)).toNat) := by
    rw [← hbyte 1, ← hbyte 2, ← hbyte 3]
    rfl
  rw [word, hload, UInt32.toNat_ofNat', Nat.mod_eq_of_lt (by omega)]

theorem byte_ofNat_toNat (mem : ByteMem) (p : UInt32) : byte mem p.toNat = mem p := by
  rw [byte, UInt32.ofNat_toNat]

theorem Touches.refl (mem : ByteMem) : Touches Z mem mem := fun _ _ _ => rfl

theorem Touches.mono (htouches : Touches Z mem mem') (hle : ∀ a, Z a → Z' a) : Touches Z' mem mem' :=
  fun a ha hout => htouches a ha (mt (hle a) hout)

theorem Touches.trans (hfirst : Touches Z mem mem') (hsecond : Touches Z mem' mem'') : Touches Z mem mem'' :=
  fun a ha hout => (hsecond a ha hout).trans (hfirst a ha hout)

/-- A word whose bytes have not changed. -/
theorem Touches.word_eq (htouches : Touches Z mem mem') (ha : a + 4 ≤ 2 ^ 32)
    (hout : ∀ x, a ≤ x → x < a + 4 → ¬ Z x) : word mem' a = word mem a := by
  have hbytes : ∀ i < (4 : UInt32), mem' (UInt32.ofNat a + i) = mem (UInt32.ofNat a + i) := by
    intro i hi
    have hlt : i.toNat < 4 := UInt32.lt_iff_toNat_lt.mp hi
    have hsum : UInt32.ofNat a + i = UInt32.ofNat (a + i.toNat) := by
      rw [UInt32.ofNat_add, UInt32.ofNat_toNat]
    rw [hsum]
    exact htouches (a + i.toNat) (by omega) (hout _ (by omega) (by omega))
  exact congrArg UInt32.toNat (load32_congr hbytes)

theorem word_zero (hzero : ∀ x, a ≤ x → x < a + 4 → byte mem x = 0) : word mem a = 0 := by
  have hbytes : ∀ i < (4 : UInt32), mem (UInt32.ofNat a + i) = (fun _ => 0) (UInt32.ofNat a + i) := by
    intro i hi
    have hlt : i.toNat < 4 := UInt32.lt_iff_toNat_lt.mp hi
    have hsum : UInt32.ofNat a + i = UInt32.ofNat (a + i.toNat) := by
      rw [UInt32.ofNat_add, UInt32.ofNat_toNat]
    rw [hsum]
    exact hzero (a + i.toNat) (by omega) (by omega)
  have hload : load32 mem (UInt32.ofNat a) = load32 (fun _ => 0) (UInt32.ofNat a) := load32_congr hbytes
  rw [word, hload]
  rfl

theorem touches_written {n : Nat} {f : Nat → UInt8} (ha : a + n ≤ 2 ^ 32) :
    Touches (Range a n) mem (written mem (UInt32.ofNat a) n f) := by
  intro x hx hout
  apply written_outside
  rw [UInt32.toNat_sub, UInt32.toNat_ofNat', UInt32.toNat_ofNat']
  unfold Range at hout
  omega

theorem touches_store32 (ha : a + 4 ≤ 2 ^ 32) (w : UInt32) :
    Touches (Range a 4) mem (store32 mem (UInt32.ofNat a) w) := by
  rw [store32_eq]
  exact touches_written ha

theorem word_store32 (mem : ByteMem) (a : Nat) (w : UInt32) :
    word (store32 mem (UInt32.ofNat a) w) a = w.toNat := by
  rw [word, load32_store32]

theorem word_store32_of_ne (mem : ByteMem) (w : UInt32) (ha : a + 4 ≤ 2 ^ 32) (hb : b + 4 ≤ 2 ^ 32)
    (hne : a + 4 ≤ b ∨ b + 4 ≤ a) : word (store32 mem (UInt32.ofNat a) w) b = word mem b := by
  apply (touches_store32 ha w).word_eq hb
  intro x hx hlt hin
  unfold Range at hin
  omega

/-- Stores to words that do not overlap may come in either order. -/
theorem store32_comm (mem : ByteMem) (v w : UInt32) (ha : a + 4 ≤ 2 ^ 32) (hb : b + 4 ≤ 2 ^ 32)
    (hne : a + 4 ≤ b ∨ b + 4 ≤ a) :
    store32 (store32 mem (UInt32.ofNat a) v) (UInt32.ofNat b) w =
      store32 (store32 mem (UInt32.ofNat b) w) (UInt32.ofNat a) v := by
  funext x
  have hnot : ¬ (x - UInt32.ofNat a < 4 ∧ x - UInt32.ofNat b < 4) := by
    have hlt := x.toNat_lt
    have hfour : (4 : UInt32).toNat = 4 := rfl
    rw [UInt32.lt_iff_toNat_lt, UInt32.lt_iff_toNat_lt, UInt32.toNat_sub, UInt32.toNat_sub, UInt32.toNat_ofNat',
      UInt32.toNat_ofNat', hfour]
    omega
  unfold store32
  by_cases hx : x - UInt32.ofNat a < 4
  · have hx' : ¬ x - UInt32.ofNat b < 4 := fun h => hnot ⟨hx, h⟩
    simp only [if_pos hx, if_neg hx']
  · simp only [if_neg hx]

theorem byte_store8 (mem : ByteMem) (v : UInt8) {x : Nat} (ha : a < 2 ^ 32) (hx : x < 2 ^ 32) :
    byte (store8 mem (UInt32.ofNat a) v) x = if x = a then v else byte mem x := by
  have hiff : UInt32.ofNat x = UInt32.ofNat a ↔ x = a := by
    rw [← UInt32.toNat_inj, UInt32.toNat_ofNat', UInt32.toNat_ofNat', Nat.mod_eq_of_lt ha, Nat.mod_eq_of_lt hx]
  unfold byte store8
  simp only [hiff]

/-- A byte that is written. -/
theorem byte_written {n : Nat} {f : Nat → UInt8} {i : Nat} (hi : i < n) (ha : a + n ≤ 2 ^ 32) :
    byte (written mem (UInt32.ofNat a) n f) (a + i) = f i := by
  have hback : (UInt32.ofNat (a + i) - UInt32.ofNat a).toNat = i := by
    rw [UInt32.toNat_sub, UInt32.toNat_ofNat', UInt32.toNat_ofNat']
    omega
  rw [byte, written_inside (by omega), hback]

end Words

end bytes
