import Epos.Memory.Copy

open bytes

namespace epos.memory

def wsize : UInt32 := 4

def wmask : UInt32 := wsize - 1

/-- How often `do ... while (--t != 0)` goes round. -/
def rounds (t : UInt32) : Nat := if t = 0 then UInt32.size else t.toNat

/-- `*dst++ = VAL`, so many times. -/
def fill_bytes : Nat → ByteMem → UInt32 → UInt8 → ByteMem
  | 0, mem, _, _ => mem
  | t + 1, mem, dst, VAL => fill_bytes t (store8 mem dst VAL) (dst + 1) VAL

/-- `*(uint32_t *)dst = WIDEVAL; dst += wsize;`, so many times. -/
def fill_words : Nat → ByteMem → UInt32 → UInt32 → ByteMem
  | 0, mem, _, _ => mem
  | t + 1, mem, dst, WIDEVAL => fill_words t (store32 mem dst WIDEVAL) (dst + wsize) WIDEVAL

/-- The word that has `c0` in each byte. -/
def widen (c0 : UInt8) : UInt32 :=
  let c := c0.toUInt32
  if c ≠ 0 then
    let c := (c <<< 8) ||| c
    (c <<< 16) ||| c
  else c

def memset (mem : ByteMem) (dst0 : UInt32) (c0 : Int32) (length : UInt32) : UInt32 × ByteMem :=
  let VAL := c0.toUInt32.toUInt8
  if length < 3 * wsize then (dst0, fill_bytes length.toNat mem dst0 VAL)
  else
    let c := widen VAL
    let t := dst0 &&& wmask
    let (mem, dst, length) :=
      if t ≠ 0 then
        let t := wsize - t
        (fill_bytes (rounds t) mem dst0 VAL, dst0 + t, length - t)
      else (mem, dst0, length)
    let t := length / wsize
    let mem := fill_words (rounds t) mem dst c
    let dst := dst + wsize * t
    let t := length &&& wmask
    if t ≠ 0 then (dst0, fill_bytes (rounds t) mem dst VAL) else (dst0, mem)

section Bytes

variable {mem : ByteMem} {dst : UInt32} {byte : UInt8}

theorem rounds_eq {t : UInt32} (ht : t ≠ 0) : rounds t = t.toNat := if_neg ht

theorem fill_bytes_eq {n : Nat} (hn : n ≤ 2 ^ 32) : fill_bytes n mem dst byte = filled mem dst n byte := by
  induction n generalizing mem dst with
  | zero => exact filled_zero.symm
  | succ n ih =>
    have hone : store8 mem dst byte = filled mem dst 1 byte := store8_eq mem dst byte
    rw [fill_bytes, ih (Nat.le_of_succ_le hn), hone, Nat.add_comm]
    exact filled_filled (by omega)

/-- A word shifted behind one that is short enough. -/
theorem shift_or_toNat {c k : UInt32} {e : Nat} (hk : k.toNat % 32 = e) (hc : c.toNat < 2 ^ e)
    (hfits : 2 ^ e * c.toNat < 2 ^ 32) : ((c <<< k) ||| c).toNat = 2 ^ e * c.toNat + c.toNat := by
  rw [UInt32.toNat_or, UInt32.toNat_shiftLeft, hk, Nat.shiftLeft_eq, Nat.mul_comm, Nat.mod_eq_of_lt hfits]
  exact (Nat.two_pow_add_eq_or_of_lt hc _).symm

theorem widen_toNat (byte : UInt8) : (widen byte).toNat = 0x01010101 * byte.toNat := by
  have hlt := byte.toNat_lt
  have hword : byte.toUInt32.toNat = byte.toNat := UInt8.toNat_toUInt32 byte
  have height : (8 : UInt32).toNat % 32 = 8 := rfl
  have hsixteen : (16 : UInt32).toNat % 32 = 16 := rfl
  rw [widen]
  split
  · have hhalf := shift_or_toNat (c := byte.toUInt32) height (by omega) (by omega)
    rw [shift_or_toNat hsixteen (by omega) (by omega), hhalf, hword]
    omega
  · next hzero =>
    have hbyte := congrArg UInt32.toNat (Decidable.not_not.mp hzero)
    rw [hword, UInt32.toNat_zero] at hbyte
    omega

theorem byte_of_widen (byte : UInt8) {i : Nat} (hi : i < 4) : byte_of (widen byte) i = byte := by
  have hlt := byte.toNat_lt
  have hone : 0x01010101 * byte.toNat / 256 = 0x010101 * byte.toNat := by omega
  have htwo : 0x01010101 * byte.toNat / 65536 = 0x0101 * byte.toNat := by omega
  have hthree : 0x01010101 * byte.toNat / 16777216 = byte.toNat := by omega
  rw [← UInt8.toNat_inj, byte_of, widen_toNat, UInt8.toNat_ofNat']
  obtain rfl | rfl | rfl | rfl : i = 0 ∨ i = 1 ∨ i = 2 ∨ i = 3 := by omega
  all_goals
    simp only [Nat.reducePow, Nat.div_one, hone, htwo, hthree]
    omega

theorem store32_widen (mem : ByteMem) (dst : UInt32) (byte : UInt8) :
    store32 mem dst (widen byte) = filled mem dst 4 byte := by
  rw [store32_eq]
  exact written_congr fun i hi => byte_of_widen byte hi

theorem fill_words_eq {n : Nat} (hn : 4 * n ≤ 2 ^ 32) :
    fill_words n mem dst (widen byte) = filled mem dst (4 * n) byte := by
  induction n generalizing mem dst with
  | zero => exact filled_zero.symm
  | succ n ih =>
    rw [fill_words, store32_widen, ih (by omega), Nat.mul_succ, Nat.add_comm]
    exact filled_filled (by omega)

end Bytes

section Calls

variable {length : UInt32}

/-- The bytes up to the next word: their number, and what is filled when they are. -/
theorem align_eq (mem : ByteMem) (dst0 : UInt32) (byte : UInt8) (hlength : 12 ≤ length.toNat) :
    ∃ n ≤ 3, (if dst0 &&& wmask ≠ 0 then
        (fill_bytes (rounds (wsize - (dst0 &&& wmask))) mem dst0 byte, dst0 + (wsize - (dst0 &&& wmask)),
          length - (wsize - (dst0 &&& wmask)))
      else (mem, dst0, length)) =
        (filled mem dst0 n byte, dst0 + UInt32.ofNat n, UInt32.ofNat (length.toNat - n)) := by
  have hlow : (dst0 &&& wmask).toNat = dst0.toNat % 4 := low_bits dst0
  have hfour : wsize.toNat = 4 := rfl
  have hlt := length.toNat_lt
  split
  · next hodd =>
    have hpos : (dst0 &&& wmask).toNat ≠ 0 := fun hzero => hodd (UInt32.toNat_inj.mp hzero)
    have hle : dst0 &&& wmask ≤ wsize := by
      rw [UInt32.le_iff_toNat_le, hlow, hfour]
      omega
    have hn : (wsize - (dst0 &&& wmask)).toNat = 4 - dst0.toNat % 4 := by
      rw [UInt32.toNat_sub_of_le _ _ hle, hlow, hfour]
    have ht : wsize - (dst0 &&& wmask) = UInt32.ofNat (4 - dst0.toNat % 4) := by
      rw [← hn, UInt32.ofNat_toNat]
    have hne : wsize - (dst0 &&& wmask) ≠ 0 := fun hzero => by
      rw [hzero, UInt32.toNat_zero] at hn
      omega
    have hrest : length - UInt32.ofNat (4 - dst0.toNat % 4) =
        UInt32.ofNat (length.toNat - (4 - dst0.toNat % 4)) := by
      rw [← UInt32.toNat_inj, UInt32.toNat_sub, UInt32.toNat_ofNat', UInt32.toNat_ofNat']
      omega
    refine ⟨4 - dst0.toNat % 4, by omega, ?_⟩
    rw [rounds_eq hne, hn, fill_bytes_eq (by omega), ht, hrest]
  · refine ⟨0, by decide, ?_⟩
    rw [filled_zero, Nat.sub_zero, UInt32.ofNat_toNat]
    exact congrArg (fun d => (mem, d, length)) (UInt32.add_zero dst0).symm

/-- From an aligned start: the words and the bytes that do not fill one. -/
theorem words_eq (mem : ByteMem) (dst : UInt32) (byte : UInt8) {n : Nat} (hlength : 4 ≤ n) (hfits : n < 2 ^ 32) :
    (if UInt32.ofNat n &&& wmask ≠ 0 then
      fill_bytes (rounds (UInt32.ofNat n &&& wmask))
        (fill_words (rounds (UInt32.ofNat n / wsize)) mem dst (widen byte))
        (dst + wsize * (UInt32.ofNat n / wsize)) byte
    else fill_words (rounds (UInt32.ofNat n / wsize)) mem dst (widen byte)) = filled mem dst n byte := by
  have hnat : (UInt32.ofNat n).toNat = n := by
    rw [UInt32.toNat_ofNat']
    omega
  have hlow : (UInt32.ofNat n &&& wmask).toNat = n % 4 :=
    (low_bits _).trans (congrArg (· % 4) hnat)
  have hdiv : (UInt32.ofNat n / wsize).toNat = n / 4 :=
    (length_toNat _).trans (congrArg (· / 4) hnat)
  have hwords : rounds (UInt32.ofNat n / wsize) = n / 4 := by
    rw [rounds_eq, hdiv]
    intro hzero
    rw [hzero, UInt32.toNat_zero] at hdiv
    omega
  have hend : wsize * (UInt32.ofNat n / wsize) = UInt32.ofNat (4 * (n / 4)) := by
    have hfour : wsize.toNat = 4 := rfl
    rw [← UInt32.toNat_inj, UInt32.toNat_mul, hdiv, hfour, UInt32.toNat_ofNat']
  have hsum : 4 * (n / 4) + n % 4 = n := Nat.div_add_mod n 4
  rw [hwords, fill_words_eq (by omega)]
  split
  · next hrest =>
    rw [rounds_eq hrest, hlow, fill_bytes_eq (by omega), hend, filled_filled (by omega), hsum]
  · next hnone =>
    have hzero := congrArg UInt32.toNat (Decidable.not_not.mp hnone)
    rw [hlow, UInt32.toNat_zero] at hzero
    rw [hzero, Nat.add_zero] at hsum
    rw [hsum]

end Calls

/-- `memset` sets its bytes and no others, for any start and length. -/
theorem memset_eq (mem : ByteMem) (dst0 : UInt32) (c0 : Int32) (length : UInt32) :
    memset mem dst0 c0 length = (dst0, filled mem dst0 length.toNat c0.toUInt32.toUInt8) := by
  have htwelve : (3 * wsize).toNat = 12 := rfl
  have hlt := length.toNat_lt
  rw [memset]
  split
  · rw [fill_bytes_eq (Nat.le_of_lt hlt)]
  · next hmany =>
    have hge : 12 ≤ length.toNat := by
      rw [UInt32.lt_iff_toNat_lt, htwelve] at hmany
      omega
    obtain ⟨n, hn, halign⟩ := align_eq mem dst0 c0.toUInt32.toUInt8 hge
    have hwords := words_eq (filled mem dst0 n c0.toUInt32.toUInt8) (dst0 + UInt32.ofNat n) c0.toUInt32.toUInt8
      (n := length.toNat - n) (by omega) (by omega)
    have hsum : n + (length.toNat - n) = length.toNat := by omega
    rw [filled_filled (by omega), hsum] at hwords
    simp only [halign]
    rw [← hwords]
    split <;> rfl

/-- Every byte of memory after `memset`. -/
theorem memset_bytes (mem : ByteMem) (dst0 : UInt32) (c0 : Int32) (length : UInt32) :
    (memset mem dst0 c0 length).1 = dst0 ∧
      ∀ a, (memset mem dst0 c0 length).2 a = if (a - dst0).toNat < length.toNat then c0.toUInt32.toUInt8 else mem a := by
  rw [memset_eq]
  exact ⟨rfl, fun _ => rfl⟩

end epos.memory
