import Epos.Cpu
import Epos.Lib.ByteCopy

open bytes

namespace epos.memory

def TYPE_WIDTH : UInt32 := 4

/-- `count` times `*dst8++ = *src8++`. -/
def copy_bytes : Nat → ByteMem → UInt32 → UInt32 → ByteMem
  | 0, mem, _, _ => mem
  | count + 1, mem, dst8, src8 =>
    copy_bytes count (store8 mem dst8 (mem src8)) (dst8 + 1) (src8 + 1)

def COPY_REMAINING (mem : ByteMem) (dst8 src8 count : UInt32) : ByteMem :=
  -- the switch falls through from its case for `count`, and has none from 8 on
  if count ≤ 7 then copy_bytes count.toNat mem dst8 src8 else mem

/-- The memory and the variables of a loop that copies words. -/
structure Words where
  mem : ByteMem
  dstN : UInt32
  srcN : UInt32

def CP_INCR (c : Words) : Words where
  mem := store32 c.mem c.dstN (load32 c.mem c.srcN)
  dstN := c.dstN + TYPE_WIDTH
  srcN := c.srcN + TYPE_WIDTH

def CP (idx : UInt32) (c : Words) : Words :=
  { c with mem := store32 c.mem (c.dstN + TYPE_WIDTH * idx) (load32 c.mem (c.srcN + TYPE_WIDTH * idx)) }

def INC_INDEX (o : UInt32) (c : Words) : Words :=
  { c with dstN := c.dstN + TYPE_WIDTH * o, srcN := c.srcN + TYPE_WIDTH * o }

/-- `while (length & 7)`: what the loop leaves of `length`. -/
def while_odd {σ : Type} (body : σ → σ) : Nat → σ → Nat × σ
  | 0, c => (0, c)
  | length + 1, c => if (length + 1) &&& 7 = 0 then (length + 1, c) else while_odd body length (body c)

/-- `while (length--)` -/
def while_dec {σ : Type} (body : σ → σ) : Nat → σ → σ
  | 0, c => c
  | length + 1, c => while_dec body length (body c)

def COPY_NO_SHIFT (mem : ByteMem) (dst8 src8 count : UInt32) : ByteMem :=
  let length := (count / TYPE_WIDTH).toNat
  let (length, c) := while_odd CP_INCR length { mem := mem, dstN := dst8, srcN := src8 }
  let body (c : Words) := INC_INDEX 8 (CP 7 (CP 6 (CP 5 (CP 4 (CP 3 (CP 2 (CP 1 (CP 0 c))))))))
  let c := while_dec body (length / 8) c
  COPY_REMAINING c.mem c.dstN c.srcN (count &&& (TYPE_WIDTH - 1))

/-- The loops of `COPY_SHIFT` also keep the word of the source that they read last. -/
structure Shifted extends Words where
  srcWord : UInt32

def CP_INCR_SH (shl shr : UInt32) (c : Shifted) : Shifted :=
  let dstWord := c.srcWord >>> shl
  let srcWord := load32 c.mem c.srcN
  { mem := store32 c.mem c.dstN (dstWord ||| srcWord <<< shr), dstN := c.dstN + TYPE_WIDTH,
    srcN := c.srcN + TYPE_WIDTH, srcWord := srcWord }

def CP_SH (x shl shr : UInt32) (c : Shifted) : Shifted :=
  let dstWord := c.srcWord >>> shl
  let srcWord := load32 c.mem (c.srcN + TYPE_WIDTH * x)
  { c with
    mem := store32 c.mem (c.dstN + TYPE_WIDTH * x) (dstWord ||| srcWord <<< shr), srcWord := srcWord }

def COPY_SHIFT (shift : UInt32) (mem : ByteMem) (dst8 src8 count : UInt32) : ByteMem :=
  let shl := 8 * shift
  let shr := 8 * (TYPE_WIDTH - shift)
  let dstN := dst8 &&& ~~~(TYPE_WIDTH - 1)
  let srcN := src8 &&& ~~~(TYPE_WIDTH - 1)
  let length := (count / TYPE_WIDTH).toNat
  let start : Shifted :=
    { mem := mem, dstN := dstN, srcN := srcN + TYPE_WIDTH, srcWord := load32 mem srcN }
  let (length, c) := while_odd (CP_INCR_SH shl shr) length start
  let body (c : Shifted) :=
    let c := CP_SH 7 shl shr (CP_SH 6 shl shr (CP_SH 5 shl shr (CP_SH 4 shl shr
      (CP_SH 3 shl shr (CP_SH 2 shl shr (CP_SH 1 shl shr (CP_SH 0 shl shr c)))))))
    { c with toWords := INC_INDEX 8 c.toWords }
  let c := while_dec body (length / 8) c
  COPY_REMAINING c.mem c.dstN (c.srcN + (shift - TYPE_WIDTH)) (count &&& (TYPE_WIDTH - 1))

/-- `while (((UIntN)dst8 & (TYPE_WIDTH - 1)) != 0)`, which ends within three rounds. -/
def align_dst8 : Nat → ByteMem → UInt32 → UInt32 → UInt32 → ByteMem × UInt32 × UInt32 × UInt32
  | 0, mem, dst8, src8, count => (mem, dst8, src8, count)
  | fuel + 1, mem, dst8, src8, count =>
    if dst8 &&& (TYPE_WIDTH - 1) ≠ 0 then
      align_dst8 fuel (store8 mem dst8 (mem src8)) (dst8 + 1) (src8 + 1) (count - 1)
    else (mem, dst8, src8, count)

def memcpy (mem : ByteMem) (dest src count : UInt32) : UInt32 × ByteMem :=
  if count < 8 then (dest, COPY_REMAINING mem dest src count)
  else
    let (mem, dst8, src8, count) := align_dst8 3 mem dest src count
    let offset := src8 &&& (TYPE_WIDTH - 1)
    if offset = 0 then (dest, COPY_NO_SHIFT mem dst8 src8 count)
    else (dest, COPY_SHIFT offset mem dst8 src8 count)

/-- `while (count--) *--tmp = *--s;` -/
def copy_bytes_down : Nat → ByteMem → UInt32 → UInt32 → ByteMem
  | 0, mem, _, _ => mem
  | count + 1, mem, tmp, s => copy_bytes_down count (store8 mem (tmp - 1) (mem (s - 1))) (tmp - 1) (s - 1)

def memmove (mem : ByteMem) (dest src count : UInt32) : UInt32 × ByteMem :=
  if dest ≤ src then (dest, copy_bytes count.toNat mem dest src)
  else (dest, copy_bytes_down count.toNat mem (dest + count) (src + count))

section Bytes

variable {mem : ByteMem} {dst src : UInt32}

/-- Bytes that are copied one by one upwards. -/
theorem copy_bytes_eq {n : Nat} (hahead : Ahead dst src n) : copy_bytes n mem dst src = copied mem dst src n := by
  induction n generalizing mem dst src with
  | zero => exact copied_zero.symm
  | succ n ih =>
    rw [Nat.add_comm] at hahead
    have hrest : Ahead (dst + 1) (src + 1) n := hahead.shift
    rw [copy_bytes, store8_eq_copied, ih hrest, Nat.add_comm]
    exact copied_copied _ hahead

/-- Downwards no byte is overwritten before it is read if the source does not reach the
target from behind. -/
theorem copy_bytes_down_eq (mem : ByteMem) {n : Nat} (hahead : Ahead src dst n) :
    copy_bytes_down n mem (dst + UInt32.ofNat n) (src + UInt32.ofNat n) = copied mem dst src n := by
  induction n generalizing mem with
  | zero => exact copied_zero.symm
  | succ n ih =>
    have hback : ∀ a : UInt32, a + UInt32.ofNat (n + 1) - 1 = a + UInt32.ofNat n := fun a => by
      rw [UInt32.ofNat_add, ← UInt32.add_assoc]
      exact UInt32.add_sub_cancel _ _
    rw [copy_bytes_down, hback, hback, ih _ (hahead.mono (Nat.le_succ n))]
    unfold Ahead at hahead
    rw [UInt32.toNat_sub] at hahead
    have hlt := dst.toNat_lt
    have hlt' := src.toNat_lt
    funext a
    by_cases hlow : (a - dst).toNat < n
    · -- a byte of the source below the one that has just been copied
      have hne : src + UInt32.ofNat (a - dst).toNat ≠ dst + UInt32.ofNat n := by
        intro heq
        have hnat := congrArg UInt32.toNat heq
        simp only [UInt32.toNat_add, UInt32.toNat_ofNat', UInt32.toNat_sub] at hnat hlow
        omega
      rw [copied, copied, written_inside hlow, written_inside (by omega)]
      exact if_neg hne
    · rw [copied_outside (by omega)]
      by_cases htop : a = dst + UInt32.ofNat n
      · rw [htop, copied_inside (Nat.lt_succ_self n) (by omega)]
        exact if_pos rfl
      · have houtside : n + 1 ≤ (a - dst).toNat := by
          refine Nat.lt_of_le_of_ne (Nat.not_lt.mp hlow) fun heq => htop ?_
          rw [heq, UInt32.ofNat_toNat, UInt32.add_comm, UInt32.sub_add_cancel]
        rw [copied_outside houtside]
        exact if_neg htop

end Bytes

section Rounds

variable {σ : Type} {body : σ → σ}

theorem while_dec_add (n m : Nat) (c : σ) : while_dec body (n + m) c = while_dec body m (while_dec body n c) := by
  induction n generalizing c with
  | zero => rw [Nat.zero_add, while_dec]
  | succ n ih => rw [Nat.succ_add, while_dec, while_dec, ih]

theorem while_odd_eq (length : Nat) (c : σ) :
    while_odd body length c = (length - length % 8, while_dec body (length % 8) c) := by
  induction length generalizing c with
  | zero => rfl
  | succ length ih =>
    have hmask : (length + 1) &&& 7 = (length + 1) % 8 := Nat.and_two_pow_sub_one_eq_mod _ 3
    rw [while_odd, hmask]
    split
    · next hzero =>
      rw [hzero]
      rfl
    · next hodd =>
      have hmod : (length + 1) % 8 = length % 8 + 1 := by omega
      rw [ih, hmod, while_dec, Nat.add_sub_add_right]

/-- The loop that is unrolled makes the rounds of one that is not. -/
theorem unrolled_eq {eight : σ → σ} (height : ∀ c, eight c = while_dec body 8 c) (length : Nat) (c : σ) :
    while_dec eight ((while_odd body length c).1 / 8) (while_odd body length c).2 = while_dec body length c := by
  have hrounds : ∀ n c, while_dec eight n c = while_dec body (8 * n) c := by
    intro n
    induction n with
    | zero => exact fun _ => rfl
    | succ n ih =>
      intro c
      rw [while_dec, ih, height, ← while_dec_add, Nat.mul_succ, Nat.add_comm]
  rw [while_odd_eq, hrounds, ← while_dec_add]
  congr 1
  dsimp only
  omega

end Rounds

section Aligned

variable {mem : ByteMem} {dst src : UInt32}

theorem CP_INCR_rounds {n : Nat} (hahead : Ahead dst src (4 * n)) :
    while_dec CP_INCR n { mem := mem, dstN := dst, srcN := src } =
      { mem := copied mem dst src (4 * n), dstN := dst + UInt32.ofNat (4 * n),
        srcN := src + UInt32.ofNat (4 * n) } := by
  induction n generalizing mem dst src with
  | zero =>
    rw [Nat.mul_zero, copied_zero]
    exact congrArg₂ (Words.mk mem) (UInt32.add_zero dst).symm (UInt32.add_zero src).symm
  | succ n ih =>
    rw [Nat.mul_succ, Nat.add_comm (4 * n)] at hahead ⊢
    have hrest : Ahead (dst + 4) (src + 4) (4 * n) := hahead.shift
    have hcopied := copied_copied mem hahead
    simp only [UInt32.reduceOfNat] at hcopied
    simp only [while_dec, CP_INCR, TYPE_WIDTH, store32_eq_copied]
    rw [ih hrest, hcopied, UInt32.ofNat_add, ← UInt32.add_assoc, ← UInt32.add_assoc]
    rfl

theorem CP_eight (c : Words) :
    INC_INDEX 8 (CP 7 (CP 6 (CP 5 (CP 4 (CP 3 (CP 2 (CP 1 (CP 0 c)))))))) = while_dec CP_INCR 8 c := by
  simp only [while_dec, CP_INCR, CP, INC_INDEX, TYPE_WIDTH, UInt32.add_assoc, UInt32.reduceMul, UInt32.reduceAdd,
    UInt32.add_zero]

theorem COPY_REMAINING_eq {count : UInt32} (hcount : count ≤ 7) (hahead : Ahead dst src count.toNat) :
    COPY_REMAINING mem dst src count = copied mem dst src count.toNat := by
  rw [COPY_REMAINING, if_pos hcount, copy_bytes_eq hahead]

theorem low_bits (count : UInt32) : (count &&& (TYPE_WIDTH - 1)).toNat = count.toNat % 4 := by
  rw [UInt32.toNat_and]
  exact Nat.and_two_pow_sub_one_eq_mod _ 2

theorem length_toNat (count : UInt32) : (count / TYPE_WIDTH).toNat = count.toNat / 4 := UInt32.toNat_div _ _

/-- The words are followed by the bytes that do not fill a word. -/
theorem remaining_eq {count : UInt32} (hahead : Ahead dst src count.toNat) :
    COPY_REMAINING (copied mem dst src (4 * (count / TYPE_WIDTH).toNat))
        (dst + UInt32.ofNat (4 * (count / TYPE_WIDTH).toNat)) (src + UInt32.ofNat (4 * (count / TYPE_WIDTH).toNat))
        (count &&& (TYPE_WIDTH - 1)) =
      copied mem dst src count.toNat := by
  have hlow := low_bits count
  have hle : count &&& (TYPE_WIDTH - 1) ≤ 7 := by
    have hseven : (7 : UInt32).toNat = 7 := rfl
    rw [UInt32.le_iff_toNat_le, hlow, hseven]
    omega
  have hsum : 4 * (count.toNat / 4) + count.toNat % 4 = count.toNat := Nat.div_add_mod _ 4
  rw [← hsum] at hahead
  rw [length_toNat, COPY_REMAINING_eq hle (hlow ▸ hahead.shift), hlow, copied_copied _ hahead, hsum]

theorem COPY_NO_SHIFT_eq {count : UInt32} (hahead : Ahead dst src count.toNat) :
    COPY_NO_SHIFT mem dst src count = copied mem dst src count.toNat := by
  have hwords : Ahead dst src (4 * (count / TYPE_WIDTH).toNat) :=
    hahead.mono (by rw [length_toNat]; omega)
  rw [COPY_NO_SHIFT]
  simp only [unrolled_eq CP_eight, CP_INCR_rounds hwords]
  exact remaining_eq hahead

end Aligned

section Shifts

variable {mem : ByteMem} {dst src shift : UInt32}

/-- The bytes that the word read last has for the copy, when `n` words of it are to come. -/
def Held (mem : ByteMem) (src shift srcWord : UInt32) (n : Nat) : Prop :=
  ∀ j < 4, shift.toNat ≤ j → 0 < n → byte_of srcWord j = mem (src + UInt32.ofNat (j - shift.toNat))

/-- The next word of the source, `shift` bytes before `src` and 4 on. -/
theorem byte_of_next (mem : ByteMem) (src : UInt32) (hshift : shift < 4) {j : Nat} (hj : j < 4) :
    byte_of (load32 mem (src + (TYPE_WIDTH - shift))) j = mem (src + UInt32.ofNat (4 + j - shift.toNat)) := by
  have hlt : shift.toNat < 4 := UInt32.lt_iff_toNat_lt.mp hshift
  have hwidth : TYPE_WIDTH - shift = UInt32.ofNat (4 - shift.toNat) := by
    have hfour : (4 : UInt32).toNat = 4 := rfl
    rw [← UInt32.toNat_inj, TYPE_WIDTH, UInt32.toNat_sub_of_le _ _ (UInt32.le_of_lt hshift), UInt32.toNat_ofNat',
      hfour]
    omega
  have hsum : 4 - shift.toNat + j = 4 + j - shift.toNat := by omega
  rw [byte_of_load32 _ _ hj, hwidth, ofNat_add_ofNat, hsum]

/-- One round copies four bytes and holds the ones that follow. -/
theorem CP_INCR_SH_eq {srcWord : UInt32} {n : Nat} (hpos : 0 < shift) (hshift : shift < 4)
    (hahead : Ahead dst src (4 + 4 * n)) (hheld : Held mem src shift srcWord (n + 1)) :
    store32 mem dst (srcWord >>> (8 * shift) |||
        load32 mem (src + (TYPE_WIDTH - shift)) <<< (8 * (TYPE_WIDTH - shift))) = copied mem dst src 4 ∧
      Held (copied mem dst src 4) (src + 4) shift (load32 mem (src + (TYPE_WIDTH - shift))) n := by
  constructor
  · rw [store32_eq]
    apply written_congr
    intro i hi
    rw [TYPE_WIDTH, byte_of_joined _ _ hpos hshift hi]
    split
    · next hlow =>
      rw [hheld _ hlow (Nat.le_add_left _ _) (Nat.succ_pos n), Nat.add_sub_cancel]
    · next hhigh =>
      have hback : 4 + (i + shift.toNat - 4) - shift.toNat = i := by omega
      have hlt : shift.toNat < 4 := UInt32.lt_iff_toNat_lt.mp hshift
      have hnext := byte_of_next mem src hshift (j := i + shift.toNat - 4) (by omega)
      rw [TYPE_WIDTH] at hnext
      rw [hnext, hback]
  · intro j hj hle hn
    have hsum : 4 + j - shift.toNat = 4 + (j - shift.toNat) := by omega
    have hsource := copied_source mem hahead (m := 4) (i := 4 + (j - shift.toNat)) (by omega) (by omega)
    have hfour : src + 4 + UInt32.ofNat (j - shift.toNat) = src + UInt32.ofNat (4 + (j - shift.toNat)) :=
      ofNat_add_ofNat src 4 _
    rw [byte_of_next _ _ hshift hj, hsum, hfour, hsource]

/-- The words are those of the source, though each is put together from two. -/
theorem CP_INCR_SH_rounds {srcWord : UInt32} {n : Nat} (hpos : 0 < shift) (hshift : shift < 4)
    (hahead : Ahead dst src (4 * n)) (hheld : Held mem src shift srcWord n) :
    ∃ srcWord', while_dec (CP_INCR_SH (8 * shift) (8 * (TYPE_WIDTH - shift))) n
        { mem := mem, dstN := dst, srcN := src + (TYPE_WIDTH - shift), srcWord := srcWord } =
      { mem := copied mem dst src (4 * n), dstN := dst + UInt32.ofNat (4 * n),
        srcN := src + UInt32.ofNat (4 * n) + (TYPE_WIDTH - shift), srcWord := srcWord' } := by
  induction n generalizing mem dst src srcWord with
  | zero =>
    have hzero : ∀ a : UInt32, a + UInt32.ofNat (4 * 0) = a := UInt32.add_zero
    rw [copied_zero, hzero, hzero]
    exact ⟨srcWord, rfl⟩
  | succ n ih =>
    rw [Nat.mul_succ, Nat.add_comm (4 * n)] at hahead ⊢
    have hrest : Ahead (dst + 4) (src + 4) (4 * n) := hahead.shift
    obtain ⟨hword, hnext⟩ := CP_INCR_SH_eq hpos hshift hahead hheld
    obtain ⟨srcWord', hrounds⟩ := ih hrest hnext
    have hcopied := copied_copied mem hahead
    simp only [UInt32.reduceOfNat] at hcopied
    have hsrc : src + (TYPE_WIDTH - shift) + 4 = src + 4 + (TYPE_WIDTH - shift) := by
      rw [UInt32.add_assoc, UInt32.add_comm _ 4, UInt32.add_assoc]
    refine ⟨srcWord', ?_⟩
    simp only [while_dec, CP_INCR_SH, hword]
    rw [TYPE_WIDTH] at hrounds hsrc ⊢
    rw [hsrc, hrounds, hcopied, UInt32.ofNat_add, ← UInt32.add_assoc, ← UInt32.add_assoc]
    rfl

theorem CP_SH_eight (shl shr : UInt32) (c : Shifted) :
    { CP_SH 7 shl shr (CP_SH 6 shl shr (CP_SH 5 shl shr (CP_SH 4 shl shr (CP_SH 3 shl shr
        (CP_SH 2 shl shr (CP_SH 1 shl shr (CP_SH 0 shl shr c))))))) with
      toWords := INC_INDEX 8 (CP_SH 7 shl shr (CP_SH 6 shl shr (CP_SH 5 shl shr (CP_SH 4 shl shr
        (CP_SH 3 shl shr (CP_SH 2 shl shr (CP_SH 1 shl shr (CP_SH 0 shl shr c)))))))).toWords } =
      while_dec (CP_INCR_SH shl shr) 8 c := by
  simp only [while_dec, CP_INCR_SH, CP_SH, INC_INDEX, TYPE_WIDTH, UInt32.add_assoc, UInt32.reduceMul,
    UInt32.reduceAdd, UInt32.add_zero]

/-- Aligned down, an address loses its low bits. -/
theorem align_down (a : UInt32) : a &&& ~~~(TYPE_WIDTH - 1) = a - (a &&& (TYPE_WIDTH - 1)) := by
  have hlow := low_bits a
  have hmask : (~~~(TYPE_WIDTH - 1)).toNat = 2 ^ 32 - 2 ^ 2 := rfl
  have hhigh := and_high_bits a.toNat_lt (k := 2) (by decide)
  have hle : a &&& (TYPE_WIDTH - 1) ≤ a := by
    rw [UInt32.le_iff_toNat_le, hlow]
    exact Nat.mod_le _ _
  rw [← UInt32.toNat_inj, UInt32.toNat_and, hmask, hhigh, UInt32.toNat_sub_of_le _ _ hle, hlow]
  omega

theorem held_first (mem : ByteMem) (hoffset : src &&& (TYPE_WIDTH - 1) = shift) (n : Nat) :
    Held mem src shift (load32 mem (src &&& ~~~(TYPE_WIDTH - 1))) n := by
  intro j hj hle _
  have hback : src - shift + UInt32.ofNat j = src + UInt32.ofNat (j - shift.toNat) := by
    have hlt := src.toNat_lt
    have hlt' := shift.toNat_lt
    rw [← UInt32.toNat_inj]
    simp only [UInt32.toNat_add, UInt32.toNat_sub, UInt32.toNat_ofNat']
    omega
  rw [align_down, hoffset, byte_of_load32 _ _ hj, hback]

theorem COPY_SHIFT_eq {count : UInt32} (hoffset : src &&& (TYPE_WIDTH - 1) = shift) (hpos : 0 < shift)
    (hdst : dst &&& (TYPE_WIDTH - 1) = 0) (hahead : Ahead dst src count.toNat) :
    COPY_SHIFT shift mem dst src count = copied mem dst src count.toNat := by
  have hshift : shift < 4 := by
    have hlow := low_bits src
    have hfour : (4 : UInt32).toNat = 4 := rfl
    rw [UInt32.lt_iff_toNat_lt, ← hoffset, hlow, hfour]
    exact Nat.mod_lt _ (by decide)
  have hwords : Ahead dst src (4 * (count / TYPE_WIDTH).toNat) :=
    hahead.mono (by rw [length_toNat]; omega)
  have hheld := held_first mem hoffset (count / TYPE_WIDTH).toNat
  obtain ⟨srcWord, hrounds⟩ := CP_INCR_SH_rounds hpos hshift hwords hheld
  have hdstN : dst &&& ~~~(TYPE_WIDTH - 1) = dst := by
    rw [align_down, hdst, UInt32.sub_zero]
  have hsrcN : (src &&& ~~~(TYPE_WIDTH - 1)) + TYPE_WIDTH = src + (TYPE_WIDTH - shift) := by
    rw [align_down, hoffset, UInt32.sub_eq_add_neg, UInt32.sub_eq_add_neg, UInt32.add_assoc,
      UInt32.add_comm (-shift)]
  have hback : ∀ a : UInt32, a + (TYPE_WIDTH - shift) + (shift - TYPE_WIDTH) = a := fun a => by
    rw [← UInt32.neg_sub, ← UInt32.sub_eq_add_neg, UInt32.sub_add_cancel]
  rw [COPY_SHIFT]
  simp only [unrolled_eq (CP_SH_eight _ _), hdstN, hsrcN, hrounds, hback]
  exact remaining_eq hahead

end Shifts

section Calls

variable {mem : ByteMem} {dest src count : UInt32}

theorem aligned_iff (a : UInt32) : a &&& (TYPE_WIDTH - 1) = 0 ↔ a.toNat % 4 = 0 := by
  rw [← low_bits, ← UInt32.toNat_inj]
  rfl

/-- The loop copies as many bytes as there are up to the next word of the target. -/
theorem align_dst8_eq {fuel n : Nat} (hn : n = (4 - dest.toNat % 4) % 4) (hfuel : n ≤ fuel) :
    align_dst8 fuel mem dest src count =
      (copy_bytes n mem dest src, dest + UInt32.ofNat n, src + UInt32.ofNat n, count - UInt32.ofNat n) := by
  have hzero : ∀ a : UInt32, a + UInt32.ofNat 0 = a := UInt32.add_zero
  have hnone : count - UInt32.ofNat 0 = count := UInt32.sub_zero count
  induction fuel generalizing mem dest src count n with
  | zero =>
    obtain rfl : n = 0 := Nat.le_zero.mp hfuel
    rw [align_dst8, copy_bytes, hzero, hzero, hnone]
  | succ fuel ih =>
    have haligned := aligned_iff dest
    rw [align_dst8]
    split
    · next hodd =>
      have hmod : dest.toNat % 4 ≠ 0 := mt haligned.mpr hodd
      have hnext : (dest + 1).toNat % 4 = (dest.toNat % 4 + 1) % 4 := by
        rw [UInt32.toNat_add, UInt32.toNat_one]
        omega
      obtain ⟨m, rfl⟩ : ∃ m, n = m + 1 := ⟨n - 1, by omega⟩
      have hshift : ∀ a : UInt32, a + 1 + UInt32.ofNat m = a + UInt32.ofNat (m + 1) := fun a => by
        rw [UInt32.ofNat_add, UInt32.add_comm (UInt32.ofNat m), ← UInt32.add_assoc]
        rfl
      have hcount : count - 1 - UInt32.ofNat m = count - UInt32.ofNat (m + 1) := by
        rw [← UInt32.toNat_inj]
        have hlt := count.toNat_lt
        simp only [UInt32.toNat_sub, UInt32.toNat_ofNat', UInt32.toNat_one]
        omega
      have hm : m = (4 - (dest + 1).toNat % 4) % 4 := by omega
      rw [ih hm (by omega) (UInt32.sub_zero _), copy_bytes, hshift, hshift, hcount]
    · next heven =>
      have hmod := haligned.mp (Decidable.not_not.mp heven)
      obtain rfl : n = 0 := by omega
      rw [copy_bytes, hzero, hzero, hnone]

/-- `memcpy` copies its bytes, however the two ranges are aligned, also to a range that
overlaps the source from below. -/
theorem memcpy_eq (hahead : Ahead dest src count.toNat) :
    memcpy mem dest src count = (dest, copied mem dest src count.toNat) := by
  have height : (8 : UInt32).toNat = 8 := rfl
  have hseven : (7 : UInt32).toNat = 7 := rfl
  rw [memcpy]
  split
  · next hfew =>
    have hle : count ≤ 7 := by
      rw [UInt32.lt_iff_toNat_lt, height] at hfew
      rw [UInt32.le_iff_toNat_le, hseven]
      omega
    rw [COPY_REMAINING_eq hle hahead]
  · next hmany =>
    have hge : 8 ≤ count.toNat := by
      rw [UInt32.lt_iff_toNat_lt, height] at hmany
      omega
    generalize hn : (4 - dest.toNat % 4) % 4 = n
    have hsplit : count.toNat = n + (count - UInt32.ofNat n).toNat := by
      have hlt := count.toNat_lt
      rw [UInt32.toNat_sub, UInt32.toNat_ofNat']
      omega
    have haligned : (dest + UInt32.ofNat n) &&& (TYPE_WIDTH - 1) = 0 := by
      rw [aligned_iff, UInt32.toNat_add, UInt32.toNat_ofNat']
      omega
    rw [align_dst8_eq hn.symm (by omega)]
    rw [hsplit] at hahead ⊢
    rw [copy_bytes_eq (hahead.mono (Nat.le_add_right _ _)), ← copied_copied _ hahead]
    simp only
    split
    · rw [COPY_NO_SHIFT_eq hahead.shift]
    · next hoffset =>
      rw [COPY_SHIFT_eq rfl (UInt32.pos_iff_ne_zero.mpr hoffset) haligned hahead.shift]

/-- `memmove` copies as if the source were read whole before the first byte is written. -/
theorem memmove_eq (hdest : dest.toNat + count.toNat ≤ 2 ^ 32) (hsrc : src.toNat + count.toNat ≤ 2 ^ 32) :
    memmove mem dest src count = (dest, copied mem dest src count.toNat) := by
  have hlt := dest.toNat_lt
  have hlt' := src.toNat_lt
  rw [memmove]
  split
  · next hle =>
    rw [UInt32.le_iff_toNat_le] at hle
    have hahead : Ahead dest src count.toNat := by
      unfold Ahead
      rw [UInt32.toNat_sub]
      omega
    rw [copy_bytes_eq hahead]
  · next hgt =>
    rw [UInt32.le_iff_toNat_le] at hgt
    have hahead : Ahead src dest count.toNat := by
      unfold Ahead
      rw [UInt32.toNat_sub]
      omega
    have hdown := copy_bytes_down_eq mem hahead
    rw [UInt32.ofNat_toNat] at hdown
    rw [hdown]

/-- A byte of the copy is the byte of the source at the same place. -/
theorem copied_apply (mem : ByteMem) (dest src a : UInt32) (n : Nat) :
    copied mem dest src n a = if (a - dest).toNat < n then mem (src + (a - dest)) else mem a := by
  simp only [copied, written, UInt32.ofNat_toNat]

/-- Every byte of memory after `memcpy`. -/
theorem memcpy_bytes (hahead : Ahead dest src count.toNat) :
    (memcpy mem dest src count).1 = dest ∧
      ∀ a, (memcpy mem dest src count).2 a = if (a - dest).toNat < count.toNat then mem (src + (a - dest)) else mem a := by
  rw [memcpy_eq hahead]
  exact ⟨rfl, fun a => copied_apply mem dest src a count.toNat⟩

theorem memcpy_bytes_overlap : (memcpy (fun a => a.toUInt8) 0x101 0x106 21).2 0x110 = 0x15 := by
  have hahead : Ahead 0x101 0x106 (21 : UInt32).toNat := by decide
  exact ((memcpy_bytes hahead).2 0x110).trans (by decide)

/-- Every byte of memory after `memmove`, however the ranges overlap. -/
theorem memmove_bytes (hdest : dest.toNat + count.toNat ≤ 2 ^ 32) (hsrc : src.toNat + count.toNat ≤ 2 ^ 32) :
    (memmove mem dest src count).1 = dest ∧
      ∀ a, (memmove mem dest src count).2 a = if (a - dest).toNat < count.toNat then mem (src + (a - dest)) else mem a := by
  rw [memmove_eq hdest hsrc]
  exact ⟨rfl, fun a => copied_apply mem dest src a count.toNat⟩

theorem memmove_bytes_up : (memmove (fun a => a.toUInt8) 0x103 0x101 9).2 0x108 = 0x06 := by
  have hdest : (0x103 : UInt32).toNat + (9 : UInt32).toNat ≤ 2 ^ 32 := by decide
  have hsrc : (0x101 : UInt32).toNat + (9 : UInt32).toNat ≤ 2 ^ 32 := by decide
  exact ((memmove_bytes hdest hsrc).2 0x108).trans (by decide)

end Calls

end epos.memory
