import Epos.PageTable
import Mathlib.Data.List.Basic

open words

namespace epos.bitmap

def BITMAP_ERROR : UInt32 := SIZE_MAX
def ELEM_BITS : UInt32 := 32

def elem_idx (bit_idx : UInt32) : UInt32 := bit_idx / ELEM_BITS
def bit_mask (bit_idx : UInt32) : UInt32 := 1 <<< (bit_idx % ELEM_BITS)
def elem_cnt (bit_cnt : UInt32) : UInt32 := (bit_cnt + ELEM_BITS - 1) / ELEM_BITS
def byte_cnt (bit_cnt : UInt32) : UInt32 := 4 * elem_cnt bit_cnt
def bitmap_buf_size (bit_cnt : UInt32) : UInt32 := 8 + byte_cnt bit_cnt

theorem BITMAP_ERROR_toNat : BITMAP_ERROR.toNat = 4294967295 := rfl

theorem ELEM_BITS_toNat : ELEM_BITS.toNat = 32 := rfl

/-! A `struct bitmap` at `b` is two words: the number of bits and where they are. -/

def bit_cnt (mem : Memory) (b : UInt32) : UInt32 := mem b
def bits (mem : Memory) (b : UInt32) : UInt32 := mem (b + 4)

def bitmap_size (mem : Memory) (b : UInt32) : UInt32 := bit_cnt mem b

/-- The `orl` that would store `bits[idx] | mask` is commented out. -/
def bitmap_mark (mem : Memory) (_b bit_idx : UInt32) : Memory :=
  let _idx := elem_idx bit_idx
  let _mask := bit_mask bit_idx
  mem

/-- The `andl` that would store `bits[idx] & ~mask` is commented out. -/
def bitmap_reset (mem : Memory) (_b bit_idx : UInt32) : Memory :=
  let _idx := elem_idx bit_idx
  let _mask := bit_mask bit_idx
  mem

/-- The `xorl` that would store `bits[idx] ^ mask` is commented out. -/
def bitmap_flip (mem : Memory) (_b bit_idx : UInt32) : Memory :=
  let _idx := elem_idx bit_idx
  let _mask := bit_mask bit_idx
  mem

def bitmap_set (mem : Memory) (b idx : UInt32) (value : Bool) : Memory :=
  if value then bitmap_mark mem b idx else bitmap_reset mem b idx

def bitmap_test (mem : Memory) (b idx : UInt32) : Bool :=
  mem (bits mem b + 4 * elem_idx idx) &&& bit_mask idx != 0

def bitmap_set_multiple (mem : Memory) (b start cnt : UInt32) (value : Bool) : Memory :=
  (List.range' 0 cnt.toNat).foldl (fun mem i => bitmap_set mem b (start + UInt32.ofNat i) value) mem

def bitmap_set_all (mem : Memory) (b : UInt32) (value : Bool) : Memory :=
  bitmap_set_multiple mem b 0 (bitmap_size mem b) value

def bitmap_create_in_buf (mem : Memory) (bit_cnt block : UInt32) : Memory :=
  bitmap_set_all (store (store mem block bit_cnt) (block + 4) (block + 8)) block false

def bitmap_count (mem : Memory) (b start cnt : UInt32) (value : Bool) : UInt32 :=
  (List.range' 0 cnt.toNat).foldl
    (fun value_cnt i =>
      if bitmap_test mem b (start + UInt32.ofNat i) == value then value_cnt + 1 else value_cnt) 0

def bitmap_contains (mem : Memory) (b start cnt : UInt32) (value : Bool) : Bool :=
  (List.range' 0 cnt.toNat).any fun i => bitmap_test mem b (start + UInt32.ofNat i) == value

def bitmap_none (mem : Memory) (b start cnt : UInt32) : Bool :=
  !bitmap_contains mem b start cnt true

def bitmap_scan (mem : Memory) (b start cnt : UInt32) (value : Bool) : UInt32 :=
  if cnt ≤ bit_cnt mem b then
    let last := bit_cnt mem b - cnt
    match (List.range' start.toNat (last.toNat + 1 - start.toNat)).find?
        fun i => !bitmap_contains mem b (UInt32.ofNat i) cnt (!value) with
    | some i => UInt32.ofNat i
    | none => BITMAP_ERROR
  else BITMAP_ERROR

def bitmap_scan_and_flip (mem : Memory) (b start cnt : UInt32) (value : Bool) : UInt32 × Memory :=
  let idx := bitmap_scan mem b start cnt value
  if idx ≠ BITMAP_ERROR then (idx, bitmap_set_multiple mem b idx cnt (!value)) else (idx, mem)

@[simp] theorem bitmap_set_eq (mem : Memory) (b idx : UInt32) (value : Bool) :
    bitmap_set mem b idx value = mem := by
  cases value <;> rfl

/-- Setting bits records nothing. -/
@[simp] theorem bitmap_set_multiple_eq (mem : Memory) (b start cnt : UInt32) (value : Bool) :
    bitmap_set_multiple mem b start cnt value = mem := by
  unfold bitmap_set_multiple
  induction List.range' 0 cnt.toNat with
  | nil => rfl
  | cons i rest ih => simpa only [List.foldl_cons, bitmap_set_eq] using ih

/-- So a bitmap made in a buffer has the bits that the buffer happened to hold. -/
theorem bitmap_create_in_buf_eq (mem : Memory) (bit_cnt block : UInt32) :
    bitmap_create_in_buf mem bit_cnt block =
      store (store mem block bit_cnt) (block + 4) (block + 8) := by
  simp only [bitmap_create_in_buf, bitmap_set_all, bitmap_set_multiple_eq]

/-- The first place from bit 0 on where `cnt` bits of `b` are clear. -/
structure FirstRun (mem : Memory) (b cnt i : UInt32) : Prop where
  fits : cnt ≤ bit_cnt mem b
  inside : i ≤ bit_cnt mem b - cnt
  clear : bitmap_none mem b i cnt = true
  first : ∀ j < i, bitmap_none mem b j cnt = false

theorem FirstRun.unique {mem : Memory} {b cnt i j : UInt32}
    (hi : FirstRun mem b cnt i) (hj : FirstRun mem b cnt j) : i = j := by
  obtain hlt | heq | hlt := Nat.lt_trichotomy i.toNat j.toNat
  · have hclear := hj.first i (UInt32.lt_iff_toNat_lt.mpr hlt)
    rw [hi.clear] at hclear
    cases hclear
  · exact UInt32.toNat_inj.mp heq
  · have hclear := hi.first j (UInt32.lt_iff_toNat_lt.mpr hlt)
    rw [hj.clear] at hclear
    cases hclear

/-- A place where `cnt` bits are clear is the first one or has one before it. -/
theorem exists_firstRun {mem : Memory} {b cnt i : UInt32} (hfits : cnt ≤ bit_cnt mem b)
    (hinside : i ≤ bit_cnt mem b - cnt) (hclear : bitmap_none mem b i cnt = true) :
    ∃ j ≤ i, FirstRun mem b cnt j := by
  induction hn : i.toNat using Nat.strongRecOn generalizing i with
  | _ n ih =>
    by_cases hfirst : ∀ j < i, bitmap_none mem b j cnt = false
    · exact ⟨i, UInt32.le_refl i, hfits, hinside, hclear, hfirst⟩
    · obtain ⟨j, hj⟩ := not_forall.mp hfirst
      obtain ⟨hlt, hset⟩ := Classical.not_imp.mp hj
      have hle : j ≤ i := UInt32.le_of_lt hlt
      obtain ⟨k, hk, hrun⟩ := ih j.toNat (hn ▸ UInt32.lt_iff_toNat_lt.mp hlt)
        (UInt32.le_trans hle hinside) (Bool.not_eq_false _ ▸ hset) rfl
      exact ⟨k, UInt32.le_trans hk hle, hrun⟩

/-- A first run never starts at the index that stands for failure. -/
theorem FirstRun.ne_error {mem : Memory} {b cnt i : UInt32} (hi : FirstRun mem b cnt i) :
    i ≠ BITMAP_ERROR := by
  rintro rfl
  have hinside := UInt32.le_iff_toNat_le.mp hi.inside
  rw [UInt32.toNat_sub_of_le _ _ hi.fits] at hinside
  have hcnt : cnt = 0 := by
    rw [← UInt32.toNat_inj]
    have hlt := (bit_cnt mem b).toNat_lt
    rw [BITMAP_ERROR_toNat] at hinside
    rw [UInt32.toNat_zero]
    omega
  subst hcnt
  have hfirst := hi.first 0 (by decide)
  exact absurd hfirst (by simp [bitmap_none, bitmap_contains])

/-- The scan for clear bits finds the first run of them, if there is one. -/
theorem bitmap_scan_spec (mem : Memory) (b cnt : UInt32) :
    FirstRun mem b cnt (bitmap_scan mem b 0 cnt false) ∨
      (bitmap_scan mem b 0 cnt false = BITMAP_ERROR ∧ ∀ i, ¬ FirstRun mem b cnt i) := by
  unfold bitmap_scan
  by_cases hfits : cnt ≤ bit_cnt mem b
  · simp only [hfits, ↓reduceIte, UInt32.toNat_zero, Nat.sub_zero, Bool.not_false]
    have hlast := (bit_cnt mem b - cnt).toNat_lt
    cases hfind : (List.range' 0 ((bit_cnt mem b - cnt).toNat + 1)).find?
        (fun i => !bitmap_contains mem b (UInt32.ofNat i) cnt true) with
    | some i =>
      obtain ⟨hi, hclear, hbefore⟩ := List.find?_range'_eq_some.mp hfind
      have hle : i ≤ (bit_cnt mem b - cnt).toNat := by
        have hmem := List.mem_range'_1.mp hclear
        omega
      have hval : (UInt32.ofNat i).toNat = i := by
        rw [UInt32.toNat_ofNat']
        omega
      refine .inl ⟨hfits, ?_, hi, fun j hj => ?_⟩
      · rw [UInt32.le_iff_toNat_le, hval]
        exact hle
      · have hlt := UInt32.lt_iff_toNat_lt.mp hj
        rw [hval] at hlt
        have hset := hbefore j.toNat (Nat.zero_le _) hlt
        simpa [bitmap_none] using hset
    | none =>
      refine .inr ⟨rfl, fun i hrun => ?_⟩
      have hnone := List.find?_range'_eq_none.mp hfind i.toNat (Nat.zero_le _) (by
        have hinside := UInt32.le_iff_toNat_le.mp hrun.inside
        omega)
      have hclear := hrun.clear
      simp_all [bitmap_none]
  · rw [if_neg hfits]
    exact .inr ⟨rfl, fun i hrun => hfits hrun.fits⟩

end epos.bitmap
