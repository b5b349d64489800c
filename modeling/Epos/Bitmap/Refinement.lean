import Epos.Bitmap
import Epos.Lib.BitArray
import Mathlib.Data.List.Find

open words bitarray

namespace epos.bitmap

/-- The array of bits a bitmap stands for, bit by bit as `bitmap_test` reads it. -/
def bits_of (mem : Memory) (b : UInt32) : Bits := fun i => bitmap_test mem b (UInt32.ofNat i)

section Reads

variable (mem : Memory) (b start cnt : UInt32) (value : Bool)

theorem start_add (i : Nat) : start + UInt32.ofNat i = UInt32.ofNat (start.toNat + i) := by
  rw [UInt32.ofNat_add, UInt32.ofNat_toNat]

theorem bitmap_test_eq (idx : UInt32) : bitmap_test mem b idx = bits_of mem b idx.toNat := by
  rw [bits_of, UInt32.ofNat_toNat]

theorem bitmap_contains_eq :
    bitmap_contains mem b start cnt value =
      contains (bits_of mem b) start.toNat cnt.toNat value := by
  have hrange : List.range' start.toNat cnt.toNat =
      (List.range' 0 cnt.toNat).map (start.toNat + ·) := by
    rw [List.map_add_range', Nat.add_zero]
  rw [bitmap_contains, contains, hrange, List.any_map]
  simp only [start_add, bits_of, Function.comp_def]

theorem foldl_count (test : Nat → Bool) (l : List Nat) (value_cnt : UInt32) :
    l.foldl (fun value_cnt i => if test i = true then value_cnt + 1 else value_cnt) value_cnt =
      value_cnt + UInt32.ofNat (l.countP test) := by
  induction l generalizing value_cnt with
  | nil => exact (UInt32.add_zero value_cnt).symm
  | cons i l ih =>
    rw [List.foldl_cons, ih, List.countP_cons]
    split
    · rw [UInt32.ofNat_add, UInt32.add_assoc, UInt32.add_comm 1]
      rfl
    · rw [Nat.add_zero]

/-- The count never wraps. -/
theorem bitmap_count_eq :
    (bitmap_count mem b start cnt value).toNat =
      count (bits_of mem b) start.toNat cnt.toNat value := by
  have hrange : List.range' start.toNat cnt.toNat =
      (List.range' 0 cnt.toNat).map (start.toNat + ·) := by
    rw [List.map_add_range', Nat.add_zero]
  have hle := List.countP_le_length (p := fun i => bits_of mem b (start.toNat + i) == value)
    (l := List.range' 0 cnt.toNat)
  rw [List.length_range'] at hle
  have hlt := cnt.toNat_lt
  rw [bitmap_count, foldl_count, UInt32.zero_add, count, hrange, List.countP_map]
  simp only [start_add, Function.comp_def, bits_of] at hle ⊢
  rw [UInt32.toNat_ofNat']
  omega

/-- `bitmap_scan` finds the first group, wherever it starts from. -/
theorem bitmap_scan_eq :
    bitmap_scan mem b start cnt value =
      match first_group (bit_cnt mem b).toNat (bits_of mem b) start.toNat cnt.toNat value with
      | some i => UInt32.ofNat i
      | none => BITMAP_ERROR := by
  rw [bitmap_scan]
  by_cases hfits : cnt ≤ bit_cnt mem b
  · have hle := UInt32.le_iff_toNat_le.mp hfits
    have hlast := UInt32.toNat_sub_of_le _ _ hfits
    have hrange : (bit_cnt mem b - cnt).toNat + 1 - start.toNat =
        (bit_cnt mem b).toNat + 1 - cnt.toNat - start.toNat := by omega
    have hfind : (List.range' start.toNat ((bit_cnt mem b - cnt).toNat + 1 - start.toNat)).find?
        (fun i => !bitmap_contains mem b (UInt32.ofNat i) cnt (!value)) =
        first_group (bit_cnt mem b).toNat (bits_of mem b) start.toNat cnt.toNat value := by
      rw [first_group, hrange]
      apply List.find?_congr
      intro i hi
      have hbounds := List.mem_range'_1.mp hi
      have hlt := (bit_cnt mem b).toNat_lt
      have hval : (UInt32.ofNat i).toNat = i := by
        rw [UInt32.toNat_ofNat']
        omega
      rw [bitmap_contains_eq, hval]
    simp only [if_pos hfits, hfind]
    rfl
  · have hlt : (bit_cnt mem b).toNat + 1 - cnt.toNat - start.toNat = 0 := by
      rw [UInt32.le_iff_toNat_le] at hfits
      omega
    rw [if_neg hfits, first_group, hlt]
    rfl

end Reads

/-- Seen through `bitmap_test`, `bitmap_count` and `bitmap_contains`, the bitmap
at `b` has `n` bits and these are the bits of `f`. -/
structure Shows (mem : Memory) (b : UInt32) (n : Nat) (f : Bits) : Prop where
  size : (bit_cnt mem b).toNat = n
  test : ∀ idx : UInt32, idx.toNat < n → bitmap_test mem b idx = f idx.toNat
  count : ∀ (start cnt : UInt32) (value : Bool), start.toNat + cnt.toNat ≤ n →
    (bitmap_count mem b start cnt value).toNat = count f start.toNat cnt.toNat value
  contains : ∀ (start cnt : UInt32) (value : Bool), start.toNat + cnt.toNat ≤ n →
    bitmap_contains mem b start cnt value = contains f start.toNat cnt.toNat value

/-- The bits decide what the counts and the searches see. -/
theorem shows_iff (mem : Memory) (b : UInt32) (f : Bits) :
    Shows mem b (bit_cnt mem b).toNat f ↔ Agree (bit_cnt mem b).toNat (bits_of mem b) f := by
  constructor
  · intro hshows i hi
    have hlt := (bit_cnt mem b).toNat_lt
    have hval : (UInt32.ofNat i).toNat = i := by
      rw [UInt32.toNat_ofNat']
      omega
    have htest := hshows.test (UInt32.ofNat i) (by omega)
    rwa [hval] at htest
  · intro hagree
    refine ⟨rfl, ?_, ?_, ?_⟩
    · intro idx hidx
      rw [bitmap_test_eq]
      exact hagree idx.toNat hidx
    · intro start cnt value hfits
      rw [bitmap_count_eq]
      exact hagree.count_eq hfits
    · intro start cnt value hfits
      rw [bitmap_contains_eq]
      exact hagree.contains_eq hfits

/-- The calls that update a bitmap. -/
inductive Update where
  | set (idx : UInt32) (value : Bool)
  | mark (idx : UInt32)
  | reset (idx : UInt32)
  | flip (idx : UInt32)
  | set_multiple (start cnt : UInt32) (value : Bool)
  | scan_and_flip (start cnt : UInt32) (value : Bool)

namespace Update

def run (mem : Memory) (b : UInt32) : Update → Memory
  | set idx value => bitmap_set mem b idx value
  | mark idx => bitmap_mark mem b idx
  | reset idx => bitmap_reset mem b idx
  | flip idx => bitmap_flip mem b idx
  | set_multiple start cnt value => bitmap_set_multiple mem b start cnt value
  | scan_and_flip start cnt value => (bitmap_scan_and_flip mem b start cnt value).2

/-- The assertions of the call hold for a bitmap of `n` bits. -/
def Inside (n : Nat) : Update → Prop
  | set idx _ | mark idx | reset idx | flip idx => idx.toNat < n
  | set_multiple start cnt _ => start.toNat + cnt.toNat ≤ n
  | scan_and_flip start _ _ => start.toNat ≤ n

/-- What the call is for, on an array of `n` bits. -/
def spec (n : Nat) (f : Bits) : Update → Bits
  | set idx value => fill f idx.toNat 1 value
  | mark idx => fill f idx.toNat 1 true
  | reset idx => fill f idx.toNat 1 false
  | flip idx => bitarray.flip f idx.toNat
  | set_multiple start cnt value => fill f start.toNat cnt.toNat value
  | scan_and_flip start cnt value =>
    match first_group n f start.toNat cnt.toNat value with
    | some i => fill f i cnt.toNat (!value)
    | none => f

/-- The bits named already have the values the call is to give them. -/
def Settled (n : Nat) (f : Bits) : Update → Prop
  | set idx value => f idx.toNat = value
  | mark idx => f idx.toNat = true
  | reset idx => f idx.toNat = false
  | flip _ => False
  | set_multiple start cnt value => ∀ i, start.toNat ≤ i → i < start.toNat + cnt.toNat → f i = value
  | scan_and_flip start cnt value =>
    cnt = 0 ∨ ∀ i, start.toNat ≤ i → i + cnt.toNat ≤ n → ∃ j, i ≤ j ∧ j < i + cnt.toNat ∧ f j ≠ value

@[simp] theorem run_eq (mem : Memory) (b : UInt32) (u : Update) : u.run mem b = mem := by
  cases u with
  | set idx value => exact bitmap_set_eq mem b idx value
  | mark idx => rfl
  | reset idx => rfl
  | flip idx => rfl
  | set_multiple start cnt value => exact bitmap_set_multiple_eq mem b start cnt value
  | scan_and_flip start cnt value =>
    simp only [run, bitmap_scan_and_flip, bitmap_set_multiple_eq, ite_self]

/-- The array stays as it is just when the named bits have their values already. -/
theorem agree_spec_iff {n : Nat} {f : Bits} {u : Update} (hinside : u.Inside n) :
    Agree n f (u.spec n f) ↔ u.Settled n f := by
  cases u with
  | set idx value => exact agree_fill_one_iff hinside
  | mark idx => exact agree_fill_one_iff hinside
  | reset idx => exact agree_fill_one_iff hinside
  | flip idx => exact iff_of_false (not_agree_flip hinside) id
  | set_multiple start cnt value => exact agree_fill_iff hinside
  | scan_and_flip start cnt value =>
    rw [spec, Settled, ← first_group_none_iff]
    cases hfound : first_group n f start.toNat cnt.toNat value with
    | none => exact iff_of_true (fun i _ => rfl) (Or.inr rfl)
    | some i =>
      obtain ⟨hge, hfits, hgroup⟩ := first_group_some hfound
      have hzero : cnt.toNat = 0 ↔ cnt = 0 := by
        rw [← UInt32.toNat_inj]
        rfl
      simp only [agree_fill_iff hfits, reduceCtorEq, or_false, ← hzero]
      constructor
      · intro hall
        by_contra hpos
        have hfirst := hall i (Nat.le_refl i) (by omega)
        rw [hgroup i (Nat.le_refl i) (by omega)] at hfirst
        cases value <;> cases hfirst
      · intro hempty j hj hlt
        omega

end Update

/-- The bits of a bitmap made in a buffer are past its two words. -/
theorem buffer_word_ne (block i : UInt32) :
    block + 8 + 4 * elem_idx i ≠ block ∧ block + 8 + 4 * elem_idx i ≠ block + 4 := by
  have hlt := i.toNat_lt
  have helem : (8 + 4 * elem_idx i).toNat = 8 + 4 * (i.toNat / 32) := by
    have hfour : (4 : UInt32).toNat = 4 := rfl
    have height : (8 : UInt32).toNat = 8 := rfl
    rw [UInt32.toNat_add, UInt32.toNat_mul, elem_idx, UInt32.toNat_div, ELEM_BITS_toNat, hfour, height]
    omega
  have hne : ∀ word : UInt32, word.toNat < 8 → block + 8 + 4 * elem_idx i ≠ block + word := by
    intro word hword heq
    rw [UInt32.add_assoc, UInt32.add_right_inj] at heq
    have hnat := congrArg UInt32.toNat heq
    omega
  refine ⟨?_, hne 4 (by decide)⟩
  have hzero := hne 0 (by decide)
  rwa [UInt32.add_zero] at hzero

/-- A bitmap made in a buffer has the bits that were in the buffer. -/
theorem bits_of_create (mem : Memory) (bit_cnt block : UInt32) (i : Nat) :
    bits_of (bitmap_create_in_buf mem bit_cnt block) block i =
      (mem (block + 8 + 4 * elem_idx (UInt32.ofNat i)) &&& bit_mask (UInt32.ofNat i) != 0) := by
  obtain ⟨hcnt, hbits⟩ := buffer_word_ne block (UInt32.ofNat i)
  rw [bits_of, bitmap_test, bitmap_create_in_buf_eq, bits, store_self, store_of_ne hbits,
    store_of_ne hcnt]

theorem bit_cnt_create (mem : Memory) (cnt block : UInt32) :
    bit_cnt (bitmap_create_in_buf mem cnt block) block = cnt := by
  have hne : block ≠ block + 4 := by
    intro heq
    have hzero := UInt32.add_right_inj block |>.mp ((UInt32.add_zero block).trans heq)
    exact absurd hzero (by decide)
  rw [bitmap_create_in_buf_eq, bit_cnt, store_of_ne hne, store_self]

/-- No call stores to the bits, so it does what it is for just when they have the
values already: a bitmap made in a buffer is clear if the buffer was, and an update
is right if it had nothing to change. -/
theorem bitmap_updates_iff (mem : Memory) :
    (∀ bit_cnt block : UInt32,
      Shows (bitmap_create_in_buf mem bit_cnt block) block bit_cnt.toNat (fun _ => false) ↔
        ∀ i < bit_cnt, mem (block + 8 + 4 * elem_idx i) &&& bit_mask i = 0) ∧
    (∀ (b : UInt32) (u : Update), u.Inside (bit_cnt mem b).toNat →
      (Shows (u.run mem b) b (bit_cnt mem b).toNat (u.spec (bit_cnt mem b).toNat (bits_of mem b)) ↔
        u.Settled (bit_cnt mem b).toNat (bits_of mem b))) := by
  constructor
  · intro bit_cnt block
    have hshows := shows_iff (bitmap_create_in_buf mem bit_cnt block) block fun _ => false
    rw [bit_cnt_create] at hshows
    rw [hshows]
    constructor
    · intro hclear i hi
      have hbit := hclear i.toNat (UInt32.lt_iff_toNat_lt.mp hi)
      rw [bits_of_create, UInt32.ofNat_toNat] at hbit
      simpa using hbit
    · intro hclear i hi
      have hlt := bit_cnt.toNat_lt
      have hval : (UInt32.ofNat i).toNat = i := by
        rw [UInt32.toNat_ofNat']
        omega
      rw [bits_of_create, hclear (UInt32.ofNat i) (UInt32.lt_iff_toNat_lt.mpr (by omega))]
      rfl
  · intro b u hinside
    rw [Update.run_eq, shows_iff, Update.agree_spec_iff hinside]

/-- A bitmap of 32 bits at 0xC0090000, with its bits in the word behind it. -/
def one_word (word : UInt32) : Memory := fun a =>
  if a = 0xC0090000 then 32 else if a = 0xC0090004 then 0xC0090008 else if a = 0xC0090008 then word else 0

/-- Marking a bit that is set is right. -/
theorem bitmap_updates_marked :
    Shows ((Update.mark 5).run (one_word 32) 0xC0090000) 0xC0090000 32
      ((Update.mark 5).spec 32 (bits_of (one_word 32) 0xC0090000)) := by
  have hinside : (Update.mark 5).Inside (bit_cnt (one_word 32) 0xC0090000).toNat :=
    (by decide : (5 : UInt32).toNat < 32)
  apply ((bitmap_updates_iff (one_word 32)).2 0xC0090000 (.mark 5) hinside).mpr
  show bits_of (one_word 32) 0xC0090000 5 = true
  decide

/-- With all 32 bits clear, bit 0 is still clear after `bitmap_mark`. -/
theorem mark_lost :
    (∀ i < 32, bits_of (one_word 0) 0xC0090000 i = false) ∧
    ¬ Shows ((Update.mark 0).run (one_word 0) 0xC0090000) 0xC0090000 32
      ((Update.mark 0).spec 32 (bits_of (one_word 0) 0xC0090000)) := by
  refine ⟨by decide, fun hshows => ?_⟩
  exact absurd (hshows.test 0 (by decide)) (by decide)

end epos.bitmap
