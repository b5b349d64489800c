import Epos.Frame.Inside
import Mathlib.Order.CompletePartialOrder
import Mathlib.Order.Interval.Set.Disjoint

open epos.bitmap epos.page

namespace epos.frame

/-- The entries of the RAM table. -/
def ram_entries : List Nat := List.range' 0 (RAM_ZONE_LEN / 2) 2

def ram_length (g_ram_zone : Nat → UInt32) (i : Nat) : UInt32 := g_ram_zone (i + 1) - g_ram_zone i

/-- The physical addresses of entry `i` of the RAM table. -/
def ram_range (g_ram_zone : Nat → UInt32) (i : Nat) : Set Nat :=
  Set.Ico (g_ram_zone i).toNat (g_ram_zone (i + 1)).toNat

/-- Those at its start that `init_frame` takes for the bitmap. -/
def bitmap_range (g_ram_zone : Nat → UInt32) (i : Nat) : Set Nat :=
  Set.Ico (g_ram_zone i).toNat ((g_ram_zone i).toNat + (bitmap_room (ram_length g_ram_zone i)).toNat)

def pmzone.range (zone : pmzone) : Set Nat :=
  Set.Ico zone.base.toNat (zone.base.toNat + zone.limit.toNat)

/-- Entry `i` of the RAM table is made of whole pages. -/
structure RamPages (g_ram_zone : Nat → UInt32) (i : Nat) : Prop where
  base_aligned : (g_ram_zone i).toNat % 4096 = 0
  end_aligned : (g_ram_zone (i + 1)).toNat % 4096 = 0
  ordered : g_ram_zone i ≤ g_ram_zone (i + 1)

/-- The bitmap of entry `i` fits into it. -/
def HasRoom (g_ram_zone : Nat → UInt32) (i : Nat) : Prop :=
  bitmap_room (ram_length g_ram_zone i) ≤ ram_length g_ram_zone i

/-- The zone is a part of entry `i`, apart from the bitmap's storage, for which
the entry has room. -/
structure pmzone.PartOf (zone : pmzone) (g_ram_zone : Nat → UInt32) (i : Nat) : Prop where
  inside : zone.range ⊆ ram_range g_ram_zone i
  apart : Disjoint zone.range (bitmap_range g_ram_zone i)
  room : HasRoom g_ram_zone i

/-- The recorded zones are parts of the entries, and disjoint if these are. -/
structure Partitioned (g_ram_zone : Nat → UInt32) (s : Frames) : Prop where
  part : ∀ z ∈ zones, (s.pmzone z).limit ≠ 0 →
    ∃ i ∈ ram_zones g_ram_zone ram_entries, (s.pmzone z).PartOf g_ram_zone i
  disjoint : (ram_zones g_ram_zone ram_entries).Pairwise
      (fun i j => Disjoint (ram_range g_ram_zone i) (ram_range g_ram_zone j)) →
    zones.Pairwise fun y z => Disjoint (s.pmzone y).range (s.pmzone z).range

/-- What is left of entry `i` behind its bitmap, as `init_frame` computes it. -/
def rest_of (g_ram_zone : Nat → UInt32) (i : Nat) (bitmap : UInt32) : pmzone :=
  ⟨g_ram_zone i + bitmap_room (ram_length g_ram_zone i),
    ram_length g_ram_zone i - bitmap_room (ram_length g_ram_zone i), bitmap⟩

/-- The entries of which something is left. -/
def recorded (g_ram_zone : Nat → UInt32) (listed : List Nat) : List Nat :=
  (ram_zones g_ram_zone listed).filter fun i => ram_length g_ram_zone i - bitmap_room (ram_length g_ram_zone i) ≠ 0

section Records

variable {g_ram_zone : Nat → UInt32} {i : Nat}

theorem ram_zones_cons (hlength : ram_length g_ram_zone i ≠ 0) (rest : List Nat) :
    ram_zones g_ram_zone (i :: rest) = i :: ram_zones g_ram_zone rest := by
  rw [ram_zones, List.takeWhile_cons_of_pos]
  · rfl
  · exact decide_eq_true hlength

theorem ram_zones_end (hlength : ram_length g_ram_zone i = 0) (rest : List Nat) :
    ram_zones g_ram_zone (i :: rest) = [] := by
  rw [ram_zones, List.takeWhile_cons_of_neg]
  exact fun hne => of_decide_eq_true hne hlength

theorem recorded_end (hlength : ram_length g_ram_zone i = 0) (rest : List Nat) : recorded g_ram_zone (i :: rest) = [] := by
  rw [recorded, ram_zones_end hlength, List.filter_nil]

theorem recorded_skip (hlength : ram_length g_ram_zone i ≠ 0)
    (hfull : ram_length g_ram_zone i - bitmap_room (ram_length g_ram_zone i) = 0) (rest : List Nat) :
    recorded g_ram_zone (i :: rest) = recorded g_ram_zone rest := by
  rw [recorded, ram_zones_cons hlength, List.filter_cons_of_neg]
  · rfl
  · exact fun hne => of_decide_eq_true hne hfull

theorem recorded_cons (hlength : ram_length g_ram_zone i ≠ 0)
    (hrest : ram_length g_ram_zone i - bitmap_room (ram_length g_ram_zone i) ≠ 0) (rest : List Nat) :
    recorded g_ram_zone (i :: rest) = i :: recorded g_ram_zone rest := by
  rw [recorded, ram_zones_cons hlength, List.filter_cons_of_pos]
  · rfl
  · exact decide_eq_true hrest

theorem init_frame_loop_end {s : Frames} (hlength : ram_length s.g_ram_zone i = 0) (rest : List Nat) (z : Nat) (brk : UInt32) :
    init_frame_loop (i :: rest) z brk s = (brk, s) := by
  rw [init_frame_loop]
  exact if_pos hlength

/-- An entry that its bitmap fills is skipped. -/
theorem init_frame_loop_skip {s : Frames} (hlength : ram_length s.g_ram_zone i ≠ 0)
    (hfull : ram_length s.g_ram_zone i - bitmap_room (ram_length s.g_ram_zone i) = 0)
    (rest : List Nat) (z : Nat) (brk : UInt32) :
    ∃ bitmap, init_frame_loop (i :: rest) z brk s =
      init_frame_loop rest z brk (s.set_pmzone z (rest_of s.g_ram_zone i bitmap)) := by
  refine ⟨(s.pmzone z).bitmap, ?_⟩
  rw [init_frame_loop]
  exact (if_neg hlength).trans (if_pos hfull)

/-- Any other is recorded, with a bitmap that has a bit for each of its pages. -/
theorem init_frame_loop_record {s : Frames} (hlength : ram_length s.g_ram_zone i ≠ 0)
    (hrest : ram_length s.g_ram_zone i - bitmap_room (ram_length s.g_ram_zone i) ≠ 0)
    (rest : List Nat) (z : Nat) (brk : UInt32) :
    ∃ t, t.g_ram_zone = s.g_ram_zone ∧
      t.pmzone = Function.update s.pmzone z (rest_of s.g_ram_zone i brk) ∧
      (∃ flags, t.mem = bitmap_create_in_buf (page_map s.mem brk (s.g_ram_zone i)
        (bitmap_room (ram_length s.g_ram_zone i) / PAGE_SIZE) flags) (ram_length s.g_ram_zone i / PAGE_SIZE) brk) ∧
      init_frame_loop (i :: rest) z brk s =
        init_frame_loop rest (z + 1) (brk + bitmap_room (ram_length s.g_ram_zone i)) t := by
  let length := ram_length s.g_ram_zone i
  let size := bitmap_room length
  let mapped := page_map s.mem brk (s.g_ram_zone i) (size / PAGE_SIZE) (PTE_V ||| PTE_W)
  refine ⟨{ g_ram_zone := s.g_ram_zone
            pmzone := Function.update s.pmzone z (rest_of s.g_ram_zone i brk)
            mem := bitmap_create_in_buf mapped (length / PAGE_SIZE) brk }, rfl, rfl, ⟨_, rfl⟩, ?_⟩
  rw [init_frame_loop]
  exact (if_neg hlength).trans (if_neg hrest)

/-- The loop records what is left of the entries, zone by zone in the order of the table. -/
theorem init_frame_loop_records {s : Frames} {listed : List Nat} {z : Nat} {brk : UInt32} :
    (∀ y < z, (init_frame_loop listed z brk s).2.pmzone y = s.pmzone y) ∧
    (∀ k i, (recorded s.g_ram_zone listed)[k]? = some i →
      ∃ bitmap, (init_frame_loop listed z brk s).2.pmzone (z + k) = rest_of s.g_ram_zone i bitmap) ∧
    ((∀ y ≥ z, (s.pmzone y).limit = 0) → ∀ y ≥ z + (recorded s.g_ram_zone listed).length,
      ((init_frame_loop listed z brk s).2.pmzone y).limit = 0) := by
  induction listed generalizing s z brk with
  | nil => exact ⟨fun _ _ => rfl, fun k i h => (by cases h), fun hzero y hy => hzero y hy⟩
  | cons i rest ih =>
    by_cases hempty : ram_length s.g_ram_zone i = 0
    · rw [init_frame_loop_end hempty, recorded_end hempty]
      exact ⟨fun _ _ => rfl, fun k j h => (by cases h), fun hzero y hy => hzero y hy⟩
    by_cases hfull : ram_length s.g_ram_zone i - bitmap_room (ram_length s.g_ram_zone i) = 0
    · obtain ⟨bitmap, hloop⟩ := init_frame_loop_skip hempty hfull rest z brk
      rw [hloop, recorded_skip hempty hfull]
      obtain ⟨hbelow, hrecords, habove⟩ := @ih (s.set_pmzone z (rest_of s.g_ram_zone i bitmap)) z brk
      refine ⟨fun y hy => ?_, hrecords, fun hzero => habove fun y hy => ?_⟩
      · rw [hbelow y hy]
        exact Function.update_of_ne (Nat.ne_of_lt hy) _ _
      · obtain rfl | hne := eq_or_ne y z
        · simp only [Frames.set_pmzone, Function.update_self, rest_of, hfull]
        · simp only [Frames.set_pmzone, Function.update_of_ne hne, hzero y hy]
    · obtain ⟨t, hram, hzones, -, hloop⟩ := init_frame_loop_record hempty hfull rest z brk
      obtain ⟨hbelow, hrecords, habove⟩ := @ih t (z + 1) (brk + bitmap_room (ram_length s.g_ram_zone i))
      rw [hram] at hrecords habove
      rw [hloop, recorded_cons hempty hfull]
      refine ⟨fun y hy => ?_, fun k j hk => ?_, fun hzero y hy => habove (fun x hx => ?_) y ?_⟩
      · rw [hbelow y (Nat.lt_succ_of_lt hy), hzones, Function.update_of_ne (Nat.ne_of_lt hy)]
      · cases k with
        | zero =>
          obtain rfl := Option.some.inj hk
          refine ⟨brk, ?_⟩
          rw [Nat.add_zero z, hbelow z (Nat.lt_succ_self z), hzones, Function.update_self]
        | succ k =>
          have hsum : z + (k + 1) = z + 1 + k := by omega
          rw [hsum]
          exact hrecords k j hk
      · have hne : x ≠ z := by omega
        rw [hzones, Function.update_of_ne hne]
        exact hzero x (by omega)
      · rw [List.length_cons] at hy
        omega

/-- After `init_frame` the recorded zones come first, one for each entry of which something is left. -/
theorem init_frame_records (g_ram_zone : Nat → UInt32) (boot : Memory) (brk : UInt32) :
    (∀ k i, (recorded g_ram_zone ram_entries)[k]? = some i →
      ∃ bitmap, (init_frame brk (.reset g_ram_zone boot)).2.pmzone k = rest_of g_ram_zone i bitmap) ∧
    ∀ y ≥ (recorded g_ram_zone ram_entries).length,
      ((init_frame brk (.reset g_ram_zone boot)).2.pmzone y).limit = 0 := by
  obtain ⟨-, hrecords, habove⟩ := @init_frame_loop_records (.reset g_ram_zone boot) ram_entries 0 brk
  simp only [Nat.zero_add] at hrecords habove
  exact ⟨hrecords, habove fun _ _ => rfl⟩

theorem recorded_length_le (g_ram_zone : Nat → UInt32) :
    (recorded g_ram_zone ram_entries).length ≤ RAM_ZONE_LEN / 2 := by
  calc (recorded g_ram_zone ram_entries).length
      ≤ (ram_zones g_ram_zone ram_entries).length := List.length_filter_le ..
    _ ≤ ram_entries.length := (List.takeWhile_prefix _).length_le
    _ = RAM_ZONE_LEN / 2 := rfl

end Records

section Parts

variable {g_ram_zone : Nat → UInt32} {i j : Nat}

theorem bitmap_room_eq (length : UInt32) : (bitmap_room length).toNat =
    (8 + 4 * ((length.toNat / 4096 + 31) / 32) + 16384) / 16384 * 16384 := by
  have hlt := length.toNat_lt
  have hfour : (4 : UInt32).toNat = 4 := rfl
  have height : (8 : UInt32).toNat = 8 := rfl
  have hround : (0x4000 : UInt32).toNat = 16384 := rfl
  have hle : (1 : UInt32) ≤ length / PAGE_SIZE + ELEM_BITS := by
    rw [UInt32.le_iff_toNat_le, UInt32.toNat_add, UInt32.toNat_div, PAGE_SIZE_toNat, ELEM_BITS_toNat, UInt32.toNat_one]
    omega
  rw [bitmap_room, PAGE_ROUNDUP_toNat, bitmap_buf_size, byte_cnt, elem_cnt, UInt32.toNat_add, UInt32.toNat_add,
    UInt32.toNat_mul, UInt32.toNat_div, UInt32.toNat_sub_of_le _ _ hle, UInt32.toNat_add, UInt32.toNat_div,
    PAGE_SIZE_toNat, ELEM_BITS_toNat, UInt32.toNat_one, hfour, height, hround]
  omega

theorem ram_length_toNat (hpages : RamPages g_ram_zone i) :
    (ram_length g_ram_zone i).toNat = (g_ram_zone (i + 1)).toNat - (g_ram_zone i).toNat :=
  UInt32.toNat_sub_of_le _ _ hpages.ordered

/-- With room for the bitmap, what is left is a part of the entry. -/
theorem rest_of_part (hpages : RamPages g_ram_zone i) (hroom : HasRoom g_ram_zone i) (bitmap : UInt32) :
    (rest_of g_ram_zone i bitmap).PartOf g_ram_zone i := by
  have hordered := UInt32.le_iff_toNat_le.mp hpages.ordered
  have hlength := ram_length_toNat hpages
  have hle := UInt32.le_iff_toNat_le.mp hroom
  have hend := (g_ram_zone (i + 1)).toNat_lt
  have hlimit : (rest_of g_ram_zone i bitmap).limit.toNat =
      (ram_length g_ram_zone i).toNat - (bitmap_room (ram_length g_ram_zone i)).toNat :=
    UInt32.toNat_sub_of_le _ _ hroom
  have hbase : (rest_of g_ram_zone i bitmap).base.toNat =
      (g_ram_zone i).toNat + (bitmap_room (ram_length g_ram_zone i)).toNat := by
    rw [rest_of, UInt32.toNat_add]
    omega
  refine ⟨?_, ?_, hroom⟩
  · exact Set.Ico_subset_Ico (by omega) (by omega)
  · rw [pmzone.range, bitmap_range, Set.Ico_disjoint_Ico]
    omega

/-- Without room the subtraction wraps, and the zone is too long to be a part of any entry. -/
theorem rest_of_not_part (hpages : RamPages g_ram_zone i) (hlength : ram_length g_ram_zone i ≠ 0)
    (hroom : ¬ HasRoom g_ram_zone i) (bitmap : UInt32) :
    ¬ (rest_of g_ram_zone i bitmap).PartOf g_ram_zone j := by
  rintro ⟨hinside, hapart, -⟩
  have hlow := hpages.base_aligned
  have hhigh := hpages.end_aligned
  have hram := ram_length_toNat hpages
  have hpos : (ram_length g_ram_zone i).toNat ≠ 0 := fun hzero => hlength (UInt32.toNat_inj.mp hzero)
  have hlt := UInt32.lt_iff_toNat_lt.mp (UInt32.not_le.mp hroom)
  have hsize := bitmap_room_eq (ram_length g_ram_zone i)
  have hsize' := bitmap_room_eq (ram_length g_ram_zone j)
  have hend := (g_ram_zone (j + 1)).toNat_lt
  have hlimit : (rest_of g_ram_zone i bitmap).limit.toNat =
      4294967296 + (ram_length g_ram_zone i).toNat - (bitmap_room (ram_length g_ram_zone i)).toNat := by
    rw [rest_of, UInt32.toNat_sub]
    omega
  -- an entry too small for its bitmap has at most three pages, and the bitmap takes four
  have hfour : (bitmap_room (ram_length g_ram_zone i)).toNat = 16384 ∧
      4096 ≤ (ram_length g_ram_zone i).toNat := by omega
  have hnonempty : (rest_of g_ram_zone i bitmap).base.toNat <
      (rest_of g_ram_zone i bitmap).base.toNat + (rest_of g_ram_zone i bitmap).limit.toNat := by omega
  have hbounds := (Set.Ico_subset_Ico_iff hnonempty).mp hinside
  rw [pmzone.range, bitmap_range, Set.Ico_disjoint_Ico] at hapart
  omega

end Parts

/-- `init_frame` makes a partition of the RAM just when every entry has room for its
bitmap; what is left of a smaller one wraps to almost 4 GiB. -/
theorem init_frame_partition_iff (g_ram_zone : Nat → UInt32) (boot : Memory) (brk : UInt32)
    (hram : ∀ i ∈ ram_zones g_ram_zone ram_entries, RamPages g_ram_zone i) :
    Partitioned g_ram_zone (init_frame brk (.reset g_ram_zone boot)).2 ↔
      ∀ i ∈ ram_zones g_ram_zone ram_entries, HasRoom g_ram_zone i := by
  obtain ⟨hrecords, habove⟩ := init_frame_records g_ram_zone boot brk
  have hlength := recorded_length_le g_ram_zone
  have hsub : (recorded g_ram_zone ram_entries).Sublist (ram_zones g_ram_zone ram_entries) :=
    List.filter_sublist
  constructor
  · intro hpart i hi
    by_contra hroom
    have hnonzero : ram_length g_ram_zone i ≠ 0 := by
      have htaken := List.mem_takeWhile_imp hi
      exact of_decide_eq_true htaken
    have hwrapped : ram_length g_ram_zone i - bitmap_room (ram_length g_ram_zone i) ≠ 0 := by
      intro hzero
      have heq := (UInt32.sub_left_inj _).mp (hzero.trans (UInt32.sub_self _).symm)
      exact hroom (UInt32.le_of_eq heq.symm)
    have hrecorded : i ∈ recorded g_ram_zone ram_entries :=
      List.mem_filter.mpr ⟨hi, decide_eq_true hwrapped⟩
    obtain ⟨k, hk⟩ := List.mem_iff_getElem?.mp hrecorded
    obtain ⟨bitmap, hzone⟩ := hrecords k i hk
    have hkz : k ∈ zones := by
      have hlt := (List.getElem?_eq_some_iff.mp hk).1
      exact List.mem_range'_1.mpr ⟨Nat.zero_le k, by omega⟩
    obtain ⟨j, hj, hpartof⟩ := hpart.part k hkz (hzone ▸ hwrapped)
    rw [hzone] at hpartof
    exact rest_of_not_part (hram i hi) hnonzero hroom bitmap hpartof
  · intro hroom
    have hpart : ∀ z i, (recorded g_ram_zone ram_entries)[z]? = some i →
        ((init_frame brk (.reset g_ram_zone boot)).2.pmzone z).PartOf g_ram_zone i := by
      intro z i hz
      obtain ⟨bitmap, hzone⟩ := hrecords z i hz
      have hi := hsub.subset (List.mem_of_getElem? hz)
      rw [hzone]
      exact rest_of_part (hram i hi) (hroom i hi) bitmap
    constructor
    · intro z _ hlimit
      cases hz : (recorded g_ram_zone ram_entries)[z]? with
      | none => exact absurd (habove z (List.getElem?_eq_none_iff.mp hz)) hlimit
      | some i => exact ⟨i, hsub.subset (List.mem_of_getElem? hz), hpart z i hz⟩
    · intro hdisjoint
      have hrest := List.pairwise_iff_getElem.mp (hdisjoint.sublist hsub)
      have hempty : ∀ z, (recorded g_ram_zone ram_entries).length ≤ z →
          ((init_frame brk (.reset g_ram_zone boot)).2.pmzone z).range = ∅ := by
        intro z hz
        rw [pmzone.range, habove z hz]
        exact Set.Ico_self _
      have hsorted : zones.Pairwise (· < ·) := List.pairwise_lt_range'
      apply hsorted.imp
      intro y z hyz
      by_cases hz : z < (recorded g_ram_zone ram_entries).length
      · have hy := hyz.trans hz
        have hy' := hpart y _ (List.getElem?_eq_getElem hy)
        have hz' := hpart z _ (List.getElem?_eq_getElem hz)
        exact (hrest y z hy hz hyz).mono hy'.inside hz'.inside
      · rw [hempty z (Nat.not_lt.mp hz)]
        exact Set.disjoint_empty _

theorem init_frame_partition_one_zone :
    Partitioned one_zone (init_frame 0xC0058000 (.reset one_zone fun _ => 0)).2 ↔
      ∀ i ∈ ram_zones one_zone ram_entries, HasRoom one_zone i :=
  init_frame_partition_iff one_zone (fun _ => 0) 0xC0058000 fun i hi =>
    ⟨(one_zone_ram i hi).base_aligned, (one_zone_ram i hi).end_aligned, (one_zone_ram i hi).ordered⟩

/-- A RAM zone of one page, at 1 MiB. -/
def one_page : Nat → UInt32
  | 0 => 0x100000
  | 1 => 0x101000
  | _ => 0

/-- It is recorded as 0x104000 to 0x101000, of 0xFFFFD000 bytes. -/
theorem one_page_wraps :
    (∀ i ∈ ram_zones one_page ram_entries, RamPages one_page i) ∧
      ¬ Partitioned one_page (init_frame 0xC0058000 (.reset one_page fun _ => 0)).2 := by
  have hlisted : ram_zones one_page ram_entries = [0] := by decide
  constructor
  · rw [hlisted]
    intro i hi
    rw [List.mem_singleton.mp hi]
    constructor <;> decide
  · intro hpart
    have hfirst : (recorded one_page ram_entries)[0]? = some 0 := by decide
    obtain ⟨bitmap, hzone⟩ := (init_frame_records one_page (fun _ => 0) 0xC0058000).1 0 0 hfirst
    have hlimit : (rest_of one_page 0 bitmap).limit ≠ 0 :=
      (by decide : ram_length one_page 0 - bitmap_room (ram_length one_page 0) ≠ 0)
    obtain ⟨j, hj, hpartof⟩ := hpart.part 0 (by decide) (hzone ▸ hlimit)
    rw [hlisted] at hj
    rw [List.mem_singleton.mp hj] at hpartof
    exact absurd hpartof.room (by decide : ¬ bitmap_room (ram_length one_page 0) ≤ ram_length one_page 0)

end epos.frame
