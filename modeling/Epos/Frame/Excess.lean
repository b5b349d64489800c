import Epos.Frame.FirstFit

open bitarray words epos.bitmap epos.page

namespace epos.frame

/-- The address is not one of the page tables' words. -/
def OffTables (a : UInt32) : Prop := a.toNat < PT.toNat ∨ PT.toNat + 0x400000 ≤ a.toNat

/-- The pages of entry `i`: the bitmap has a bit for each of them. -/
def pages_of (g_ram_zone : Nat → UInt32) (i : Nat) : Nat := (ram_length g_ram_zone i).toNat / 4096

/-- The pages behind the bitmap: the zone has no others. -/
def pages_left (g_ram_zone : Nat → UInt32) (i : Nat) : Nat :=
  ((ram_length g_ram_zone i).toNat - (bitmap_room (ram_length g_ram_zone i)).toNat) / 4096

section Boot

variable {s : Frames} {listed : List Nat} {z k i : Nat} {a brk : UInt32}

theorem page_map_off_tables (ha : OffTables a) (mem : Memory) (vaddr paddr npages flags : UInt32) :
    page_map mem vaddr paddr npages flags a = mem a := by
  unfold page_map
  induction npages.toNat generalizing mem vaddr paddr with
  | zero => rfl
  | succ n ih =>
    have hne : a ≠ vtopte vaddr := by
      rintro rfl
      have hlt := vaddr.toNat_lt
      have hentry := vtopte_toNat vaddr
      obtain hlow | hhigh := ha <;> omega
    rw [page_map_loop, ih, store_of_ne hne]

theorem bitmap_room_bounds (length : UInt32) : 16384 ≤ (bitmap_room length).toNat ∧ (bitmap_room length).toNat ≤ 0x24000 := by
  have hlt := length.toNat_lt
  have hroom := bitmap_room_eq length
  omega

/-- Only the page tables and the bitmaps are written; the bitmaps are at `brk` and behind. -/
theorem init_frame_loop_mem (ha : OffTables a) (hfar : 0x24000 * listed.length ≤ (a - brk).toNat) :
    (init_frame_loop listed z brk s).2.mem a = s.mem a := by
  induction listed generalizing s z brk with
  | nil => rfl
  | cons i rest ih =>
    rw [List.length_cons] at hfar
    by_cases hempty : ram_length s.g_ram_zone i = 0
    · rw [init_frame_loop_end hempty]
    by_cases hfull : ram_length s.g_ram_zone i - bitmap_room (ram_length s.g_ram_zone i) = 0
    · obtain ⟨bitmap, hloop⟩ := init_frame_loop_skip hempty hfull rest z brk
      have hrest : 0x24000 * rest.length ≤ (a - brk).toNat := by omega
      rw [hloop, ih hrest]
      rfl
    · obtain ⟨t, -, -, ⟨flags, hmem⟩, hloop⟩ := init_frame_loop_record hempty hfull rest z brk
      have hroom := bitmap_room_bounds (ram_length s.g_ram_zone i)
      have hlt := brk.toNat_lt
      have hnext : 0x24000 * rest.length ≤ (a - (brk + bitmap_room (ram_length s.g_ram_zone i))).toNat := by
        rw [UInt32.toNat_sub] at hfar
        rw [UInt32.toNat_sub, UInt32.toNat_add]
        omega
      have hne : ∀ word : UInt32, word.toNat < 8 → a ≠ brk + word := by
        rintro word hword rfl
        rw [UInt32.add_comm, UInt32.add_sub_cancel] at hfar
        omega
      have hfirst := hne 0 (by decide)
      rw [UInt32.add_zero] at hfirst
      rw [hloop, ih hnext, hmem, bitmap_create_in_buf_eq, store_of_ne (hne 4 (by decide)), store_of_ne hfirst,
        page_map_off_tables ha]

/-- The bitmap of each recorded zone has a bit for each page of the zone's entry. -/
theorem init_frame_loop_bit_cnt (hfew : listed.length ≤ 8) (hk : (recorded s.g_ram_zone listed)[k]? = some i)
    (hoff : OffTables ((init_frame_loop listed z brk s).2.pmzone (z + k)).bitmap) :
    bit_cnt (init_frame_loop listed z brk s).2.mem ((init_frame_loop listed z brk s).2.pmzone (z + k)).bitmap =
      ram_length s.g_ram_zone i / PAGE_SIZE := by
  induction listed generalizing s z k brk with
  | nil => cases hk
  | cons j rest ih =>
    rw [List.length_cons] at hfew
    by_cases hempty : ram_length s.g_ram_zone j = 0
    · rw [recorded_end hempty] at hk
      cases hk
    by_cases hfull : ram_length s.g_ram_zone j - bitmap_room (ram_length s.g_ram_zone j) = 0
    · obtain ⟨bitmap, hloop⟩ := init_frame_loop_skip hempty hfull rest z brk
      rw [recorded_skip hempty hfull] at hk
      rw [hloop] at hoff ⊢
      exact ih (Nat.le_of_succ_le hfew) hk hoff
    · obtain ⟨t, hram, hzones, ⟨flags, hmem⟩, hloop⟩ := init_frame_loop_record hempty hfull rest z brk
      rw [recorded_cons hempty hfull] at hk
      rw [hloop] at hoff ⊢
      cases k with
      | zero =>
        cases hk
        obtain ⟨hbelow, -, -⟩ := @init_frame_loop_records t rest (z + 1) (brk + bitmap_room (ram_length s.g_ram_zone i))
        have hzone : ((init_frame_loop rest (z + 1) (brk + bitmap_room (ram_length s.g_ram_zone i)) t).2.pmzone (z + 0)).bitmap =
            brk := by
          rw [Nat.add_zero z, hbelow z (Nat.lt_succ_self z), hzones, Function.update_self]
          rfl
        rw [hzone] at hoff ⊢
        -- the bitmaps that follow do not come round to the header
        have hroom := bitmap_room_bounds (ram_length s.g_ram_zone i)
        have hfar : 0x24000 * rest.length ≤ (brk - (brk + bitmap_room (ram_length s.g_ram_zone i))).toNat := by
          rw [UInt32.toNat_sub, UInt32.toNat_add]
          omega
        rw [bit_cnt, init_frame_loop_mem hoff hfar, hmem]
        exact bit_cnt_create ..
      | succ k =>
        have hsum : z + (k + 1) = z + 1 + k := by omega
        rw [hsum] at hoff ⊢
        rw [← hram] at hk
        have hcnt := ih (Nat.le_of_succ_le hfew) hk hoff
        rw [hram] at hcnt
        exact hcnt

end Boot

/-- `n` bits in a row are clear from bit `i` on. -/
def ClearFrom (f : Bits) (n i : Nat) : Prop := ∀ j, i ≤ j → j < i + n → f j = false

/-- There are `n` clear bits in a row among the first `m`. -/
def HasRun (f : Bits) (n m : Nat) : Prop := ∃ i, i + n ≤ m ∧ ClearFrom f n i

/-- The first of them begin with bit `i`. -/
structure LowestRun (f : Bits) (n m i : Nat) : Prop where
  inside : i + n ≤ m
  clear : ClearFrom f n i
  lowest : ∀ k < i, ¬ ClearFrom f n k

def zone_bits (s : Frames) (z : Nat) : Bits := bits_of s.mem (s.pmzone z).bitmap

/-- Zone `z`, which is what is left of entry `i`, is the first one whose bitmap has `n` clear bits in a row. -/
structure Serves (g_ram_zone : Nat → UInt32) (s : Frames) (n z i : Nat) : Prop where
  entry : (recorded g_ram_zone ram_entries)[z]? = some i
  run : HasRun (zone_bits s z) n (pages_of g_ram_zone i)
  first : ∀ y < z, ∀ j, (recorded g_ram_zone ram_entries)[y]? = some j →
    ¬ HasRun (zone_bits s y) n (pages_of g_ram_zone j)

/-- The frames that the lowest run of zone `z` stands for happen to be those of another zone. -/
def Elsewhere (s : Frames) (nframes : UInt32) (z m : Nat) : Prop :=
  ∃ y ∈ zones, y ≠ z ∧ ∃ k, LowestRun (zone_bits s z) nframes.toNat m k ∧
    (s.pmzone y).Holds ((s.pmzone z).base + UInt32.ofNat k * PAGE_SIZE) nframes

/-- The bitmaps have been put off the page tables. In `mem`, what their bits may be, they are as long as
`init_frame` has made them. -/
structure BitmapsKept (g_ram_zone : Nat → UInt32) (boot : Memory) (brk : UInt32) (mem : Memory) : Prop where
  off_tables : ∀ z i, (recorded g_ram_zone ram_entries)[z]? = some i →
    OffTables ((init_frame brk (.reset g_ram_zone boot)).2.pmzone z).bitmap
  bit_cnt : ∀ z i, (recorded g_ram_zone ram_entries)[z]? = some i →
    bit_cnt mem ((init_frame brk (.reset g_ram_zone boot)).2.pmzone z).bitmap =
      bit_cnt (init_frame brk (.reset g_ram_zone boot)).2.mem ((init_frame brk (.reset g_ram_zone boot)).2.pmzone z).bitmap

/-- The zones and their bitmaps as `init_frame` makes them of the RAM table. -/
structure Booted (g_ram_zone : Nat → UInt32) (s : Frames) : Prop where
  rest : ∀ z i, (recorded g_ram_zone ram_entries)[z]? = some i → ∃ bitmap, s.pmzone z = rest_of g_ram_zone i bitmap
  others : ∀ z ≥ (recorded g_ram_zone ram_entries).length, (s.pmzone z).limit = 0
  bit_cnt : ∀ z i, (recorded g_ram_zone ram_entries)[z]? = some i →
    (bit_cnt s.mem (s.pmzone z).bitmap).toNat = pages_of g_ram_zone i
  sound : ∀ z, (s.pmzone z).Sound

section Requests

variable {g_ram_zone : Nat → UInt32} {s : Frames} {nframes k : UInt32} {z i j : Nat}

theorem after_init_boot (g_ram_zone : Nat → UInt32) (boot : Memory) (brk : UInt32) :
    after_init g_ram_zone boot (init_frame brk (.reset g_ram_zone boot)).2.mem brk =
      (init_frame brk (.reset g_ram_zone boot)).2 := rfl

theorem booted_after_init {boot mem : Memory} {brk : UInt32} (hram : ∀ i ∈ ram_zones g_ram_zone ram_entries, RamZone g_ram_zone i)
    (hkept : BitmapsKept g_ram_zone boot brk mem) : Booted g_ram_zone (after_init g_ram_zone boot mem brk) := by
  obtain ⟨hrecords, habove⟩ := init_frame_records g_ram_zone boot brk
  have hzero : pmzone.Sound ⟨0, 0, 0⟩ := ⟨by decide, by decide⟩
  refine ⟨hrecords, habove, fun z i hz => ?_, init_frame_loop_sound hram fun _ => hzero⟩
  have hcnt := @init_frame_loop_bit_cnt (.reset g_ram_zone boot) ram_entries 0 z i brk (by decide) hz
  rw [Nat.zero_add] at hcnt
  have hmem : epos.bitmap.bit_cnt mem ((init_frame brk (.reset g_ram_zone boot)).2.pmzone z).bitmap =
      ram_length g_ram_zone i / PAGE_SIZE :=
    (hkept.bit_cnt z i hz).trans (hcnt (hkept.off_tables z i hz))
  have hlength := congrArg UInt32.toNat hmem
  rw [UInt32.toNat_div, PAGE_SIZE_toNat] at hlength
  exact hlength

namespace Booted

theorem entry_lt (hz : (recorded g_ram_zone ram_entries)[z]? = some i) : z < (recorded g_ram_zone ram_entries).length :=
  (List.getElem?_eq_some_iff.mp hz).1

theorem limit_ne_zero (hbooted : Booted g_ram_zone s) (hz : (recorded g_ram_zone ram_entries)[z]? = some i) :
    (s.pmzone z).limit ≠ 0 := by
  obtain ⟨bitmap, hzone⟩ := hbooted.rest z i hz
  have hleft := (List.mem_filter.mp (List.mem_of_getElem? hz)).2
  rw [hzone]
  exact of_decide_eq_true hleft

theorem entry_of_limit (hbooted : Booted g_ram_zone s) (hlimit : (s.pmzone z).limit ≠ 0) :
    ∃ i, (recorded g_ram_zone ram_entries)[z]? = some i := by
  cases hz : (recorded g_ram_zone ram_entries)[z]? with
  | none => exact absurd (hbooted.others z (List.getElem?_eq_none_iff.mp hz)) hlimit
  | some i => exact ⟨i, rfl⟩

theorem recordedFirst (hbooted : Booted g_ram_zone s) : RecordedFirst s :=
  ⟨_, fun _ hz => hbooted.limit_ne_zero (List.getElem?_eq_getElem hz), fun z _ hz => hbooted.others z hz⟩

theorem run_iff (hbooted : Booted g_ram_zone s) (hz : (recorded g_ram_zone ram_entries)[z]? = some i) :
    Run s nframes z j ↔ j + nframes.toNat ≤ pages_of g_ram_zone i ∧ ClearFrom (zone_bits s z) nframes.toNat j := by
  have hlt := entry_lt hz
  have hlength := recorded_length_le g_ram_zone
  have hlisted : z ∈ zones := List.mem_range'_1.mpr ⟨Nat.zero_le z, by omega⟩
  rw [← hbooted.bit_cnt z i hz]
  exact ⟨fun hrun => ⟨hrun.inside, hrun.clear⟩, fun h => ⟨hlisted, hbooted.limit_ne_zero hz, h.1, h.2⟩⟩

/-- The zone that the search ends in is the one that serves the request. -/
theorem serves_of_firstFit (hbooted : Booted g_ram_zone s) (hfit : FirstFit s nframes zones z k) :
    ∃ i, Serves g_ram_zone s nframes.toNat z i ∧ LowestRun (zone_bits s z) nframes.toNat (pages_of g_ram_zone i) k.toNat := by
  obtain ⟨hrun, hzone, hindex⟩ := hfit.leastRun
  obtain ⟨i, hz⟩ := hbooted.entry_of_limit hrun.recorded
  obtain ⟨hinside, hclear⟩ := (hbooted.run_iff hz).mp hrun
  refine ⟨i, ⟨hz, ⟨k.toNat, hinside, hclear⟩, fun y hy j hj hearlier => ?_⟩, hinside, hclear, fun l hl hlower => ?_⟩
  · obtain ⟨l, hl⟩ := hearlier
    have hle := hzone y l ((hbooted.run_iff hj).mpr hl)
    omega
  · have hle := hindex l ((hbooted.run_iff hz).mpr ⟨by omega, hlower⟩)
    omega

theorem firstFit_of_serves (hbooted : Booted g_ram_zone s) (hserves : Serves g_ram_zone s nframes.toNat z i) :
    ∃ k, FirstFit s nframes zones z k ∧ LowestRun (zone_bits s z) nframes.toNat (pages_of g_ram_zone i) k.toNat := by
  obtain ⟨l, hl⟩ := hserves.run
  have hrun := (hbooted.run_iff hserves.entry).mpr hl
  obtain ⟨y, k, hfit⟩ := hrun.exists_firstFit hbooted.recordedFirst
  obtain ⟨j, hserves', hlowest⟩ := hbooted.serves_of_firstFit hfit
  have hle := hfit.leastRun.zone_least z l hrun
  obtain hlt | rfl := Nat.lt_or_eq_of_le hle
  · exact absurd hserves'.run (hserves.first y hlt j hserves'.entry)
  · obtain rfl := Option.some.inj (hserves.entry.symm.trans hserves'.entry)
    exact ⟨k, hfit, hlowest⟩

/-- The lowest run ends with the zone or before just when there is a run among the bits of the zone's own pages. -/
theorem runInside_iff (hbooted : Booted g_ram_zone s) (hz : (recorded g_ram_zone ram_entries)[z]? = some i)
    (hram : RamZone g_ram_zone i) (hpos : nframes ≠ 0)
    (hlowest : LowestRun (zone_bits s z) nframes.toNat (pages_of g_ram_zone i) k.toNat) :
    (s.pmzone z).RunInside k nframes ↔ HasRun (zone_bits s z) nframes.toNat (pages_left g_ram_zone i) := by
  obtain ⟨bitmap, hzone⟩ := hbooted.rest z i hz
  have hlength := (ram_length g_ram_zone i).toNat_lt
  have hroom := UInt32.le_iff_toNat_le.mp hram.room
  have hordered := UInt32.le_iff_toNat_le.mp hram.ordered
  have hpages : (ram_length g_ram_zone i).toNat = (g_ram_zone (i + 1)).toNat - (g_ram_zone i).toNat :=
    UInt32.toNat_sub_of_le _ _ hram.ordered
  have hbase := hram.base_aligned
  have hend := hram.end_aligned
  have hsize := bitmap_room_toNat (ram_length g_ram_zone i)
  have hlimit : (s.pmzone z).limit.toNat = (ram_length g_ram_zone i).toNat - (bitmap_room (ram_length g_ram_zone i)).toNat := by
    rw [hzone]
    exact UInt32.toNat_sub_of_le _ _ hram.room
  have hnframes : nframes.toNat ≠ 0 := fun hzero => hpos (UInt32.toNat_inj.mp hzero)
  have hinside := hlowest.inside
  have hsum : (k * PAGE_SIZE).toNat = k.toNat * 4096 := by
    rw [UInt32.toNat_mul, PAGE_SIZE_toNat]
    unfold pages_of at hinside
    omega
  rw [pmzone.RunInside, hsum, hlimit, PAGE_SIZE_toNat]
  constructor
  · intro hrun
    refine ⟨k.toNat, ?_, hlowest.clear⟩
    unfold pages_left
    omega
  · rintro ⟨l, hl, hclear⟩
    have hle : k.toNat ≤ l := Nat.le_of_not_lt fun hlt => hlowest.lowest l hlt hclear
    unfold pages_left at hl
    omega

end Booted

/-- `bit_cnt` counts the pages that the bitmap itself takes. The frames handed out are inside RAM just when the
first zone whose bitmap has the run has it among its own pages too, or the frames behind the zone happen to be
those of another one. -/
theorem frame_alloc_inside_iff (g_ram_zone : Nat → UInt32) (boot mem : Memory) (brk nframes : UInt32) (hpos : nframes ≠ 0)
    (hram : ∀ i ∈ ram_zones g_ram_zone ram_entries, RamZone g_ram_zone i) (hkept : BitmapsKept g_ram_zone boot brk mem) :
    AllocInside (after_init g_ram_zone boot mem brk) nframes ↔
      ∀ z i, Serves g_ram_zone (after_init g_ram_zone boot mem brk) nframes.toNat z i →
        HasRun (zone_bits (after_init g_ram_zone boot mem brk) z) nframes.toNat (pages_left g_ram_zone i) ∨
          Elsewhere (after_init g_ram_zone boot mem brk) nframes z (pages_of g_ram_zone i) := by
  have hbooted := booted_after_init hram hkept
  generalize after_init g_ram_zone boot mem brk = s at hbooted ⊢
  have hzone : ∀ z i, (recorded g_ram_zone ram_entries)[z]? = some i → RamZone g_ram_zone i := fun z i hz =>
    hram i (List.mem_of_mem_filter (List.mem_of_getElem? hz))
  constructor
  · intro hinside z i hserves
    obtain ⟨k, hfit, hlowest⟩ := hbooted.firstFit_of_serves hserves
    have haddr := frame_alloc_loop_first_fit hfit
    rw [AllocInside, frame_alloc, haddr] at hinside
    obtain ⟨y, hy, hholds⟩ := hinside (frame_address_ne_error (hbooted.sound z).aligned k)
    by_cases hyz : y = z
    · rw [hyz, (hbooted.sound z).holds_iff hpos] at hholds
      exact Or.inl ((hbooted.runInside_iff hserves.entry (hzone z i hserves.entry) hpos hlowest).mp hholds)
    · exact Or.inr ⟨y, hy, hyz, k.toNat, hlowest, by rw [UInt32.ofNat_toNat]; exact hholds⟩
  · intro hruns hok
    obtain ⟨z, k, hfit⟩ := exists_first_fit hok
    obtain ⟨i, hserves, hlowest⟩ := hbooted.serves_of_firstFit hfit
    have haddr := frame_alloc_loop_first_fit hfit
    rw [frame_alloc, haddr]
    obtain hrun | ⟨y, hy, -, l, hlowest', hholds⟩ := hruns z i hserves
    · refine ⟨z, hfit.leastRun.run.listed, ((hbooted.sound z).holds_iff hpos).mpr ?_⟩
      exact (hbooted.runInside_iff hserves.entry (hzone z i hserves.entry) hpos hlowest).mpr hrun
    · have hsame : l = k.toNat := by
        refine Nat.le_antisymm (Nat.le_of_not_lt fun hlt => ?_) (Nat.le_of_not_lt fun hlt => ?_)
        · exact hlowest'.lowest _ hlt hlowest.clear
        · exact hlowest.lowest _ hlt hlowest'.clear
      rw [hsame, UInt32.ofNat_toNat] at hholds
      exact ⟨y, hy, hholds⟩

end Requests

theorem one_zone_clear : ∀ j < 252, bits_of one_zone_frames.mem 0xC0058000 j = false := by
  simp only [one_zone_frames, init_frame, init_frame_entries, init_frame_loop, bitmap_create_in_buf_eq]
  decide +kernel

/-- The zone from 1 MiB to 2 MiB has 252 pages behind its bitmap. `frame_alloc(252)` hands them out. -/
theorem frame_alloc_inside_one_zone :
    AllocInside (after_init one_zone (fun _ => 0) one_zone_frames.mem 0xC0058000) 252 ∧
      (frame_alloc (after_init one_zone (fun _ => 0) one_zone_frames.mem 0xC0058000) 252).1 = 0x104000 := by
  have hframes : after_init one_zone (fun _ => 0) one_zone_frames.mem 0xC0058000 = one_zone_frames := by
    rw [one_zone_frames, after_init_boot]
  have hentry : ∀ z i, (recorded one_zone ram_entries)[z]? = some i → z = 0 ∧ i = 0 := by
    have hlisted : recorded one_zone ram_entries = [0] := by decide
    rw [hlisted]
    intro z i hz
    cases z with
    | zero => exact ⟨rfl, (Option.some.inj hz).symm⟩
    | succ z => cases hz
  have hbitmap : (one_zone_frames.pmzone 0).bitmap = 0xC0058000 := by
    rw [one_zone_recorded 0 (by decide)]
    rfl
  have hkept : BitmapsKept one_zone (fun _ => 0) 0xC0058000 one_zone_frames.mem := by
    refine ⟨fun z i hz => ?_, fun _ _ _ => rfl⟩
    rw [(hentry z i hz).1]
    exact hbitmap ▸ Or.inr (by decide)
  have hram : ∀ i ∈ ram_zones one_zone ram_entries, RamZone one_zone i := one_zone_ram
  have hinside := frame_alloc_inside_iff one_zone (fun _ => 0) one_zone_frames.mem 0xC0058000 252 (by decide) hram hkept
  refine ⟨hinside.mpr fun z i hserves => Or.inl ?_, ?_⟩
  · obtain ⟨rfl, rfl⟩ := hentry z i hserves.entry
    have hleft : pages_left one_zone 0 = 252 := by decide
    have hframes_asked : (252 : UInt32).toNat = 252 := by decide
    rw [hframes, hleft, zone_bits, hbitmap, hframes_asked]
    exact ⟨0, Nat.le_refl _, fun j _ hj => one_zone_clear j (by omega)⟩
  · rw [hframes]
    simp only [one_zone_frames, init_frame, init_frame_entries, init_frame_loop, bitmap_create_in_buf_eq]
    decide +kernel

/-- The zone is recorded as 0x104000 to 0x200000; `frame_alloc(256)` hands out
0x104000 to 0x204000. -/
theorem frames_past_zone :
    (frame_alloc one_zone_frames 256).1 = 0x104000 ∧ ¬ AllocInside one_zone_frames 256 := by
  have haddr : (frame_alloc one_zone_frames 256).1 = 0x104000 := by
    simp only [one_zone_frames, init_frame, init_frame_entries, init_frame_loop, bitmap_create_in_buf_eq]
    decide +kernel
  refine ⟨haddr, ?_⟩
  intro hinside
  rw [AllocInside, haddr] at hinside
  obtain ⟨z, hz, hholds⟩ := hinside (by decide)
  exact absurd (one_zone_end hz hholds) (by decide)

end epos.frame
