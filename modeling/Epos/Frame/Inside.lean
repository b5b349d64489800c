import Epos.Frame.Defs
import Mathlib.Data.List.TakeWhile

open epos.bitmap

namespace epos.frame

/-- The entries of the RAM table that `init_frame` goes through. -/
def ram_zones (g_ram_zone : Nat → UInt32) (listed : List Nat) : List Nat :=
  listed.takeWhile fun i => g_ram_zone (i + 1) - g_ram_zone i ≠ 0

/-- What `init_frame` takes from a zone of RAM for the bitmap of the zone. -/
def bitmap_room (ram : UInt32) : UInt32 := PAGE_ROUNDUP (bitmap_buf_size (ram / PAGE_SIZE))

/-- Entry `i` of the RAM table is a page-aligned zone with room for its bitmap. -/
structure RamZone (g_ram_zone : Nat → UInt32) (i : Nat) : Prop where
  base_aligned : (g_ram_zone i).toNat % 4096 = 0
  end_aligned : (g_ram_zone (i + 1)).toNat % 4096 = 0
  ordered : g_ram_zone i ≤ g_ram_zone (i + 1)
  room : bitmap_room (g_ram_zone (i + 1) - g_ram_zone i) ≤ g_ram_zone (i + 1) - g_ram_zone i

/-- A recorded zone is page-aligned and does not go past the end of memory. -/
structure pmzone.Sound (zone : pmzone) : Prop where
  aligned : zone.base.toNat % 4096 = 0
  inside : zone.base.toNat + zone.limit.toNat < 2 ^ 32

theorem bitmap_room_toNat (ram : UInt32) : (bitmap_room ram).toNat % 4096 = 0 := by
  rw [bitmap_room, PAGE_ROUNDUP_toNat]
  omega

theorem sound_of_ramZone {g_ram_zone : Nat → UInt32} {i : Nat} (hram : RamZone g_ram_zone i)
    (bitmap : UInt32) :
    pmzone.Sound ⟨g_ram_zone i + bitmap_room (g_ram_zone (i + 1) - g_ram_zone i),
      g_ram_zone (i + 1) - g_ram_zone i - bitmap_room (g_ram_zone (i + 1) - g_ram_zone i), bitmap⟩ := by
  have hsize := bitmap_room_toNat (g_ram_zone (i + 1) - g_ram_zone i)
  have hroom := UInt32.le_iff_toNat_le.mp hram.room
  have hlength := UInt32.toNat_sub_of_le _ _ hram.ordered
  have hlimit := UInt32.toNat_sub_of_le _ _ hram.room
  have hordered := UInt32.le_iff_toNat_le.mp hram.ordered
  have hend := (g_ram_zone (i + 1)).toNat_lt
  have haligned := hram.base_aligned
  constructor
  · simp only [UInt32.toNat_add]
    omega
  · simp only [UInt32.toNat_add]
    omega

/-- Every zone that `init_frame` records is sound. -/
theorem init_frame_loop_sound {s : Frames} {listed : List Nat} {z : Nat} {brk : UInt32}
    (hram : ∀ i ∈ ram_zones s.g_ram_zone listed, RamZone s.g_ram_zone i)
    (hsound : ∀ y, (s.pmzone y).Sound) (y : Nat) :
    ((init_frame_loop listed z brk s).2.pmzone y).Sound := by
  induction listed generalizing s z brk with
  | nil => exact hsound y
  | cons i rest ih =>
    rw [init_frame_loop]
    by_cases hempty : s.g_ram_zone (i + 1) - s.g_ram_zone i = 0
    · rw [if_pos hempty]
      exact hsound y
    · have hlisted : ram_zones s.g_ram_zone (i :: rest) = i :: ram_zones s.g_ram_zone rest := by
        rw [ram_zones, List.takeWhile_cons_of_pos]
        · rfl
        · exact decide_eq_true hempty
      rw [hlisted] at hram
      have hzone := sound_of_ramZone (hram i List.mem_cons_self)
      have hrest := fun j hj => hram j (List.mem_cons_of_mem i hj)
      have hkept : ∀ zone : pmzone, zone.Sound → ∀ x, ((s.set_pmzone z zone).pmzone x).Sound := by
        intro zone hnew x
        simp only [Frames.set_pmzone]
        by_cases hx : x = z
        · rw [hx, Function.update_self]
          exact hnew
        · rw [Function.update_of_ne hx]
          exact hsound x
      rw [if_neg hempty]
      simp only []
      split
      · exact ih hrest (hkept _ (hzone _))
      · exact ih hrest (hkept _ (hzone _))

/-- `nframes` frames from `pa` on are inside the zone, in exact arithmetic. -/
def pmzone.Holds (zone : pmzone) (pa nframes : UInt32) : Prop :=
  zone.base.toNat ≤ pa.toNat ∧
    pa.toNat + nframes.toNat * PAGE_SIZE.toNat ≤ zone.base.toNat + zone.limit.toNat

/-- `nframes` frames from frame `i` of the zone on end with the zone or before. -/
def pmzone.RunInside (zone : pmzone) (i nframes : UInt32) : Prop :=
  (i * PAGE_SIZE).toNat + nframes.toNat * PAGE_SIZE.toNat ≤ zone.limit.toNat

theorem pmzone.Sound.holds_iff {zone : pmzone} (hsound : zone.Sound) {i nframes : UInt32}
    (hpos : nframes ≠ 0) :
    zone.Holds (zone.base + i * PAGE_SIZE) nframes ↔ zone.RunInside i nframes := by
  have hinside := hsound.inside
  have hoffset := (i * PAGE_SIZE).toNat_lt
  have hnframes : nframes.toNat ≠ 0 := fun hzero => hpos (UInt32.toNat_inj.mp hzero)
  rw [pmzone.Holds, pmzone.RunInside, UInt32.toNat_add, PAGE_SIZE_toNat]
  constructor
  · rintro ⟨hge, hle⟩
    omega
  · intro hrun
    omega

theorem frame_address_ne_error {zone : pmzone} (haligned : zone.base.toNat % 4096 = 0) (i : UInt32) :
    zone.base + i * PAGE_SIZE ≠ BITMAP_ERROR := by
  intro herror
  have hnat := congrArg UInt32.toNat herror
  rw [UInt32.toNat_add, UInt32.toNat_mul, PAGE_SIZE_toNat, BITMAP_ERROR_toNat] at hnat
  omega

/-- Frames as `init_frame` records the zones, with any contents of the bitmaps. -/
def after_init (g_ram_zone : Nat → UInt32) (boot mem : Memory) (brk : UInt32) : Frames :=
  { (init_frame brk (.reset g_ram_zone boot)).2 with mem }

/-- What `frame_alloc` returns is inside one of the zones. -/
def AllocInside (s : Frames) (nframes : UInt32) : Prop :=
  (frame_alloc s nframes).1 ≠ BITMAP_ERROR →
    ∃ z ∈ zones, (s.pmzone z).Holds (frame_alloc s nframes).1 nframes

/-- One zone of RAM, from 1 MiB to 2 MiB. -/
def one_zone : Nat → UInt32
  | 0 => 0x100000
  | 1 => 0x200000
  | _ => 0

theorem one_zone_ram :
    ∀ i ∈ ram_zones one_zone (List.range' 0 (RAM_ZONE_LEN / 2) 2), RamZone one_zone i := by
  have hlisted : ram_zones one_zone (List.range' 0 (RAM_ZONE_LEN / 2) 2) = [0] := by decide
  rw [hlisted]
  intro i hi
  rw [List.mem_singleton.mp hi]
  constructor <;> decide

/-- The frames of that zone after `init_frame`. -/
def one_zone_frames : Frames := (init_frame 0xC0058000 (.reset one_zone fun _ => 0)).2

theorem one_zone_recorded :
    ∀ z ∈ zones, one_zone_frames.pmzone z = if z = 0 then ⟨0x104000, 0xFC000, 0xC0058000⟩ else ⟨0, 0, 0⟩ := by
  simp only [one_zone_frames, init_frame, init_frame_entries, init_frame_loop, bitmap_create_in_buf_eq]
  decide +kernel

theorem one_zone_end {z : Nat} (hz : z ∈ zones) {pa nframes : UInt32}
    (hholds : (one_zone_frames.pmzone z).Holds pa nframes) :
    pa.toNat + nframes.toNat * PAGE_SIZE.toNat ≤ 0x200000 := by
  rw [one_zone_recorded z hz] at hholds
  refine hholds.2.trans ?_
  split <;> decide

end epos.frame
