import Epos.Frame.FirstFit

open epos.bitmap

namespace epos.frame

/-- The test `frame_alloc_in_addr` makes of a zone: it compares only the first address
with the bounds, and reads bits from a truncated index on. -/
def pmzone.Accepts (zone : pmzone) (mem : Memory) (pa nframes : UInt32) : Prop :=
  pa ≥ zone.base ∧ pa < zone.base + zone.limit ∧
    bitmap_none mem zone.bitmap (zone.frame_idx pa) nframes = true

/-- From `pa` on the zone has `nframes` frames, each with a bit. -/
structure pmzone.Reaches (zone : pmzone) (mem : Memory) (pa nframes : UInt32) : Prop where
  start : ∃ i, pa.toNat = zone.base.toNat + i * PAGE_SIZE.toNat
  inside : zone.Holds pa nframes
  tested : (zone.frame_idx pa).toNat + nframes.toNat ≤ (bit_cnt mem zone.bitmap).toNat

/-- And they are free. -/
structure pmzone.Reservable (zone : pmzone) (mem : Memory) (pa nframes : UInt32) : Prop where
  reaches : zone.Reaches mem pa nframes
  free : ∀ i, (zone.frame_idx pa).toNat ≤ i → i < (zone.frame_idx pa).toNat + nframes.toNat →
    bits_of mem zone.bitmap i = false

/-- A granted request is for free frames of one zone, from the address asked for on;
a refused one changes no bit. -/
structure ReservesReported (s : Frames) (pa nframes : UInt32) : Prop where
  granted : (frame_alloc_in_addr s pa nframes).1 ≠ BITMAP_ERROR →
    (frame_alloc_in_addr s pa nframes).1 = pa ∧
      ∃ z ∈ zones, (s.pmzone z).Reservable s.mem pa nframes
  refused : (frame_alloc_in_addr s pa nframes).1 = BITMAP_ERROR →
    ∀ b, bits_of (frame_alloc_in_addr s pa nframes).2.mem b = bits_of s.mem b

theorem pmzone.Accepts.reservable {zone : pmzone} {mem : Memory} {pa nframes : UInt32}
    (haccepts : zone.Accepts mem pa nframes) (hreaches : zone.Reaches mem pa nframes) :
    zone.Reservable mem pa nframes :=
  ⟨hreaches, (bitmap_none_iff ..).mp haccepts.2.2⟩

theorem frame_alloc_in_addr_granted_iff (s : Frames) (pa nframes : UInt32) :
    (frame_alloc_in_addr s pa nframes).1 ≠ BITMAP_ERROR ↔
      pa ≠ BITMAP_ERROR ∧ ∃ z ∈ zones, (s.pmzone z).Accepts s.mem pa nframes := by
  obtain ⟨hfree, haddr⟩ | ⟨hfree, haddr⟩ := frame_alloc_in_addr_spec s pa nframes
  · rw [haddr]
    exact ⟨fun hok => ⟨hok, hfree⟩, fun h => h.1⟩
  · rw [haddr]
    exact ⟨fun hok => absurd rfl hok, fun h => absurd h.2 hfree⟩

theorem frame_alloc_in_addr_granted {s : Frames} {pa nframes : UInt32}
    (hok : (frame_alloc_in_addr s pa nframes).1 ≠ BITMAP_ERROR) :
    (frame_alloc_in_addr s pa nframes).1 = pa := by
  obtain ⟨-, haddr⟩ | ⟨-, haddr⟩ := frame_alloc_in_addr_spec s pa nframes
  · exact haddr
  · exact absurd haddr hok

/-- `frame_alloc_in_addr` reserves what it reports just when every zone that accepts the
request has all its frames from `pa` on, or another zone has them free. -/
theorem frame_alloc_in_addr_reserves_iff (s : Frames) (pa nframes : UInt32) :
    ReservesReported s pa nframes ↔
      (pa ≠ BITMAP_ERROR → ∀ z ∈ zones, (s.pmzone z).Accepts s.mem pa nframes →
        (s.pmzone z).Reaches s.mem pa nframes ∨
        ∃ y ∈ zones, y ≠ z ∧ (s.pmzone y).Reservable s.mem pa nframes) := by
  constructor
  · intro hreserves hpa z hz haccepts
    have hok := (frame_alloc_in_addr_granted_iff s pa nframes).mpr ⟨hpa, z, hz, haccepts⟩
    obtain ⟨-, y, hy, hreservable⟩ := hreserves.granted hok
    by_cases hyz : y = z
    · exact Or.inl (hyz ▸ hreservable.reaches)
    · exact Or.inr ⟨y, hy, hyz, hreservable⟩
  · intro hreaches
    constructor
    · intro hok
      obtain ⟨hpa, z, hz, haccepts⟩ := (frame_alloc_in_addr_granted_iff s pa nframes).mp hok
      refine ⟨frame_alloc_in_addr_granted hok, ?_⟩
      obtain hzone | ⟨y, hy, -, hreservable⟩ := hreaches hpa z hz haccepts
      · exact ⟨z, hz, haccepts.reservable hzone⟩
      · exact ⟨y, hy, hreservable⟩
    · intro _ b
      rw [frame_alloc_in_addr_state]

/-- The zone ends at 0x200000; two frames from 0x1FF000 on are granted. -/
theorem reserved_past_zone :
    (frame_alloc_in_addr one_zone_frames 0x1FF000 2).1 = 0x1FF000 ∧
      ¬ ReservesReported one_zone_frames 0x1FF000 2 := by
  have haddr : (frame_alloc_in_addr one_zone_frames 0x1FF000 2).1 = 0x1FF000 := by
    simp only [one_zone_frames, init_frame, init_frame_entries, init_frame_loop, bitmap_create_in_buf_eq]
    decide +kernel
  refine ⟨haddr, fun hreserves => ?_⟩
  have hok : (frame_alloc_in_addr one_zone_frames 0x1FF000 2).1 ≠ BITMAP_ERROR := by
    rw [haddr]
    decide
  obtain ⟨-, z, hz, hreservable⟩ := hreserves.granted hok
  exact absurd (one_zone_end hz hreservable.reaches.inside) (by decide)

end epos.frame
