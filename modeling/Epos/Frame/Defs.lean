import Epos.Bitmap

open epos.bitmap epos.page

namespace epos.frame

def RAM_ZONE_LEN : Nat := 2 * 8

/-- A zone of free frames; `bitmap` is the address of its bitmap. -/
structure pmzone where
  base : UInt32
  limit : UInt32
  bitmap : UInt32
deriving DecidableEq

/-- What `frame.c` works on: the RAM found at boot, its own zone array, and memory,
where the bitmaps and the page tables are. -/
structure Frames where
  g_ram_zone : Nat → UInt32
  pmzone : Nat → pmzone
  mem : Memory

/-- Before `init_frame` the zone array is zero; memory holds anything. -/
def Frames.reset (g_ram_zone : Nat → UInt32) (mem : Memory) : Frames :=
  { g_ram_zone, pmzone := fun _ => ⟨0, 0, 0⟩, mem }

def Frames.set_pmzone (s : Frames) (z : Nat) (zone : frame.pmzone) : Frames :=
  { s with pmzone := Function.update s.pmzone z zone }

/-- The loop of `init_frame` from entry `i` on, the next zone to record being `z`. -/
def init_frame_loop : List Nat → Nat → UInt32 → Frames → UInt32 × Frames
  | [], _, brk, s => (brk, s)
  | i :: rest, z, brk, s =>
    if s.g_ram_zone (i + 1) - s.g_ram_zone i = 0 then (brk, s)
    else
      let paddr := s.g_ram_zone i
      let limit := s.g_ram_zone (i + 1) - s.g_ram_zone i
      let bit_cnt := limit / PAGE_SIZE
      let size := PAGE_ROUNDUP (bitmap_buf_size bit_cnt)
      let zone := { s.pmzone z with base := paddr + size, limit := limit - size }
      if zone.limit = 0 then init_frame_loop rest z brk (s.set_pmzone z zone)
      else
        let mem := page_map s.mem brk paddr (size / PAGE_SIZE) (PTE_V ||| PTE_W)
        let mem := bitmap_create_in_buf mem bit_cnt brk
        init_frame_loop rest (z + 1) (brk + size)
          { s.set_pmzone z { zone with bitmap := brk } with mem }

def init_frame (brk : UInt32) (s : Frames) : UInt32 × Frames :=
  init_frame_loop (List.range' 0 (RAM_ZONE_LEN / 2) 2) 0 brk s

theorem init_frame_entries : List.range' 0 (RAM_ZONE_LEN / 2) 2 = 0 :: List.range' 2 7 2 := rfl

/-- The indices the loops over the zone array go through. -/
def zones : List Nat := List.range' 0 (RAM_ZONE_LEN / 2)

def pmzone.frame_idx (zone : pmzone) (pa : UInt32) : UInt32 := (pa - zone.base) / PAGE_SIZE

def frame_alloc_in_addr_loop (s : Frames) (pa nframes : UInt32) : List Nat → UInt32 × Frames
  | [] => (BITMAP_ERROR, s)
  | z :: rest =>
    let zone := s.pmzone z
    if pa ≥ zone.base ∧ pa < zone.base + zone.limit ∧
        bitmap_none s.mem zone.bitmap (zone.frame_idx pa) nframes = true then
      (pa, { s with mem := bitmap_set_multiple s.mem zone.bitmap (zone.frame_idx pa) nframes true })
    else frame_alloc_in_addr_loop s pa nframes rest

def frame_alloc_in_addr (s : Frames) (pa nframes : UInt32) : UInt32 × Frames :=
  frame_alloc_in_addr_loop s pa nframes zones

def frame_alloc_loop (s : Frames) (nframes : UInt32) : List Nat → UInt32 × Frames
  | [] => (BITMAP_ERROR, s)
  | z :: rest =>
    let zone := s.pmzone z
    if zone.limit = 0 then (BITMAP_ERROR, s)
    else
      let idx := bitmap_scan s.mem zone.bitmap 0 nframes false
      if idx ≠ BITMAP_ERROR then
        (zone.base + idx * PAGE_SIZE,
          { s with mem := bitmap_set_multiple s.mem zone.bitmap idx nframes true })
      else frame_alloc_loop s nframes rest

def frame_alloc (s : Frames) (nframes : UInt32) : UInt32 × Frames :=
  frame_alloc_loop s nframes zones

def frame_free_loop (s : Frames) (paddr nframes : UInt32) : List Nat → Frames
  | [] => s
  | z :: rest =>
    let zone := s.pmzone z
    if zone.limit = 0 then s
    else if paddr ≥ zone.base ∧ paddr < zone.base + zone.limit then
      { s with mem := bitmap_set_multiple s.mem zone.bitmap (zone.frame_idx paddr) nframes false }
    else frame_free_loop s paddr nframes rest

def frame_free (s : Frames) (paddr nframes : UInt32) : Frames :=
  frame_free_loop s paddr nframes zones

/-- Zone `z` has no run of `nframes` clear bits, and the search goes on past it. -/
def Full (s : Frames) (nframes : UInt32) (z : Nat) : Prop :=
  (s.pmzone z).limit ≠ 0 ∧ ∀ i, ¬ FirstRun s.mem (s.pmzone z).bitmap nframes i

/-- Of the zones listed, `z` is the first with a run of `nframes` clear bits, and
its first run starts at frame `i`. -/
def FirstFit (s : Frames) (nframes : UInt32) (listed : List Nat) (z : Nat) (i : UInt32) : Prop :=
  ∃ before after, listed = before ++ z :: after ∧ (∀ y ∈ before, Full s nframes y) ∧
    (s.pmzone z).limit ≠ 0 ∧ FirstRun s.mem (s.pmzone z).bitmap nframes i

/-- `pa` lies in one of the zones listed, and there `nframes` bits are clear from its frame on. -/
def FreeAt (s : Frames) (pa nframes : UInt32) (listed : List Nat) : Prop :=
  ∃ z ∈ listed, pa ≥ (s.pmzone z).base ∧ pa < (s.pmzone z).base + (s.pmzone z).limit ∧
    bitmap_none s.mem (s.pmzone z).bitmap ((s.pmzone z).frame_idx pa) nframes = true

/-- No request is recorded: the frame allocator leaves its state as it was. -/
theorem frame_alloc_state (s : Frames) (nframes : UInt32) : (frame_alloc s nframes).2 = s := by
  unfold frame_alloc
  induction zones with
  | nil => rfl
  | cons z rest ih =>
    simp only [frame_alloc_loop, bitmap_set_multiple_eq]
    split
    · rfl
    · split
      · rfl
      · exact ih

theorem frame_alloc_in_addr_state (s : Frames) (pa nframes : UInt32) :
    (frame_alloc_in_addr s pa nframes).2 = s := by
  unfold frame_alloc_in_addr
  induction zones with
  | nil => rfl
  | cons z rest ih =>
    simp only [frame_alloc_in_addr_loop, bitmap_set_multiple_eq]
    split
    · rfl
    · exact ih

theorem frame_free_state (s : Frames) (paddr nframes : UInt32) :
    frame_free s paddr nframes = s := by
  unfold frame_free
  induction zones with
  | nil => rfl
  | cons z rest ih =>
    simp only [frame_free_loop, bitmap_set_multiple_eq]
    split
    · rfl
    · split
      · rfl
      · exact ih

theorem bitmap_scan_full {s : Frames} {nframes : UInt32} {z : Nat} (hfull : Full s nframes z) :
    bitmap_scan s.mem (s.pmzone z).bitmap 0 nframes false = BITMAP_ERROR := by
  obtain hrun | ⟨herror, -⟩ := bitmap_scan_spec s.mem (s.pmzone z).bitmap nframes
  · exact absurd hrun (hfull.2 _)
  · exact herror

theorem bitmap_scan_first {s : Frames} {nframes i : UInt32} {z : Nat}
    (hfirst : FirstRun s.mem (s.pmzone z).bitmap nframes i) :
    bitmap_scan s.mem (s.pmzone z).bitmap 0 nframes false = i := by
  obtain hrun | ⟨-, hnone⟩ := bitmap_scan_spec s.mem (s.pmzone z).bitmap nframes
  · exact hrun.unique hfirst
  · exact absurd hfirst (hnone i)

/-- `frame_alloc` is first fit: it returns the frames at the first fit. -/
theorem frame_alloc_loop_first_fit {s : Frames} {nframes i : UInt32} {listed : List Nat} {z : Nat}
    (hfit : FirstFit s nframes listed z i) :
    (frame_alloc_loop s nframes listed).1 = (s.pmzone z).base + i * PAGE_SIZE := by
  obtain ⟨before, after, rfl, hbefore, hlimit, hfirst⟩ := hfit
  induction before with
  | nil =>
    have hscan := bitmap_scan_first hfirst
    simp only [List.nil_append, frame_alloc_loop, hlimit, ↓reduceIte, hscan, ne_eq,
      hfirst.ne_error, not_false_eq_true]
  | cons y before ih =>
    have hfull := hbefore y List.mem_cons_self
    have hscan := bitmap_scan_full hfull
    simp only [List.cons_append, frame_alloc_loop, hfull.1, ↓reduceIte, hscan, ne_eq, not_true_eq_false]
    exact ih fun x hx => hbefore x (List.mem_cons_of_mem y hx)

/-- Without a fit `frame_alloc` fails. -/
theorem exists_first_fit {s : Frames} {nframes : UInt32} {listed : List Nat}
    (hok : (frame_alloc_loop s nframes listed).1 ≠ BITMAP_ERROR) :
    ∃ z i, FirstFit s nframes listed z i := by
  induction listed with
  | nil => exact absurd rfl hok
  | cons z rest ih =>
    by_cases hlimit : (s.pmzone z).limit = 0
    · simp [frame_alloc_loop, hlimit] at hok
    · obtain hfirst | ⟨herror, hnone⟩ := bitmap_scan_spec s.mem (s.pmzone z).bitmap nframes
      · exact ⟨z, _, [], rest, rfl, by simp, hlimit, hfirst⟩
      · simp only [frame_alloc_loop, hlimit, ↓reduceIte, herror, ne_eq, not_true_eq_false] at hok
        obtain ⟨y, i, before, after, rfl, hbefore, hfit⟩ := ih hok
        refine ⟨y, i, z :: before, after, rfl, fun x hx => ?_, hfit⟩
        cases hx with
        | head => exact ⟨hlimit, hnone⟩
        | tail _ hx => exact hbefore x hx

/-- Some recorded zone has a clear bit, and so has zones before it recorded. -/
def HasFreeFrame (s : Frames) : Prop :=
  ∃ z ∈ zones, (∀ y ≤ z, (s.pmzone y).limit ≠ 0) ∧
    ∃ i < bit_cnt s.mem (s.pmzone z).bitmap, bitmap_test s.mem (s.pmzone z).bitmap i = false

/-- A zone with room makes some zone up to it the first fit. -/
theorem first_fit_of_run {s : Frames} {nframes : UInt32} {before after : List Nat} {z : Nat}
    (hlimit : ∀ y ∈ before ++ [z], (s.pmzone y).limit ≠ 0)
    (hrun : ∃ i, FirstRun s.mem (s.pmzone z).bitmap nframes i) :
    ∃ y i, FirstFit s nframes (before ++ z :: after) y i := by
  induction before with
  | nil =>
    obtain ⟨i, hrun⟩ := hrun
    exact ⟨z, i, [], after, rfl, fun _ h => absurd h List.not_mem_nil, hlimit z (by simp), hrun⟩
  | cons x before ih =>
    obtain hfirst | ⟨-, hnone⟩ := bitmap_scan_spec s.mem (s.pmzone x).bitmap nframes
    · exact ⟨x, _, [], before ++ z :: after, rfl, fun _ h => absurd h List.not_mem_nil,
        hlimit x List.mem_cons_self, hfirst⟩
    · obtain ⟨y, i, front, back, hsplit, hfront, hfit⟩ :=
        ih fun y hy => hlimit y (List.mem_cons_of_mem x hy)
      refine ⟨y, i, x :: front, back, by rw [List.cons_append, hsplit, List.cons_append], ?_, hfit⟩
      intro w hw
      cases hw with
      | head => exact ⟨hlimit x List.mem_cons_self, hnone⟩
      | tail _ hw => exact hfront w hw

/-- If a zone has room and all zones up to it are recorded, there is a first fit. -/
theorem first_fit_of_zone {s : Frames} {nframes : UInt32} {z : Nat} (hz : z ∈ zones)
    (hlimit : ∀ y ≤ z, (s.pmzone y).limit ≠ 0) (hrun : ∃ i, FirstRun s.mem (s.pmzone z).bitmap nframes i) :
    ∃ y i, FirstFit s nframes zones y i := by
  obtain ⟨before, after, hsplit⟩ := List.append_of_mem hz
  have hle : ∀ y ∈ before ++ [z], y ≤ z := by
    intro y hy
    have hsorted : (before ++ z :: after).Pairwise (· < ·) := by
      rw [← hsplit]
      decide
    obtain hy | hy := List.mem_append.mp hy
    · exact Nat.le_of_lt ((List.pairwise_append.mp hsorted).2.2 y hy z List.mem_cons_self)
    · exact Nat.le_of_eq (List.mem_singleton.mp hy)
  rw [hsplit]
  exact first_fit_of_run (fun y hy => hlimit y (hle y hy)) hrun

theorem HasFreeFrame.first_fit {s : Frames} (hfree : HasFreeFrame s) :
    ∃ z i, FirstFit s 1 zones z i := by
  obtain ⟨z, hz, hlimit, i, hi, hclear⟩ := hfree
  apply first_fit_of_zone hz hlimit
  have hlt := UInt32.lt_iff_toNat_lt.mp hi
  have hfits : 1 ≤ bit_cnt s.mem (s.pmzone z).bitmap := by
    rw [UInt32.le_iff_toNat_le, UInt32.toNat_one]
    omega
  have hinside : i ≤ bit_cnt s.mem (s.pmzone z).bitmap - 1 := by
    rw [UInt32.le_iff_toNat_le, UInt32.toNat_sub_of_le _ _ hfits, UInt32.toNat_one]
    omega
  have hnone : bitmap_none s.mem (s.pmzone z).bitmap i 1 = true := by
    have hrange : List.range' 0 (1 : UInt32).toNat = [0] := rfl
    have hzero : i + UInt32.ofNat 0 = i := UInt32.add_zero i
    simp only [bitmap_none, bitmap_contains, hrange, List.any_cons, List.any_nil, hzero, hclear]
    rfl
  obtain ⟨j, -, hrun⟩ := exists_firstRun hfits hinside hnone
  exact ⟨j, hrun⟩

/-- `frame_alloc_in_addr` returns the address asked for if it is free, and fails otherwise. -/
theorem frame_alloc_in_addr_spec (s : Frames) (pa nframes : UInt32) :
    (FreeAt s pa nframes zones ∧ (frame_alloc_in_addr s pa nframes).1 = pa) ∨
      (¬ FreeAt s pa nframes zones ∧ (frame_alloc_in_addr s pa nframes).1 = BITMAP_ERROR) := by
  unfold frame_alloc_in_addr
  induction zones with
  | nil => exact .inr ⟨by simp [FreeAt], rfl⟩
  | cons z rest ih =>
    simp only [frame_alloc_in_addr_loop, FreeAt, List.mem_cons, exists_eq_or_imp]
    split
    · next hz => exact .inl ⟨.inl hz, rfl⟩
    · next hz =>
      obtain ⟨hfree, heq⟩ | ⟨hfree, heq⟩ := ih
      · exact .inl ⟨.inr hfree, heq⟩
      · exact .inr ⟨fun h => h.elim hz hfree, heq⟩

end epos.frame
