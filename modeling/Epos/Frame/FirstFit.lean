import Epos.Bitmap.Refinement
import Epos.Frame.Inside
import Epos.Frame.Partition

open bitarray epos.bitmap

namespace epos.frame

/-- The recorded zones come first. -/
def RecordedFirst (s : Frames) : Prop :=
  ∃ k, (∀ z < k, (s.pmzone z).limit ≠ 0) ∧ ∀ z ∈ zones, k ≤ z → (s.pmzone z).limit = 0

/-- `nframes` bits of zone `z` are clear from bit `i` on. -/
structure Run (s : Frames) (nframes : UInt32) (z i : Nat) : Prop where
  listed : z ∈ zones
  recorded : (s.pmzone z).limit ≠ 0
  inside : i + nframes.toNat ≤ (bit_cnt s.mem (s.pmzone z).bitmap).toNat
  clear : ∀ j, i ≤ j → j < i + nframes.toNat → bits_of s.mem (s.pmzone z).bitmap j = false

/-- No run is in a zone before `z`, or in `z` before bit `i`. -/
structure LeastRun (s : Frames) (nframes : UInt32) (z i : Nat) : Prop where
  run : Run s nframes z i
  zone_least : ∀ y j, Run s nframes y j → z ≤ y
  index_least : ∀ j, Run s nframes z j → i ≤ j

/-- So they do after `init_frame`, whatever is done to memory. -/
theorem recordedFirst_init_frame {s : Frames} {g_ram_zone : Nat → UInt32} {boot : Memory} {brk : UInt32}
    (hzones : s.pmzone = (init_frame brk (.reset g_ram_zone boot)).2.pmzone) : RecordedFirst s := by
  obtain ⟨hrecords, habove⟩ := init_frame_records g_ram_zone boot brk
  rw [← hzones] at hrecords habove
  refine ⟨(recorded g_ram_zone ram_entries).length, fun z hz => ?_, fun z _ hz => habove z hz⟩
  have hget := List.getElem?_eq_getElem hz
  obtain ⟨bitmap, hzone⟩ := hrecords z _ hget
  have hleft := (List.mem_filter.mp (List.mem_of_getElem? hget)).2
  rw [hzone]
  exact of_decide_eq_true hleft

section Runs

variable {s : Frames} {nframes i : UInt32} {z : Nat}

theorem bitmap_none_iff (mem : Memory) (b start cnt : UInt32) : bitmap_none mem b start cnt = true ↔
    ∀ j, start.toNat ≤ j → j < start.toNat + cnt.toNat → bits_of mem b j = false := by
  rw [bitmap_none, bitmap_contains_eq, Bool.not_eq_true', contains_eq_false_iff]
  rfl

theorem Run.exists_firstRun {i : Nat} (hrun : Run s nframes z i) :
    ∃ j : UInt32, j.toNat ≤ i ∧ FirstRun s.mem (s.pmzone z).bitmap nframes j := by
  have hinside := hrun.inside
  have hlt := (bit_cnt s.mem (s.pmzone z).bitmap).toNat_lt
  have hval : (UInt32.ofNat i).toNat = i := by
    rw [UInt32.toNat_ofNat']
    omega
  have hfits : nframes ≤ bit_cnt s.mem (s.pmzone z).bitmap := by
    rw [UInt32.le_iff_toNat_le]
    omega
  have hlast : UInt32.ofNat i ≤ bit_cnt s.mem (s.pmzone z).bitmap - nframes := by
    rw [UInt32.le_iff_toNat_le, UInt32.toNat_sub_of_le _ _ hfits, hval]
    omega
  have hclear : bitmap_none s.mem (s.pmzone z).bitmap (UInt32.ofNat i) nframes = true := by
    rw [bitmap_none_iff, hval]
    exact hrun.clear
  obtain ⟨j, hj, hfirst⟩ := epos.bitmap.exists_firstRun hfits hlast hclear
  exact ⟨j, hval ▸ UInt32.le_iff_toNat_le.mp hj, hfirst⟩

theorem run_of_firstRun (hz : z ∈ zones) (hlimit : (s.pmzone z).limit ≠ 0)
    (hfirst : FirstRun s.mem (s.pmzone z).bitmap nframes i) : Run s nframes z i.toNat := by
  have hinside := UInt32.le_iff_toNat_le.mp hfirst.inside
  have hfits := UInt32.le_iff_toNat_le.mp hfirst.fits
  rw [UInt32.toNat_sub_of_le _ _ hfirst.fits] at hinside
  exact ⟨hz, hlimit, by omega, (bitmap_none_iff ..).mp hfirst.clear⟩

/-- The first fit is the least run. -/
theorem FirstFit.leastRun (hfit : FirstFit s nframes zones z i) : LeastRun s nframes z i.toNat := by
  obtain ⟨before, after, hsplit, hbefore, hlimit, hfirst⟩ := hfit
  have hz : z ∈ zones := by
    rw [hsplit]
    exact List.mem_append_right before List.mem_cons_self
  refine ⟨run_of_firstRun hz hlimit hfirst, fun y j hrun => ?_, fun j hrun => ?_⟩
  · obtain ⟨k, -, hk⟩ := hrun.exists_firstRun
    have hsorted : (before ++ z :: after).Pairwise (· < ·) := by
      rw [← hsplit]
      exact List.pairwise_lt_range'
    have hy := hrun.listed
    rw [hsplit] at hy
    obtain hy | hy := List.mem_append.mp hy
    · exact absurd hk ((hbefore y hy).2 k)
    · cases hy with
      | head => exact Nat.le_refl z
      | tail _ hy =>
        have hafter := (List.pairwise_append.mp hsorted).2.1
        exact Nat.le_of_lt ((List.pairwise_cons.mp hafter).1 y hy)
  · obtain ⟨k, hk, hfirst'⟩ := hrun.exists_firstRun
    rw [hfirst.unique hfirst']
    exact hk

theorem Run.exists_firstFit {j : Nat} (hrec : RecordedFirst s) (hrun : Run s nframes z j) :
    ∃ y i, FirstFit s nframes zones y i := by
  obtain ⟨k, hbelow, habove⟩ := hrec
  have hlt : z < k := by
    by_contra hge
    exact hrun.recorded (habove z hrun.listed (Nat.not_lt.mp hge))
  obtain ⟨i, -, hfirst⟩ := hrun.exists_firstRun
  exact first_fit_of_zone hrun.listed (fun y hy => hbelow y (Nat.lt_of_le_of_lt hy hlt)) ⟨i, hfirst⟩

end Runs

/-- `frame_alloc` returns the frames of the least run, and fails if there is none. Only a
zone that is not page-aligned can have the address that stands for failure. -/
theorem frame_alloc_least_run (s : Frames) (nframes : UInt32) (hrec : RecordedFirst s) :
    ((∃ z i, Run s nframes z i) → ∃ z i, LeastRun s nframes z i ∧
      (frame_alloc s nframes).1 = (s.pmzone z).base + UInt32.ofNat i * PAGE_SIZE) ∧
    ((∀ z i, ¬ Run s nframes z i) → (frame_alloc s nframes).1 = BITMAP_ERROR) ∧
    ((∀ z ∈ zones, (s.pmzone z).limit ≠ 0 → (s.pmzone z).base.toNat % 4096 = 0) →
      ((frame_alloc s nframes).1 = BITMAP_ERROR ↔ ∀ z i, ¬ Run s nframes z i)) := by
  have hfound : ∀ z i, FirstFit s nframes zones z i → LeastRun s nframes z i.toNat ∧
      (frame_alloc s nframes).1 = (s.pmzone z).base + UInt32.ofNat i.toNat * PAGE_SIZE := by
    intro z i hfit
    rw [UInt32.ofNat_toNat]
    exact ⟨hfit.leastRun, frame_alloc_loop_first_fit hfit⟩
  have hnone : (∀ z i, ¬ Run s nframes z i) → (frame_alloc s nframes).1 = BITMAP_ERROR := by
    intro hnone
    by_contra hok
    obtain ⟨z, i, hfit⟩ := exists_first_fit hok
    exact hnone z i.toNat hfit.leastRun.run
  refine ⟨fun ⟨z, j, hrun⟩ => ?_, hnone, fun haligned => ⟨fun herror z j hrun => ?_, hnone⟩⟩
  · obtain ⟨y, i, hfit⟩ := hrun.exists_firstFit hrec
    exact ⟨y, i.toNat, hfound y i hfit⟩
  · obtain ⟨y, i, hfit⟩ := hrun.exists_firstFit hrec
    obtain ⟨hleast, haddr⟩ := hfound y i hfit
    have hbase := haligned y hleast.run.listed hleast.run.recorded
    exact frame_address_ne_error hbase _ (haddr.symm.trans herror)

theorem frame_alloc_least_run_one_zone :
    ((∃ z i, Run one_zone_frames 1 z i) → ∃ z i, LeastRun one_zone_frames 1 z i ∧
      (frame_alloc one_zone_frames 1).1 = (one_zone_frames.pmzone z).base + UInt32.ofNat i * PAGE_SIZE) ∧
    ((∀ z i, ¬ Run one_zone_frames 1 z i) → (frame_alloc one_zone_frames 1).1 = BITMAP_ERROR) ∧
    ((frame_alloc one_zone_frames 1).1 = BITMAP_ERROR ↔ ∀ z i, ¬ Run one_zone_frames 1 z i) := by
  have hzones : one_zone_frames.pmzone = (init_frame 0xC0058000 (.reset one_zone fun _ => 0)).2.pmzone := by
    rw [one_zone_frames]
  obtain ⟨hfound, hnone, hiff⟩ :=
    frame_alloc_least_run one_zone_frames 1 (recordedFirst_init_frame hzones)
  refine ⟨hfound, hnone, hiff fun z hz _ => ?_⟩
  rw [one_zone_recorded z hz]
  split <;> rfl

/-- RAM that ends with the address space, a byte before a page. -/
def top_zone : Nat → UInt32
  | 0 => 0xFFFEFFFF
  | 1 => 0xFFFFFFFF
  | _ => 0

/-- Its frames, the first twelve in use. -/
def top_frames : Frames :=
  (init_frame 0xC0058000 (.reset top_zone fun a => if a = 0xC0058008 then 0xFFF else 0)).2

/-- Frame 12 is free and `frame_alloc` takes it, but its address is 0xFFFFFFFF. -/
theorem top_frame_is_error :
    RecordedFirst top_frames ∧ Run top_frames 1 0 12 ∧ (frame_alloc top_frames 1).1 = BITMAP_ERROR := by
  have hzone : (top_frames.pmzone 0).limit ≠ 0 ∧
      bit_cnt top_frames.mem (top_frames.pmzone 0).bitmap = 16 ∧
      bits_of top_frames.mem (top_frames.pmzone 0).bitmap 12 = false ∧
      (frame_alloc top_frames 1).1 = BITMAP_ERROR := by
    simp only [top_frames, init_frame, init_frame_entries, init_frame_loop, bitmap_create_in_buf_eq]
    decide +kernel
  obtain ⟨hlimit, hcnt, hclear, herror⟩ := hzone
  have hzones : top_frames.pmzone = (init_frame 0xC0058000
      (.reset top_zone fun a => if a = 0xC0058008 then 0xFFF else 0)).2.pmzone := by
    rw [top_frames]
  refine ⟨recordedFirst_init_frame hzones, ⟨by decide, hlimit, ?_, fun j hge hlt => ?_⟩, herror⟩
  · rw [hcnt]
    decide
  · have hj : j = 12 := by
      have hone := UInt32.toNat_one
      omega
    rw [hj]
    exact hclear

end epos.frame
