import Epos.Frame.Defs
import Epos.Lib.Run
import Mathlib.Data.Set.Insert
import Mathlib.Order.CompletePartialOrder
import Mathlib.Order.Interval.Set.Disjoint

open runs epos.bitmap

namespace epos.frame

/-- An allocation as its owner knows it. -/
structure Allocation where
  paddr : UInt32
  nframes : UInt32
deriving DecidableEq

/-- The physical addresses of the frames of an allocation. -/
def Allocation.range (a : Allocation) : Set Nat :=
  Set.Ico a.paddr.toNat (a.paddr.toNat + a.nframes.toNat * PAGE_SIZE.toNat)

inductive Op where
  | alloc (nframes : UInt32)
  | alloc_in_addr (pa nframes : UInt32)
  | free (paddr nframes : UInt32)

/-- The frame allocator and the allocations made from it that are still live. -/
structure System where
  frames : Frames
  live : List Allocation

/-- A request that succeeded is live from now on. -/
def System.granted (sys : System) (result : UInt32 × Frames) (nframes : UInt32) : System :=
  { frames := result.2,
    live := if result.1 = BITMAP_ERROR then sys.live else ⟨result.1, nframes⟩ :: sys.live }

def System.step (sys : System) : Op → System
  | .alloc nframes => sys.granted (frame_alloc sys.frames nframes) nframes
  | .alloc_in_addr pa nframes => sys.granted (frame_alloc_in_addr sys.frames pa nframes) nframes
  | .free paddr nframes =>
    { frames := frame_free sys.frames paddr nframes, live := sys.live.erase ⟨paddr, nframes⟩ }

/-- Only live allocations are freed. -/
def System.Enabled (sys : System) : Op → Prop
  | .free paddr nframes => ⟨paddr, nframes⟩ ∈ sys.live
  | _ => True

def System.boot (g_ram_zone : Nat → UInt32) (mem : Memory) (brk : UInt32) : System :=
  { frames := (init_frame brk (.reset g_ram_zone mem)).2, live := [] }

/-- No frame belongs to two live allocations. -/
def System.NoOverlap (sys : System) : Prop :=
  sys.live.Pairwise fun a b => Disjoint a.range b.range

/-- No live allocation reaches into the frames from `paddr` on. -/
def System.Untouched (sys : System) (paddr nframes : UInt32) : Prop :=
  ∀ a ∈ sys.live, Disjoint (Allocation.mk paddr nframes).range a.range

/-- The request is for frames not in use. `frame_alloc` always names the same
frames: its first fit in the bitmaps as `init_frame` left them. -/
def AsksForUnused (start : Frames) (sys : System) : Op → Prop
  | .alloc nframes => ∀ z i, FirstFit start nframes zones z i →
      (start.pmzone z).base + i * PAGE_SIZE ≠ BITMAP_ERROR →
      sys.Untouched ((start.pmzone z).base + i * PAGE_SIZE) nframes
  | .alloc_in_addr pa nframes => FreeAt start pa nframes zones → pa ≠ BITMAP_ERROR →
      sys.Untouched pa nframes
  | .free _ _ => True

/-- No operation changes a zone or a bit. -/
theorem step_frames (sys : System) (op : Op) : (sys.step op).frames = sys.frames := by
  cases op with
  | alloc nframes => exact frame_alloc_state sys.frames nframes
  | alloc_in_addr pa nframes => exact frame_alloc_in_addr_state sys.frames pa nframes
  | free paddr nframes => exact frame_free_state sys.frames paddr nframes

/-- A granted request keeps the allocations disjoint exactly if it touches none of them. -/
theorem noOverlap_granted {sys : System} (hlive : sys.NoOverlap) (result : UInt32 × Frames)
    (nframes : UInt32) :
    (sys.granted result nframes).NoOverlap ↔
      (result.1 ≠ BITMAP_ERROR → sys.Untouched result.1 nframes) := by
  by_cases herror : result.1 = BITMAP_ERROR
  · simp only [System.NoOverlap, System.granted, herror, ↓reduceIte, ne_eq, not_true_eq_false,
      false_implies, iff_true]
    exact hlive
  · simp only [System.NoOverlap, System.granted, herror, ↓reduceIte, List.pairwise_cons, ne_eq,
      not_false_eq_true, forall_const]
    exact ⟨fun h => h.1, fun h => ⟨h, hlive⟩⟩

theorem noOverlap_step {start : Frames} {sys : System} (hframes : sys.frames = start)
    (hlive : sys.NoOverlap) (op : Op) :
    (sys.step op).NoOverlap ↔ AsksForUnused start sys op := by
  subst hframes
  cases op with
  | alloc nframes =>
    rw [System.step, noOverlap_granted hlive]
    constructor
    · intro huntouched z i hfit hok
      have haddr := frame_alloc_loop_first_fit hfit
      rw [← haddr] at hok ⊢
      exact huntouched hok
    · intro hunused hok
      obtain ⟨z, i, hfit⟩ := exists_first_fit hok
      have haddr := frame_alloc_loop_first_fit hfit
      rw [frame_alloc, haddr] at hok ⊢
      exact hunused z i hfit hok
  | alloc_in_addr pa nframes =>
    rw [System.step, noOverlap_granted hlive]
    obtain ⟨hfree, haddr⟩ | ⟨hfree, haddr⟩ := frame_alloc_in_addr_spec sys.frames pa nframes
    · rw [haddr]
      exact ⟨fun huntouched _ hok => huntouched hok, fun hunused hok => hunused hfree hok⟩
    · rw [haddr]
      exact ⟨fun _ h => absurd h hfree, fun _ hok => absurd rfl hok⟩
  | free paddr nframes =>
    have hkept : (sys.step (.free paddr nframes)).NoOverlap :=
      hlive.sublist List.erase_sublist
    exact ⟨fun _ => trivial, fun _ => hkept⟩

/-- Whatever the zones and the memory at boot, the live allocations of a run
stay disjoint if and only if every request of the run is for frames not in use
when it is made: the allocator itself keeps nobody out. -/
theorem frames_disjoint_iff (g_ram_zone : Nat → UInt32) (mem : Memory) (brk : UInt32)
    (acts : List Op)
    (hacts : AllSteps System.step System.Enabled (.boot g_ram_zone mem brk) acts) :
    Always System.step System.NoOverlap (.boot g_ram_zone mem brk) acts ↔
      AllSteps System.step (AsksForUnused (System.boot g_ram_zone mem brk).frames)
        (.boot g_ram_zone mem brk) acts :=
  always_iff_allSteps (fun sys => sys.frames = (System.boot g_ram_zone mem brk).frames)
    System.NoOverlap
    (fun sys op hframes _ => (step_frames sys op).trans hframes)
    (fun _ op hframes hlive _ => noOverlap_step hframes hlive op)
    rfl List.Pairwise.nil hacts

theorem free_live (sys : System) (paddr nframes : UInt32) :
    (sys.step (.free paddr nframes)).live = sys.live.erase ⟨paddr, nframes⟩ :=
  rfl

/-- RAM as `init_ram` publishes it. -/
def init_ram : Nat → UInt32
  | 0 => 0x61000
  | 1 => 0x1FFFFFFF
  | _ => 0

theorem first_frame_of_boot :
    (frame_alloc (System.boot init_ram (fun _ => 0) 0xC0058000).frames 1).1 = 0x65000 := by
  simp only [System.boot, init_frame, init_frame_entries, init_frame_loop, bitmap_create_in_buf_eq]
  decide +kernel

theorem second_frame_of_boot :
    (frame_alloc_in_addr (System.boot init_ram (fun _ => 0) 0xC0058000).frames 0x66000 1).1 = 0x66000 := by
  simp only [System.boot, init_frame, init_frame_entries, init_frame_loop, bitmap_create_in_buf_eq]
  decide +kernel

theorem first_live_of_boot :
    ((System.boot init_ram (fun _ => 0) 0xC0058000).step (.alloc 1)).live = [⟨0x65000, 1⟩] := by
  simp only [System.step, System.granted, first_frame_of_boot]
  rfl

theorem two_live_of_boot :
    (((System.boot init_ram (fun _ => 0) 0xC0058000).step (.alloc 1)).step (.alloc_in_addr 0x66000 1)).live =
      [⟨0x66000, 1⟩, ⟨0x65000, 1⟩] := by
  generalize hone : (System.boot init_ram (fun _ => 0) 0xC0058000).step (.alloc 1) = one
  have hframes : one.frames = (System.boot init_ram (fun _ => 0) 0xC0058000).frames := by
    rw [← hone, step_frames]
  have hlive := first_live_of_boot
  rw [hone] at hlive
  simp only [System.step, System.granted, hframes, second_frame_of_boot, hlive]
  rfl

/-- After boot the frames at 0x65000 and 0x66000 are in use at once, and the first
is given back and asked for again. -/
theorem frames_disjoint_two_live :
    Always System.step System.NoOverlap (.boot init_ram (fun _ => 0) 0xC0058000)
      [.alloc 1, .alloc_in_addr 0x66000 1, .free 0x65000 1, .alloc 1] := by
  have htwo := two_live_of_boot
  have hcut : [Allocation.mk 0x66000 1, ⟨0x65000, 1⟩].erase ⟨0x65000, 1⟩ = [⟨0x66000, 1⟩] := by decide
  have hfreed : ⟨0x65000, 1⟩ ∈
      (((System.boot init_ram (fun _ => 0) 0xC0058000).step (.alloc 1)).step (.alloc_in_addr 0x66000 1)).live := by
    rw [htwo]
    exact List.mem_cons_of_mem _ List.mem_cons_self
  apply (frames_disjoint_iff init_ram (fun _ => 0) 0xC0058000
    [.alloc 1, .alloc_in_addr 0x66000 1, .free 0x65000 1, .alloc 1] ⟨trivial, trivial, hfreed, trivial, trivial⟩).mpr
  refine ⟨?_, ?_, trivial, ?_, trivial⟩
  · intro z i _ _ a ha
    cases ha
  · intro _ _ a ha
    rw [first_live_of_boot, List.mem_singleton] at ha
    rw [ha, Allocation.range, Allocation.range, Set.Ico_disjoint_Ico]
    decide
  · intro z i hfit _ a ha
    have haddr := frame_alloc_loop_first_fit hfit
    have hfirst := first_frame_of_boot
    rw [frame_alloc, haddr] at hfirst
    rw [free_live, htwo, hcut, List.mem_singleton] at ha
    rw [hfirst, ha, Allocation.range, Allocation.range, Set.Ico_disjoint_Ico]
    decide

theorem alloc_live {sys : System} {nframes : UInt32}
    (hok : (frame_alloc sys.frames nframes).1 ≠ BITMAP_ERROR) :
    (sys.step (.alloc nframes)).live = ⟨(frame_alloc sys.frames nframes).1, nframes⟩ :: sys.live := by
  simp only [System.step, System.granted, hok, ↓reduceIte]

theorem Allocation.paddr_mem_range (paddr : UInt32) {nframes : UInt32} (hcount : nframes ≠ 0) :
    paddr.toNat ∈ (Allocation.mk paddr nframes).range := by
  have hpos : nframes.toNat ≠ 0 := fun h => hcount (UInt32.toNat_inj.mp h)
  simp only [range, Set.mem_Ico, PAGE_SIZE_toNat]
  omega

/-- Two requests for the same number of frames get the same frames. -/
theorem two_allocs_overlap {sys : System} {nframes : UInt32} (hcount : nframes ≠ 0)
    (hok : (frame_alloc sys.frames nframes).1 ≠ BITMAP_ERROR) :
    ¬ ((sys.step (.alloc nframes)).step (.alloc nframes)).NoOverlap := by
  have hfirst := alloc_live hok
  have hagain : (frame_alloc (sys.step (.alloc nframes)).frames nframes).1 =
      (frame_alloc sys.frames nframes).1 := by
    rw [step_frames]
  have hsecond := alloc_live (hagain ▸ hok)
  intro hnone
  rw [System.NoOverlap, hsecond, hagain, hfirst, List.pairwise_cons] at hnone
  have hsame := hnone.1 _ List.mem_cons_self
  have hmem := Allocation.paddr_mem_range (frame_alloc sys.frames nframes).1 hcount
  exact Set.disjoint_left.mp hsame hmem hmem

/-- Two calls of `frame_alloc(1)` after boot both return the frame at 0x65000. -/
theorem frame_handed_out_twice :
    AllSteps System.step System.Enabled (.boot init_ram (fun _ => 0) 0xC0058000)
        [.alloc 1, .alloc 1] ∧
      ¬ Always System.step System.NoOverlap (.boot init_ram (fun _ => 0) 0xC0058000)
        [.alloc 1, .alloc 1] := by
  refine ⟨⟨trivial, trivial, trivial⟩, fun halways => ?_⟩
  have hok : (frame_alloc (System.boot init_ram (fun _ => 0) 0xC0058000).frames 1).1 ≠
      BITMAP_ERROR := by
    rw [first_frame_of_boot]
    decide
  exact two_allocs_overlap (by decide) hok halways.2.2

end epos.frame
