import Epos.PageTable

open words

namespace epos.page

/-- How far `a` is from the start of the page of `vaddr`, going up and around the end
of the address space. -/
def distance (vaddr a : UInt32) : Nat := (a - PAGE_TRUNCATE vaddr).toNat

/-- The page of `a` is one of `npages` from the page of `vaddr` on. -/
def InPages (vaddr npages a : UInt32) : Prop := distance vaddr a / 4096 < npages.toNat

/-- The loop of both calls: it stores `word k` to the entry of the page `k` pages on. -/
def store_pages (mem : Memory) (vaddr : UInt32) (word : Nat → UInt32) : Nat → Memory
  | 0 => mem
  | npages + 1 =>
    store_pages (store mem (vtopte vaddr) (word 0)) (vaddr + PAGE_SIZE) (fun k => word (k + 1)) npages

theorem page_map_loop_eq (mem : Memory) (vaddr paddr flags : UInt32) (npages : Nat) :
    page_map_loop mem vaddr paddr flags npages =
      store_pages mem vaddr (fun k => paddr + UInt32.ofNat k * PAGE_SIZE ||| flags) npages := by
  induction npages generalizing mem vaddr paddr with
  | zero => rfl
  | succ n ih =>
    have hfirst : paddr + UInt32.ofNat 0 * PAGE_SIZE = paddr := by
      have hzero : UInt32.ofNat 0 = 0 := rfl
      rw [hzero, UInt32.zero_mul, UInt32.add_zero]
    have hrest : ∀ k, paddr + PAGE_SIZE + UInt32.ofNat k * PAGE_SIZE =
        paddr + UInt32.ofNat (k + 1) * PAGE_SIZE := by
      intro k
      rw [UInt32.ofNat_add, UInt32.add_mul, UInt32.add_assoc, UInt32.add_comm PAGE_SIZE]
      rfl
    rw [page_map_loop, ih, store_pages]
    simp only [hfirst, hrest]

theorem page_unmap_loop_eq (mem : Memory) (vaddr : UInt32) (npages : Nat) :
    page_unmap_loop mem vaddr npages = store_pages mem vaddr (fun _ => 0) npages := by
  induction npages generalizing mem vaddr with
  | zero => rfl
  | succ n ih => exact ih (store mem (vtopte vaddr) 0) (vaddr + PAGE_SIZE)

section Distances

variable (vaddr a : UInt32)

theorem distance_lt : distance vaddr a / 4096 < 2 ^ 20 := by
  have hlt := (a - PAGE_TRUNCATE vaddr).toNat_lt
  rw [distance]
  omega

theorem distance_mod : distance vaddr a % 4096 = a.toNat % 4096 := by
  have hlt := vaddr.toNat_lt
  rw [distance, UInt32.toNat_sub, PAGE_TRUNCATE_toNat]
  omega

theorem vtopte_eq_iff : vtopte a = vtopte vaddr ↔ distance vaddr a / 4096 = 0 := by
  have hlt := vaddr.toNat_lt
  have hlt' := a.toNat_lt
  rw [← UInt32.toNat_inj, vtopte_toNat, vtopte_toNat, distance, UInt32.toNat_sub, PAGE_TRUNCATE_toNat]
  omega

/-- From the next page on it is a page less far, except for the page of `vaddr` itself. -/
theorem distance_next : distance (vaddr + PAGE_SIZE) a / 4096 =
    if distance vaddr a / 4096 = 0 then 0xFFFFF else distance vaddr a / 4096 - 1 := by
  have hlt := vaddr.toNat_lt
  have htruncate : PAGE_TRUNCATE (vaddr + PAGE_SIZE) = PAGE_TRUNCATE vaddr + PAGE_SIZE := by
    rw [← UInt32.toNat_inj, PAGE_TRUNCATE_toNat, UInt32.toNat_add, UInt32.toNat_add, PAGE_TRUNCATE_toNat,
      PAGE_SIZE_toNat]
    omega
  have hback : a - (PAGE_TRUNCATE vaddr + PAGE_SIZE) = a - PAGE_TRUNCATE vaddr - PAGE_SIZE := by
    have hlt' := a.toNat_lt
    have hpage' := (PAGE_TRUNCATE vaddr).toNat_lt
    rw [← UInt32.toNat_inj, UInt32.toNat_sub, UInt32.toNat_sub, UInt32.toNat_sub, UInt32.toNat_add, PAGE_SIZE_toNat]
    omega
  have hfar := (a - PAGE_TRUNCATE vaddr).toNat_lt
  rw [distance, distance, htruncate, hback, UInt32.toNat_sub, PAGE_SIZE_toNat]
  split
  · omega
  · omega

end Distances

/-- What the loop leaves at an entry. There are `2 ^ 20`, so it stores to none twice. -/
theorem store_pages_entry (mem : Memory) (vaddr a : UInt32) (word : Nat → UInt32) {npages : Nat}
    (hcount : npages ≤ 2 ^ 20) : store_pages mem vaddr word npages (vtopte a) =
      if distance vaddr a / 4096 < npages then word (distance vaddr a / 4096) else mem (vtopte a) := by
  induction npages generalizing mem vaddr word with
  | zero => rfl
  | succ n ih =>
    have hnext := distance_next vaddr a
    rw [store_pages, ih _ _ _ (by omega), hnext]
    by_cases hhere : distance vaddr a / 4096 = 0
    · have hlast : ¬ 0xFFFFF < n := by omega
      rw [if_pos hhere, if_neg hlast, (vtopte_eq_iff vaddr a).mpr hhere, store_self, hhere,
        if_pos (Nat.zero_lt_succ n)]
    · have hne : vtopte a ≠ vtopte vaddr := fun heq => hhere ((vtopte_eq_iff vaddr a).mp heq)
      have hback : distance vaddr a / 4096 - 1 + 1 = distance vaddr a / 4096 := by omega
      rw [if_neg hhere, hback, store_of_ne hne]
      by_cases hin : distance vaddr a / 4096 < n + 1
      · rw [if_pos hin, if_pos (by omega)]
      · rw [if_neg hin, if_neg (by omega)]

section Calls

variable {mem : Memory} {vaddr paddr npages flags a : UInt32}

theorem page_map_entry (hcount : npages.toNat ≤ 2 ^ 20) (hin : InPages vaddr npages a) :
    page_map mem vaddr paddr npages flags (vtopte a) =
      paddr + UInt32.ofNat (distance vaddr a / 4096) * PAGE_SIZE ||| flags := by
  rw [page_map, page_map_loop_eq, store_pages_entry mem vaddr a _ hcount]
  exact if_pos hin

theorem page_map_other (hcount : npages.toNat ≤ 2 ^ 20) (hout : ¬ InPages vaddr npages a) :
    page_map mem vaddr paddr npages flags (vtopte a) = mem (vtopte a) := by
  rw [page_map, page_map_loop_eq, store_pages_entry mem vaddr a _ hcount]
  exact if_neg hout

theorem page_unmap_entry (hcount : npages.toNat ≤ 2 ^ 20) (hin : InPages vaddr npages a) :
    page_unmap mem vaddr npages (vtopte a) = 0 := by
  rw [page_unmap, page_unmap_loop_eq, store_pages_entry mem vaddr a _ hcount]
  exact if_pos hin

theorem page_unmap_other (hcount : npages.toNat ≤ 2 ^ 20) (hout : ¬ InPages vaddr npages a) :
    page_unmap mem vaddr npages (vtopte a) = mem (vtopte a) := by
  rw [page_unmap, page_unmap_loop_eq, store_pages_entry mem vaddr a _ hcount]
  exact if_neg hout

/-- Through such an entry `vtop` finds the address in the frame. -/
theorem vtop_of_entry {frame : UInt32} (hentry : mem (vtopte a) = frame ||| flags)
    (haligned : frame &&& PAGE_MASK = 0) (hflags : flags < PAGE_SIZE) :
    (vtop mem a).toNat = frame.toNat + a.toNat % 4096 := by
  have hlt := UInt32.lt_iff_toNat_lt.mp hflags
  have hclear : flags &&& ~~~PAGE_MASK = 0 := by
    rw [← UInt32.toNat_inj]
    have htruncated := PAGE_TRUNCATE_toNat flags
    rw [PAGE_TRUNCATE] at htruncated
    rw [htruncated, Nat.div_eq_of_lt (PAGE_SIZE_toNat ▸ hlt), Nat.zero_mul]
    rfl
  have hzero := congrArg UInt32.toNat haligned
  rw [and_PAGE_MASK_toNat] at hzero
  have hlow : (a &&& PAGE_MASK).toNat < 2 ^ 12 := by
    rw [and_PAGE_MASK_toNat]
    exact Nat.mod_lt _ (Nat.two_pow_pos 12)
  rw [vtop, hentry, entry_frame haligned hclear, or_toNat_of_lt hzero hlow, and_PAGE_MASK_toNat]

end Calls

/-- `page_map` maps the pages from that of `vaddr` on to the frames from `paddr` on and
nothing else, and `page_unmap` takes back just that. -/
theorem page_map_unmap (mem : Memory) (vaddr paddr npages flags : UInt32)
    (haligned : paddr &&& PAGE_MASK = 0) (hflags : flags < PAGE_SIZE) (hcount : npages.toNat ≤ 2 ^ 20)
    (hend : paddr.toNat + npages.toNat * PAGE_SIZE.toNat ≤ 2 ^ 32) :
    (∀ a, InPages vaddr npages a →
      (vtop (page_map mem vaddr paddr npages flags) a).toNat = paddr.toNat + distance vaddr a) ∧
    (∀ a, ¬ InPages vaddr npages a →
      page_map mem vaddr paddr npages flags (vtopte a) = mem (vtopte a)) ∧
    (∀ a, InPages vaddr npages a →
      page_unmap (page_map mem vaddr paddr npages flags) vaddr npages (vtopte a) = 0) ∧
    (∀ a, ¬ InPages vaddr npages a →
      page_unmap (page_map mem vaddr paddr npages flags) vaddr npages (vtopte a) =
        page_map mem vaddr paddr npages flags (vtopte a)) := by
  rw [PAGE_SIZE_toNat] at hend
  refine ⟨fun a hin => ?_, fun a => page_map_other hcount, fun a => page_unmap_entry hcount,
    fun a => page_unmap_other hcount⟩
  have hzero := congrArg UInt32.toNat haligned
  have hlt := distance_lt vaddr a
  have hin' : distance vaddr a / 4096 < npages.toNat := hin
  have hframe : (paddr + UInt32.ofNat (distance vaddr a / 4096) * PAGE_SIZE).toNat =
      paddr.toNat + distance vaddr a / 4096 * 4096 := by
    rw [UInt32.toNat_add, UInt32.toNat_mul, UInt32.toNat_ofNat', PAGE_SIZE_toNat]
    omega
  have hframe_aligned : (paddr + UInt32.ofNat (distance vaddr a / 4096) * PAGE_SIZE) &&& PAGE_MASK = 0 := by
    rw [and_PAGE_MASK_toNat] at hzero
    rw [← UInt32.toNat_inj, and_PAGE_MASK_toNat, hframe]
    have hnone : (0 : UInt32).toNat = 0 := rfl
    omega
  have hoffset := distance_mod vaddr a
  rw [vtop_of_entry (page_map_entry hcount hin) hframe_aligned hflags, hframe]
  omega

/-- The last page and the one it wraps around to, mapped from 1 MiB on. -/
theorem page_map_unmap_wrapped :
    (∀ a, InPages 0xFFFFF123 2 a →
      (vtop (page_map (fun _ => 0) 0xFFFFF123 0x100000 2 3) a).toNat =
        (0x100000 : UInt32).toNat + distance 0xFFFFF123 a) ∧
    (∀ a, ¬ InPages 0xFFFFF123 2 a → page_map (fun _ => 0) 0xFFFFF123 0x100000 2 3 (vtopte a) = 0) ∧
    (∀ a, InPages 0xFFFFF123 2 a →
      page_unmap (page_map (fun _ => 0) 0xFFFFF123 0x100000 2 3) 0xFFFFF123 2 (vtopte a) = 0) ∧
    (∀ a, ¬ InPages 0xFFFFF123 2 a →
      page_unmap (page_map (fun _ => 0) 0xFFFFF123 0x100000 2 3) 0xFFFFF123 2 (vtopte a) =
        page_map (fun _ => 0) 0xFFFFF123 0x100000 2 3 (vtopte a)) :=
  page_map_unmap (fun _ => 0) 0xFFFFF123 0x100000 2 3 (by decide) (by decide) (by decide) (by decide)

end epos.page
