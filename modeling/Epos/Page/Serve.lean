import Epos.Frame.FirstFit
import Epos.Page.Fault
import Epos.Page.Lists

open chains words epos.bitmap epos.frame

namespace epos.page

/-- The zone lists are lists, of any zones. -/
structure Vmspace.Finite (s : Vmspace) : Prop where
  kernel : ∃ ks, s.ChainFrom s.kvmzone ks
  user : ∃ us, s.ChainFrom s.uvmzone us

/-- The entry of `vaddr` names the frame that `frame_alloc` returns, which was free, with
the flags for the zone's protection and the mode, and no other entry is new. -/
structure Installed (s t : Paging) (vaddr code prot : UInt32) : Prop where
  frame : t.mem (vtopte vaddr) &&& ~~~PAGE_MASK = (frame_alloc s.frames 1).1
  free : ∃ z ∈ zones, ∃ i < bit_cnt s.mem (s.frames.pmzone z).bitmap,
    bitmap_test s.mem (s.frames.pmzone z).bitmap i = false ∧
      (frame_alloc s.frames 1).1 = (s.frames.pmzone z).base + i * PAGE_SIZE
  valid : t.mem (vtopte vaddr) &&& PTE_V ≠ 0
  writable : t.mem (vtopte vaddr) &&& PTE_W ≠ 0 ↔ prot &&& VM_PROT_WRITE ≠ 0
  user : t.mem (vtopte vaddr) &&& PTE_U ≠ 0 ↔ vaddr < KERN_MIN_ADDR ∨ code &&& PTE_U ≠ 0
  others : ∀ a, vtopte a ≠ vtopte vaddr → t.mem (vtopte a) = s.mem (vtopte a)

/-- The page with `vaddr` holds no entries. -/
def PageApart (vaddr : UInt32) : Prop := ∀ a, PAGE_TRUNCATE (vtopte a) ≠ PAGE_TRUNCATE vaddr

section Lists

variable {s : Vmspace}

theorem page_prot_returns (hlists : s.Finite) (va : UInt32) : ∃ prot, page_prot s va = some prot := by
  have hsearch : ∀ {p : UInt32} {zones : List UInt32}, s.ChainFrom p zones →
      ∃ prot, s.walk (page_prot_pass s va) (fun _ _ => -1) NULL p () = some prot := by
    intro p zones hchain
    obtain ⟨-, -, prot, -, -, -, hwalk⟩ :=
      hchain.search_rule (chain_length_lt hchain hchain.nodup) (page_prot_pass s va) (fun _ _ => -1)
        (fun _ => True) NULL fun _ _ _ _ => trivial
    exact ⟨prot, hwalk⟩
  obtain ⟨ks, hkernel⟩ := hlists.kernel
  obtain ⟨us, huser⟩ := hlists.user
  rw [page_prot]
  split
  · exact hsearch huser
  · exact hsearch hkernel

end Lists

section Entries

variable {vaddr : UInt32}

/-- Clearing such a page changes no entry. -/
theorem memset_page_entry (hapart : PageApart vaddr) (mem : Memory) (a : UInt32) :
    memset mem (PAGE_TRUNCATE vaddr) PAGE_SIZE (vtopte a) = mem (vtopte a) := by
  rw [memset_page]
  apply stores_of_forall_ne
  intro t ht heq
  apply hapart a
  rw [← UInt32.toNat_inj, heq, PAGE_TRUNCATE_toNat, page_word_toNat vaddr ht, PAGE_TRUNCATE_toNat]
  omega

end Entries

section Flags

variable {vaddr paddr prot code : UInt32}

/-- A flag of an entry is not a bit of the frame. -/
theorem entry_flag (haligned : paddr &&& PAGE_MASK = 0) {x flag : UInt32} (hflag : PAGE_MASK &&& flag = flag) :
    (paddr ||| x) &&& flag = x &&& flag := by
  have hnone : paddr &&& flag = 0 := by
    rw [← hflag, ← UInt32.and_assoc, haligned, UInt32.zero_and]
  rw [or_and, hnone, UInt32.zero_or]

/-- Which flags `do_page_fault` sets. -/
theorem pte_flags_spec (prot code : UInt32) :
    pte_flags prot code &&& ~~~PAGE_MASK = 0 ∧
    (pte_flags prot code &&& PTE_W ≠ 0 ↔ prot &&& VM_PROT_WRITE ≠ 0) ∧
    pte_flags prot code &&& PTE_U = code &&& PTE_U := by
  have hVW : PTE_V &&& PTE_W = 0 := rfl
  have hUW : PTE_U &&& PTE_W = 0 := rfl
  have hWW : PTE_W &&& PTE_W = PTE_W := rfl
  have hVU : PTE_V &&& PTE_U = 0 := rfl
  have hUU : PTE_U &&& PTE_U = PTE_U := rfl
  have hWU : PTE_W &&& PTE_U = 0 := rfl
  have hV : PTE_V &&& ~~~PAGE_MASK = 0 := rfl
  have hU : PTE_U &&& ~~~PAGE_MASK = 0 := rfl
  have hW : PTE_W &&& ~~~PAGE_MASK = 0 := rfl
  rw [pte_flags]
  split
  · next hwrite =>
    simp only [or_and, UInt32.and_assoc, hV, hU, hW, hVW, hUW, hWW, hVU, hUU, hWU, UInt32.and_zero,
      UInt32.or_zero, UInt32.zero_or, hwrite, ne_eq, not_false_eq_true, true_and, and_true, iff_true]
    decide
  · next hread =>
    simp only [or_and, UInt32.and_assoc, hV, hU, hVW, hUW, hVU, hUU, UInt32.and_zero,
      UInt32.or_zero, UInt32.zero_or, hread, ne_eq, not_true_eq_false, and_true]

end Flags

section Faults

variable {s : Paging} {vaddr code prot : UInt32}

/-- A frame that `frame_alloc` finds was free, and is a page of its zone. -/
theorem frame_found (hbases : ∀ z ∈ zones, (s.frames.pmzone z).base &&& PAGE_MASK = 0)
    (hfound : (frame_alloc s.frames 1).1 ≠ BITMAP_ERROR) :
    (frame_alloc s.frames 1).1 &&& PAGE_MASK = 0 ∧
    ∃ z ∈ zones, ∃ i < bit_cnt s.mem (s.frames.pmzone z).bitmap,
      bitmap_test s.mem (s.frames.pmzone z).bitmap i = false ∧
        (frame_alloc s.frames 1).1 = (s.frames.pmzone z).base + i * PAGE_SIZE := by
  obtain ⟨z, i, hfit⟩ := exists_first_fit hfound
  have haddr : (frame_alloc s.frames 1).1 = (s.frames.pmzone z).base + i * PAGE_SIZE :=
    frame_alloc_loop_first_fit hfit
  obtain ⟨hz, -, hinside, hclear⟩ := hfit.leastRun.run
  rw [UInt32.toNat_one] at hinside hclear
  refine ⟨?_, z, hz, i, UInt32.lt_iff_toNat_lt.mpr hinside, ?_, haddr⟩
  · have hbase := congrArg UInt32.toNat (hbases z hz)
    rw [and_PAGE_MASK_toNat] at hbase
    rw [← UInt32.toNat_inj, and_PAGE_MASK_toNat, haddr, UInt32.toNat_add, UInt32.toNat_mul, PAGE_SIZE_toNat,
      UInt32.toNat_zero]
    rw [UInt32.toNat_zero] at hbase
    omega
  · rw [bitmap_test_eq]
    exact hclear i.toNat (Nat.le_refl _) (Nat.lt_succ_self _)

/-- The frame `do_page_fault` finds is installed. -/
theorem do_page_fault_installs (hapart : PageApart vaddr)
    (hbases : ∀ z ∈ zones, (s.frames.pmzone z).base &&& PAGE_MASK = 0)
    (hprot : page_prot s.vm vaddr = some prot) (hlegal : ¬ (prot = -1 ∨ prot = VM_PROT_NONE))
    (hinvalid : code &&& PTE_V = 0) (hfound : (frame_alloc s.frames 1).1 ≠ BITMAP_ERROR) :
    ∃ t, do_page_fault s vaddr code = some (0, t) ∧ Installed s t vaddr code prot := by
  obtain ⟨haligned, hfree⟩ := frame_found hbases hfound
  obtain ⟨t, hcall, hmem⟩ := do_page_fault_grants hprot hlegal hinvalid hfound
  obtain ⟨-, hU⟩ := user_code vaddr code
  generalize (if vaddr < KERN_MIN_ADDR then code ||| PTE_U else code) = code' at hmem hU
  obtain ⟨hflags, hwritable, huser⟩ := pte_flags_spec prot code'
  have hentry : t.mem (vtopte vaddr) = (frame_alloc s.frames 1).1 ||| pte_flags prot code' := by
    rw [hmem, memset_page_entry hapart, store_self]
  refine ⟨t, hcall, ?_, hfree, ?_, ?_, ?_, fun a hne => ?_⟩
  · rw [hentry]
    exact entry_frame haligned hflags
  · rw [hentry]
    exact pte_flags_valid _ prot code'
  · rw [hentry, entry_flag haligned rfl]
    exact hwritable
  · rw [hentry, entry_flag haligned rfl, huser]
    exact hU
  · rw [hmem, memset_page_entry hapart, store_of_ne hne]

end Faults

/-- A fault is served as a whole, or nothing changes. -/
theorem do_page_fault_all_or_nothing (s : Paging) (vaddr code : UInt32) (hlists : s.vm.Finite)
    (hbases : ∀ z ∈ zones, (s.frames.pmzone z).base &&& PAGE_MASK = 0) (hapart : PageApart vaddr) :
    ∃ prot r t, page_prot s.vm vaddr = some prot ∧ do_page_fault s vaddr code = some (r, t) ∧
      (r = 0 ∨ r = -1) ∧
      (r = 0 ↔ prot ≠ 0xFFFFFFFF ∧ prot ≠ VM_PROT_NONE ∧ code &&& PTE_V = 0 ∧
        (frame_alloc s.frames 1).1 ≠ BITMAP_ERROR) ∧
      (r = 0 → Installed s t vaddr code prot) ∧
      (r = -1 → t = s) := by
  obtain ⟨prot, hprot⟩ := page_prot_returns hlists vaddr
  have hne : (0 : Int32) ≠ -1 := by decide
  by_cases hserved : prot ≠ 0xFFFFFFFF ∧ prot ≠ VM_PROT_NONE ∧ code &&& PTE_V = 0 ∧
      (frame_alloc s.frames 1).1 ≠ BITMAP_ERROR
  · obtain ⟨t, hcall, hinstalled⟩ := do_page_fault_installs hapart hbases hprot
      (not_or.mpr ⟨hserved.1, hserved.2.1⟩) hserved.2.2.1 hserved.2.2.2
    exact ⟨prot, 0, t, hprot, hcall, Or.inl rfl, iff_of_true rfl hserved, fun _ => hinstalled,
      fun h => absurd h hne⟩
  · have hcall := do_page_fault_refuses hprot hserved
    exact ⟨prot, -1, s, hprot, hcall, Or.inr rfl, iff_of_false hne.symm hserved,
      fun h => absurd h hne.symm, fun _ => rfl⟩

theorem page_apart_of_lt {vaddr : UInt32} (hlt : vaddr.toNat < PT.toNat) : PageApart vaddr := by
  intro a heq
  have hnat := congrArg UInt32.toNat heq
  rw [PAGE_TRUNCATE_toNat, PAGE_TRUNCATE_toNat, vtopte_toNat] at hnat
  rw [PT_toNat] at hnat hlt
  omega

theorem write_fault_all_or_nothing :
    ∃ prot r t, page_prot one_page.vm 0x500123 = some prot ∧
      do_page_fault one_page 0x500123 VM_PROT_WRITE = some (r, t) ∧
      (r = 0 ∨ r = -1) ∧
      (r = 0 ↔ prot ≠ 0xFFFFFFFF ∧ prot ≠ VM_PROT_NONE ∧ VM_PROT_WRITE &&& PTE_V = 0 ∧
        (frame_alloc one_page.frames 1).1 ≠ BITMAP_ERROR) ∧
      (r = 0 → Installed one_page t 0x500123 VM_PROT_WRITE prot) ∧
      (r = -1 → t = one_page) := by
  obtain ⟨ks, us, hagrees⟩ := two_calls_reached.invariant brk_ok
  have hlists : one_page.vm.Finite := ⟨⟨_, hagrees.lists.kernel⟩, ⟨us, hagrees.lists.user⟩⟩
  exact do_page_fault_all_or_nothing one_page 0x500123 VM_PROT_WRITE hlists
    (fun z _ => one_zone_aligned z) (page_apart_of_lt (by decide))

end epos.page
