import Epos.Frame.Defs
import Epos.Page.Runs

open words runs epos.bitmap epos.frame

namespace epos.page

/-- What a page fault works on: the zone lists, the frame allocator, and memory. -/
structure Paging where
  vm : Vmspace
  frames : Frames

def Paging.mem (s : Paging) : Memory := s.frames.mem

/-- The flags of an entry that `do_page_fault` installs. -/
def pte_flags (prot code : UInt32) : UInt32 :=
  let x := PTE_V ||| (code &&& PTE_U)
  if prot &&& VM_PROT_WRITE ≠ 0 then x ||| PTE_W else x

/-- `do_page_fault`, which does not look at its `ctx`. It installs the entry and
clears the page. -/
def do_page_fault (s : Paging) (vaddr code : UInt32) : Option (Int32 × Paging) :=
  (page_prot s.vm vaddr).map fun prot =>
    if prot = -1 ∨ prot = VM_PROT_NONE then (-1, s)
    else
      let code := if vaddr < KERN_MIN_ADDR then code ||| PTE_U else code
      if code &&& PTE_V = 0 then
        let (paddr, frames) := frame_alloc s.frames 1
        if paddr ≠ SIZE_MAX then
          let mem := store frames.mem (vtopte vaddr) (paddr ||| pte_flags prot code)
          let mem := memset mem (PAGE_TRUNCATE vaddr) PAGE_SIZE
          (0, { s with frames := { frames with mem } })
        else (-1, { s with frames })
      else (-1, s)

/-- `common_Dabt_handler`, with what its call of `do_page_fault` returns. -/
def common_Dabt_handler (s : Paging) (vaddr code : UInt32) : Option (Int32 × Paging) :=
  if code = 0x805 then do_page_fault s vaddr VM_PROT_WRITE
  else do_page_fault s vaddr VM_PROT_READ

/-- The status field of a DFSR: bit 10 and the bits from 3 down to 0. -/
def fault_status (dfsr : UInt32) : UInt32 := (dfsr >>> 10 &&& 1) <<< 4 ||| (dfsr &&& 0xF)

/-- A section or a page translation fault. -/
def TranslationFault (dfsr : UInt32) : Prop :=
  fault_status dfsr = 0b00101 ∨ fault_status dfsr = 0b00111

/-- The fault is served: the handler's call returns 0 and leaves a valid entry. -/
def Served (s : Paging) (vaddr dfsr : UInt32) : Prop :=
  ∃ t, common_Dabt_handler s vaddr dfsr = some (0, t) ∧ t.mem (vtopte vaddr) &&& PTE_V ≠ 0

/-- The page that holds its own entry in the flat array of entries. -/
def self_page : UInt32 := 0xBFEFF000

/-- Only one page holds its own entry. -/
theorem vtopte_mem_page (va : UInt32) :
    (∃ t < 1024, vtopte va = PAGE_TRUNCATE va + 4 * UInt32.ofNat t) ↔ PAGE_TRUNCATE va = self_page := by
  have hlt := va.toNat_lt
  have hself : self_page.toNat = 0xBFEFF000 := rfl
  simp only [← UInt32.toNat_inj (b := self_page), PAGE_TRUNCATE_toNat, hself]
  constructor
  · intro ⟨t, ht, heq⟩
    have hnat := congrArg UInt32.toNat heq
    rw [vtopte_toNat, page_word_toNat va ht, PT_toNat] at hnat
    omega
  · intro hpage
    refine ⟨0x2FF, by decide, ?_⟩
    rw [← UInt32.toNat_inj, vtopte_toNat, page_word_toNat va (by decide), PT_toNat]
    omega

/-- Clearing the page keeps its entry, unless the entry is in the page itself. -/
theorem memset_page_vtopte (mem : Memory) (va : UInt32) :
    memset mem (PAGE_TRUNCATE va) PAGE_SIZE (vtopte va) =
      if PAGE_TRUNCATE va = self_page then 0 else mem (vtopte va) := by
  rw [memset_page]
  split
  · next hself => exact stores_const ((vtopte_mem_page va).mpr hself)
  · next hother =>
    apply stores_of_forall_ne
    intro t ht heq
    exact hother ((vtopte_mem_page va).mp ⟨t, ht, heq⟩)

/-- `code` as the test of PTE_V and the flags see it. -/
theorem user_code (vaddr code : UInt32) :
    (if vaddr < KERN_MIN_ADDR then code ||| PTE_U else code) &&& PTE_V = code &&& PTE_V ∧
    ((if vaddr < KERN_MIN_ADDR then code ||| PTE_U else code) &&& PTE_U ≠ 0 ↔
      vaddr < KERN_MIN_ADDR ∨ code &&& PTE_U ≠ 0) := by
  have hUV : PTE_U &&& PTE_V = 0 := rfl
  have hUU : PTE_U &&& PTE_U = PTE_U := rfl
  have hU : PTE_U ≠ 0 := by decide
  split
  · next huser =>
    simp only [or_and, hUV, hUU, UInt32.or_zero, huser, true_or, iff_true, true_and]
    exact fun hzero => hU (UInt32.or_eq_zero_iff.mp hzero).2
  · next hkernel => simp only [hkernel, false_or, and_self]

section Faults

variable {s : Paging} {vaddr code prot : UInt32}

/-- A fault at a legal address gets the frame that is found, and an entry. -/
theorem do_page_fault_grants (hprot : page_prot s.vm vaddr = some prot)
    (hlegal : ¬ (prot = -1 ∨ prot = VM_PROT_NONE)) (hinvalid : code &&& PTE_V = 0)
    (hfound : (frame_alloc s.frames 1).1 ≠ SIZE_MAX) :
    ∃ t, do_page_fault s vaddr code = some (0, t) ∧
      t.mem = memset (store s.mem (vtopte vaddr) ((frame_alloc s.frames 1).1 |||
        pte_flags prot (if vaddr < KERN_MIN_ADDR then code ||| PTE_U else code)))
        (PAGE_TRUNCATE vaddr) PAGE_SIZE := by
  obtain ⟨hV, -⟩ := user_code vaddr code
  let entry := (frame_alloc s.frames 1).1 |||
    pte_flags prot (if vaddr < KERN_MIN_ADDR then code ||| PTE_U else code)
  let mem := memset (store s.mem (vtopte vaddr) entry) (PAGE_TRUNCATE vaddr) PAGE_SIZE
  refine ⟨{ s with frames := { s.frames with mem } }, ?_, rfl⟩
  simp only [do_page_fault, hprot, Option.map_some, if_neg hlegal, hV, if_pos hinvalid, frame_alloc_state,
    if_pos hfound]
  rfl

/-- Everywhere else it fails and leaves everything as it was. -/
theorem do_page_fault_refuses (hprot : page_prot s.vm vaddr = some prot)
    (hrefused : ¬ (prot ≠ -1 ∧ prot ≠ VM_PROT_NONE ∧ code &&& PTE_V = 0 ∧
      (frame_alloc s.frames 1).1 ≠ SIZE_MAX)) : do_page_fault s vaddr code = some (-1, s) := by
  obtain ⟨hV, -⟩ := user_code vaddr code
  rw [do_page_fault, hprot, Option.map_some]
  by_cases hillegal : prot = -1 ∨ prot = VM_PROT_NONE
  · rw [if_pos hillegal]
  by_cases hinvalid : code &&& PTE_V = 0
  · have hnone : ¬ (frame_alloc s.frames 1).1 ≠ SIZE_MAX := fun hfound =>
      hrefused ⟨fun h => hillegal (Or.inl h), fun h => hillegal (Or.inr h), hinvalid, hfound⟩
    simp only [if_neg hillegal, hV, if_pos hinvalid, if_neg hnone, frame_alloc_state]
  · simp only [if_neg hillegal, hV, if_neg hinvalid]

/-- A fault passed on as a read is taken for a protection violation: VM_PROT_READ
is the bit of PTE_V. -/
theorem do_page_fault_read (hprot : page_prot s.vm vaddr = some prot) :
    do_page_fault s vaddr VM_PROT_READ = some (-1, s) := by
  have hvalid : VM_PROT_READ &&& PTE_V ≠ 0 := by decide
  exact do_page_fault_refuses hprot fun h => hvalid h.2.2.1

/-- A fault passed on as a write gets a frame and an entry. -/
theorem do_page_fault_write (hprot : page_prot s.vm vaddr = some prot)
    (hlegal : ¬ (prot = -1 ∨ prot = VM_PROT_NONE)) (hfree : HasFreeFrame s.frames)
    (hbases : ∀ z, (s.frames.pmzone z).base &&& PAGE_MASK = 0) :
    ∃ paddr code t, do_page_fault s vaddr VM_PROT_WRITE = some (0, t) ∧
      t.mem = memset (store s.mem (vtopte vaddr) (paddr ||| pte_flags prot code))
        (PAGE_TRUNCATE vaddr) PAGE_SIZE := by
  obtain ⟨z, i, hfit⟩ := hfree.first_fit
  have hpaddr : (frame_alloc s.frames 1).1 = (s.frames.pmzone z).base + i * PAGE_SIZE :=
    frame_alloc_loop_first_fit hfit
  have hframe : (frame_alloc s.frames 1).1 ≠ SIZE_MAX := by
    apply aligned_ne_size_max
    have hbase := page_truncated (hbases z)
    rw [PAGE_SIZE_toNat] at hbase ⊢
    rw [hpaddr, UInt32.toNat_add, UInt32.toNat_mul, PAGE_SIZE_toNat]
    omega
  have hinvalid : VM_PROT_WRITE &&& PTE_V = 0 := rfl
  obtain ⟨t, hcall, hmem⟩ := do_page_fault_grants hprot hlegal hinvalid hframe
  exact ⟨_, _, t, hcall, hmem⟩

theorem pte_flags_valid (paddr prot code : UInt32) : (paddr ||| pte_flags prot code) &&& PTE_V ≠ 0 := by
  have hor : ∀ a b : UInt32, b &&& PTE_V ≠ 0 → (a ||| b) &&& PTE_V ≠ 0 := by
    intro a b hb
    rw [or_and]
    exact fun hzero => hb (UInt32.or_eq_zero_iff.mp hzero).2
  have hleft : ∀ a b : UInt32, a &&& PTE_V ≠ 0 → (a ||| b) &&& PTE_V ≠ 0 := by
    intro a b ha
    rw [UInt32.or_comm]
    exact hor b a ha
  apply hor
  rw [pte_flags]
  split
  · exact hleft _ _ (hleft _ _ (by decide))
  · exact hleft _ _ (by decide)

/-- A translation fault at a legal address is served, while there is a free frame,
exactly when it is the write fault for a section in domain 0, the one status the
handler compares with, and not on the page that holds its own entry. -/
theorem translation_fault_served_iff (hprot : page_prot s.vm vaddr = some prot)
    (hmapped : prot ≠ 0xFFFFFFFF) (hnone : prot ≠ VM_PROT_NONE) (hfree : HasFreeFrame s.frames)
    (hbases : ∀ z, (s.frames.pmzone z).base &&& PAGE_MASK = 0) (dfsr : UInt32) :
    Served s vaddr dfsr ↔ dfsr = 0x805 ∧ PAGE_TRUNCATE vaddr ≠ self_page := by
  by_cases hwrite : dfsr = 0x805
  · obtain ⟨paddr, code, t, hcall, hmem⟩ := do_page_fault_write hprot (not_or.mpr ⟨hmapped, hnone⟩) hfree hbases
    have hentry : t.mem (vtopte vaddr) =
        if PAGE_TRUNCATE vaddr = self_page then 0 else paddr ||| pte_flags prot code := by
      rw [hmem, memset_page_vtopte, store_self]
    rw [Served, common_Dabt_handler, if_pos hwrite, hcall]
    constructor
    · rintro ⟨t', heq, hvalid⟩
      cases heq
      refine ⟨hwrite, fun hself => ?_⟩
      rw [hentry, if_pos hself] at hvalid
      exact hvalid rfl
    · rintro ⟨-, hother⟩
      refine ⟨t, rfl, ?_⟩
      rw [hentry, if_neg hother]
      exact pte_flags_valid paddr prot code
  · rw [Served, common_Dabt_handler, if_neg hwrite, do_page_fault_read hprot]
    constructor
    · rintro ⟨_, hcall, -⟩
      cases hcall
    · rintro ⟨heq, -⟩
      exact absurd heq hwrite

end Faults

/-- Frames of one zone, with a bitmap of 256 clear bits at the start of the heap. -/
def one_zone : Frames :=
  { g_ram_zone := fun _ => 0
    pmzone := fun z => if z = 0 then ⟨0x65000, 0xF9000, 0xC0058000⟩ else ⟨0, 0, 0⟩
    mem := fun a => if a = 0xC0058000 then 256 else if a = 0xC0058004 then 0xC0058008 else 0 }

/-- A kernel with one user page allocated and not yet mapped. -/
def one_page : Paging := { vm := two_calls.vm, frames := one_zone }

theorem one_page_prot : page_prot one_page.vm 0x500123 = some VM_PROT_RW := by decide +kernel

theorem one_zone_free : HasFreeFrame one_zone := by
  refine ⟨0, by decide, fun y hy => ?_, 0, by decide, by decide⟩
  obtain rfl := Nat.le_zero.mp hy
  decide

theorem one_zone_aligned (z : Nat) : (one_zone.pmzone z).base &&& PAGE_MASK = 0 := by
  simp only [one_zone]
  split <;> decide

theorem write_fault_served : Served one_page 0x500123 0x805 ↔
    (0x805 : UInt32) = 0x805 ∧ PAGE_TRUNCATE 0x500123 ≠ self_page :=
  translation_fault_served_iff one_page_prot (by decide) (by decide) one_zone_free one_zone_aligned
    0x805

/-- A read fault, and a write fault for a page instead of a section, are not served. -/
theorem page_write_fault_not_served :
    page_prot one_page.vm 0x500123 = some VM_PROT_RW ∧ HasFreeFrame one_page.frames ∧
      (TranslationFault 0x005 ∧ ¬ Served one_page 0x500123 0x005) ∧
      TranslationFault 0x807 ∧ ¬ Served one_page 0x500123 0x807 := by
  have hnot : ∀ dfsr, dfsr ≠ 0x805 → ¬ Served one_page 0x500123 dfsr := by
    rintro dfsr hne ⟨t, hcall, -⟩
    rw [common_Dabt_handler, if_neg hne, do_page_fault_read one_page_prot] at hcall
    cases hcall
  exact ⟨one_page_prot, one_zone_free, ⟨by unfold TranslationFault; decide, hnot _ (by decide)⟩,
    by unfold TranslationFault; decide, hnot _ (by decide)⟩

end epos.page
