import Epos.Page.Exact
import Epos.PageTable
import Epos.Thread.Reap

open chains words
open epos.page epos.thread

namespace epos.kmalloc

/-- The tests of `page_alloc_in_addr` and its loop let the request through to `kmalloc`. -/
def InAddrGetsToKmalloc (s : Vmspace) (va : UInt32) (npages : Int32) : Prop :=
  ¬ npages ≤ 0 ∧ ¬ va &&& PAGE_MASK ≠ 0 ∧
    ¬ (va < USER_MIN_ADDR ∨ va ≥ KERN_MAX_ADDR ∨ va + size_of_pages npages > KERN_MAX_ADDR) ∧
    ¬ (va < USER_MAX_ADDR ∧ va + size_of_pages npages > USER_MAX_ADDR) ∧
    ∃ q p, s.walk (page_alloc_in_addr_pass s va (size_of_pages npages)) (fun q _ => some (q, NULL)) NULL
      (if va < USER_MAX_ADDR then s.uvmzone else s.kvmzone) () = some (some (q, p))

/-- The search of `page_alloc` and its tests let the request through to `kmalloc`. -/
def AllocGetsToKmalloc (s : Vmspace) (npages : Int32) (user : UInt32) : Prop :=
  ¬ npages ≤ 0 ∧ ∃ va q p, page_alloc_search s (size_of_pages npages) user = some (va, q, p) ∧
    ¬ (va ≥ alloc_max user ∨ va + size_of_pages npages > alloc_max user)

/-- The call fails, has written to no zone, and the lists are as they were. -/
def FailsClean (s : Vmspace) (result : UInt32 × Vmspace) : Prop :=
  result.1 = SIZE_MAX ∧ result.2.zone = s.zone ∧ result.2.kvmzone = s.kvmzone ∧ result.2.uvmzone = s.uvmzone

/-! `sys_task_create` with the stack that it pushes two words on. -/

def STACK_PUSH (mem : Memory) (sp value : UInt32) : UInt32 × Memory := (sp - 4, store mem (sp - 4) value)

def sys_task_create_pushes (mem : Memory) (p ustack pv : UInt32) : Memory :=
  let sp := if ustack ≠ 0 then ustack else p + PAGE_SIZE
  let (sp, mem) := STACK_PUSH mem sp pv
  let (_, mem) := STACK_PUSH mem sp 0
  mem

def sys_task_create_stack (s : Threads) (mem : Memory) (p tos pv : UInt32) : Option (UInt32 × Threads × Memory) :=
  if tos &&& 3 ≠ 0 then some (NULL, s, mem)
  else if p = NULL then some (NULL, s, mem)
  else
    let s := { s.set_tcb p (new_tcb p tos s.tid) with tid := s.tid + 1, heap := p :: s.heap }
    (add_task s p).map fun s => (p, s, sys_task_create_pushes mem p tos pv)

theorem sys_task_create_stack_threads (s : Threads) (mem : Memory) (p tos pv : UInt32) :
    (sys_task_create_stack s mem p tos pv).map (fun r => (r.1, r.2.1)) = sys_task_create s p tos := by
  rw [sys_task_create_stack, sys_task_create]
  split
  · rfl
  · split
    · rfl
    · rw [Option.map_map]
      rfl

section Calls

variable {s : Vmspace} {va : UInt32} {npages : Int32} {user : UInt32}

/-- A request that gets to `kmalloc` is granted, whatever `kmalloc` returns. -/
theorem page_alloc_in_addr_granted (h : InAddrGetsToKmalloc s va npages) (x prot : UInt32) :
    ∃ q p, page_alloc_in_addr s x va npages prot = some (va, s.insert_zone x q p va (size_of_pages npages) prot) := by
  obtain ⟨hneg, hmask, hrange, hcross, q, p, hwalk⟩ := h
  refine ⟨q, p, ?_⟩
  rw [page_alloc_in_addr, if_neg hneg, if_neg hmask, if_neg hrange]
  simp only [if_neg hcross, hwalk, Option.map_some]

/-- A request that does not get there is refused. -/
theorem page_alloc_in_addr_refused (h : ¬ InAddrGetsToKmalloc s va npages) {x prot : UInt32}
    {result : UInt32 × Vmspace} (hcall : page_alloc_in_addr s x va npages prot = some result) :
    result = (SIZE_MAX, s) := by
  by_cases hneg : npages ≤ 0
  · simp only [page_alloc_in_addr, if_pos hneg] at hcall
    exact (Option.some.inj hcall).symm
  by_cases hmask : va &&& PAGE_MASK ≠ 0
  · simp only [page_alloc_in_addr, if_neg hneg, if_pos hmask] at hcall
    exact (Option.some.inj hcall).symm
  by_cases hrange : va < USER_MIN_ADDR ∨ va ≥ KERN_MAX_ADDR ∨ va + size_of_pages npages > KERN_MAX_ADDR
  · simp only [page_alloc_in_addr, if_neg hneg, if_neg hmask, if_pos hrange] at hcall
    exact (Option.some.inj hcall).symm
  by_cases hcross : va < USER_MAX_ADDR ∧ va + size_of_pages npages > USER_MAX_ADDR
  · simp only [page_alloc_in_addr, if_neg hneg, if_neg hmask, if_neg hrange, if_pos hcross] at hcall
    exact (Option.some.inj hcall).symm
  simp only [page_alloc_in_addr, if_neg hneg, if_neg hmask, if_neg hrange, if_neg hcross] at hcall
  obtain ⟨place, hwalk, hplace⟩ := Option.map_eq_some_iff.mp hcall
  cases place with
  | none => exact hplace.symm
  | some place => exact absurd ⟨hneg, hmask, hrange, hcross, place.1, place.2, hwalk⟩ h

theorem page_alloc_granted (h : AllocGetsToKmalloc s npages user) (x prot : UInt32) :
    ∃ va q p, va < alloc_max user ∧
      page_alloc s x npages prot user = some (va, s.insert_zone x q p va (size_of_pages npages) prot) := by
  obtain ⟨hneg, va, q, p, hsearch, hbounds⟩ := h
  refine ⟨va, q, p, UInt32.not_le.mp (not_or.mp hbounds).1, ?_⟩
  simp only [page_alloc, if_neg hneg, hsearch, Option.map_some]
  rw [alloc_max] at hbounds
  by_cases huser : user ≠ 0
  · simp only [if_pos huser] at hbounds ⊢
    rw [if_neg hbounds]
  · simp only [if_neg huser] at hbounds ⊢
    rw [if_neg hbounds]

theorem page_alloc_refused (h : ¬ AllocGetsToKmalloc s npages user) {x prot : UInt32}
    {result : UInt32 × Vmspace} (hcall : page_alloc s x npages prot user = some result) :
    result = (SIZE_MAX, s) := by
  by_cases hneg : npages ≤ 0
  · simp only [page_alloc, if_pos hneg] at hcall
    exact (Option.some.inj hcall).symm
  simp only [page_alloc, if_neg hneg] at hcall
  obtain ⟨⟨va, q, p⟩, hsearch, hplace⟩ := Option.map_eq_some_iff.mp hcall
  have hbounds : va ≥ alloc_max user ∨ va + size_of_pages npages > alloc_max user := by
    by_contra hbounds
    exact h ⟨hneg, va, q, p, hsearch, hbounds⟩
  rw [alloc_max] at hbounds
  by_cases huser : user ≠ 0
  · simp only [if_pos huser] at hbounds hplace
    rw [if_pos hbounds] at hplace
    exact hplace.symm
  · simp only [if_neg huser] at hbounds hplace
    rw [if_pos hbounds] at hplace
    exact hplace.symm

end Calls

/-- When `kmalloc` returns NULL, `sys_task_create` fails and leaves everything as it
was, while `page_alloc_in_addr` and `page_alloc` do so only where they do not get to
their call of `kmalloc` at all: neither looks at what it returned. -/
theorem kmalloc_null_iff (s : Vmspace) (threads : Threads) (mem : Memory) :
    (∀ (va : UInt32) (npages : Int32) (prot : UInt32) (result : UInt32 × Vmspace),
      page_alloc_in_addr s NULL va npages prot = some result →
      (FailsClean s result ↔ ¬ InAddrGetsToKmalloc s va npages)) ∧
    (∀ (npages : Int32) (prot user : UInt32) (result : UInt32 × Vmspace),
      page_alloc s NULL npages prot user = some result →
      (FailsClean s result ↔ ¬ AllocGetsToKmalloc s npages user)) ∧
    ∀ tos pv : UInt32, sys_task_create_stack threads mem NULL tos pv = some (NULL, threads, mem) := by
  refine ⟨fun va npages prot result hcall => ?_, fun npages prot user result hcall => ?_, fun tos pv => ?_⟩
  · constructor
    · rintro ⟨hfail, -⟩ hgets
      obtain ⟨q, p, hgranted⟩ := page_alloc_in_addr_granted hgets NULL prot
      rw [hcall, Option.some.injEq] at hgranted
      rw [hgranted] at hfail
      exact aligned_ne_size_max (page_truncated (not_not.mp hgets.2.1)) hfail
    · intro hrefused
      rw [page_alloc_in_addr_refused hrefused hcall]
      exact ⟨rfl, rfl, rfl, rfl⟩
  · constructor
    · rintro ⟨hfail, -⟩ hgets
      obtain ⟨va, q, p, hhigh, hgranted⟩ := page_alloc_granted hgets NULL prot
      rw [hcall, Option.some.injEq] at hgranted
      rw [hgranted] at hfail
      exact ne_size_max_of_lt hhigh hfail
    · intro hrefused
      rw [page_alloc_refused hrefused hcall]
      exact ⟨rfl, rfl, rfl, rfl⟩
  · rw [sys_task_create_stack]
    split
    · rfl
    · rfl

/-- A request for a page in use is refused before `kmalloc` is called. -/
theorem kmalloc_null_page_in_use :
    ∃ result, page_alloc_in_addr two_calls.vm NULL 0x500000 1 VM_PROT_RW = some result ∧
      FailsClean two_calls.vm result := by
  obtain ⟨result, hcall⟩ : ∃ result, page_alloc_in_addr two_calls.vm NULL 0x500000 1 VM_PROT_RW = some result :=
    Option.isSome_iff_exists.mp (by decide +kernel)
  have hiff := (kmalloc_null_iff two_calls.vm epos.thread.blank (fun _ => 0)).1 0x500000 1 VM_PROT_RW result hcall
  refine ⟨result, hcall, hiff.mpr ?_⟩
  rintro ⟨-, -, -, -, q, p, hwalk⟩
  have hblocked : two_calls.vm.walk (page_alloc_in_addr_pass two_calls.vm 0x500000 (size_of_pages 1))
      (fun q _ => some (q, NULL)) NULL (if 0x500000 < USER_MAX_ADDR then two_calls.vm.uvmzone
        else two_calls.vm.kvmzone) () = some none := by
    decide +kernel
  rw [hblocked] at hwalk
  cases hwalk

/-- With no memory left, a user page at 0x400000 is granted all the same. Its zone is
written at address 0, and all user zones are lost, the one at 0x500000 included. -/
theorem null_zone_granted :
    (page_alloc_in_addr two_calls.vm NULL 0x400000 1 VM_PROT_RW).map
        (fun r => (r.1, r.2.zone NULL, r.2.uvmzone, page_prot r.2 0x500123)) =
      some (0x400000, ⟨0x400000, 0x1000, VM_PROT_RW, 0xC0058000⟩, NULL, some 0xFFFFFFFF) ∧
    (two_calls.vm.zone NULL, two_calls.vm.uvmzone, page_prot two_calls.vm 0x500123) =
      (⟨0, 0, 0, 0⟩, 0xC0058000, some VM_PROT_RW) ∧
    ¬ ∃ result, page_alloc_in_addr two_calls.vm NULL 0x400000 1 VM_PROT_RW = some result ∧
      FailsClean two_calls.vm result := by
  have hcall : (page_alloc_in_addr two_calls.vm NULL 0x400000 1 VM_PROT_RW).map
      (fun r => (r.1, r.2.zone NULL, r.2.uvmzone, page_prot r.2 0x500123)) =
      some (0x400000, ⟨0x400000, 0x1000, VM_PROT_RW, 0xC0058000⟩, NULL, some 0xFFFFFFFF) := by
    decide +kernel
  refine ⟨hcall, by decide +kernel, ?_⟩
  rintro ⟨result, hresult, hfail, -⟩
  rw [hresult, Option.map_some, Option.some.injEq, Prod.mk.injEq] at hcall
  rw [hcall.1] at hfail
  exact absurd hfail (by decide)

end epos.kmalloc
