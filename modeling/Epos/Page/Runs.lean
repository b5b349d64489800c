import Epos.Lib.Run
import Epos.Page.Calls

open chains spans runs

namespace epos.page

open Vmspace

/-- An allocation as its owner knows it. -/
structure Allocation where
  va : UInt32
  npages : Int32
  prot : UInt32
deriving DecidableEq

/-- The addresses of the pages of an allocation. -/
def Allocation.range (A : Allocation) : Set Nat :=
  Set.Ico A.va.toNat (A.va.toNat + A.npages.toInt.toNat * PAGE_SIZE.toNat)

def Allocation.area (A : Allocation) : Area := new_area A.va (size_of_pages A.npages) A.prot

/-- The calls; `x` is the block that `kmalloc` returns if the call asks for one. -/
inductive Call where
  | page_alloc (x : UInt32) (npages : Int32) (prot user : UInt32)
  | page_alloc_in_addr (x va : UInt32) (npages : Int32) (prot : UInt32)
  | page_free (va : UInt32) (npages : Int32)

/-- The call is about the kernel's part of the address space. -/
def Call.Kernel : Call → Prop
  | .page_alloc _ _ _ user => user = 0
  | .page_alloc_in_addr _ va _ _ => ¬ va < USER_MAX_ADDR
  | .page_free va _ => ¬ va < USER_MAX_ADDR

/-- The zone lists and the allocations made from them that are still live. -/
structure System where
  vm : Vmspace
  live : List Allocation

def System.boot (s : Vmspace) (brk : UInt32) : System := { vm := init_vmspace s brk, live := [] }

/-- A request that succeeded is live from now on. -/
def System.allocated (sys : System) (npages : Int32) (prot : UInt32) (result : UInt32 × Vmspace) :
    System :=
  { vm := result.2
    live := if result.1 = SIZE_MAX then sys.live else ⟨result.1, npages, prot⟩ :: sys.live }

/-- What was freed is live no more. -/
def System.freed (sys : System) (va : UInt32) (npages : Int32) (result : Int32 × Vmspace) : System :=
  { vm := result.2
    live := if result.1 = 0 then sys.live.eraseP fun A => A.va = va ∧ A.npages = npages else sys.live }

/-- A call; `none` if it never returns. -/
def System.call (sys : System) : Call → Option System
  | .page_alloc x npages prot user =>
    (page_alloc sys.vm x npages prot user).map (sys.allocated npages prot)
  | .page_alloc_in_addr x va npages prot =>
    (page_alloc_in_addr sys.vm x va npages prot).map (sys.allocated npages prot)
  | .page_free va npages => (page_free sys.vm va npages).map (sys.freed va npages)

def System.step (sys : System) (c : Call) : System := (sys.call c).getD sys

/-- `kmalloc` succeeds, and nothing the call computes wraps. -/
def System.Enabled (sys : System) : Call → Prop
  | .page_alloc x npages _ user => sys.vm.Fresh x ∧ FitsSize npages ∧ FitsFound sys.vm npages user
  | .page_alloc_in_addr x va npages _ => sys.vm.Fresh x ∧ FitsSize npages ∧ FitsAt va npages
  | .page_free _ npages => FitsSize npages

/-- The lists are well formed, and beside `km0` they hold the live allocations. -/
structure System.Agrees (sys : System) (brk : UInt32) (ks us : List UInt32) : Prop where
  lists : sys.vm.Lists brk ks us
  areas : (sys.vm.areas (ks ++ us)).Perm (sys.live.map Allocation.area)
  sizes : ∀ A ∈ sys.live, 0 < A.npages ∧ FitsSize A.npages

def System.Invariant (sys : System) (brk : UInt32) : Prop := ∃ ks us, sys.Agrees brk ks us

/-- No two areas of the two lists overlap. -/
theorem Vmspace.Lists.packed {s : Vmspace} {brk : UInt32} {ks us : List UInt32}
    (h : s.Lists brk ks us) :
    Packed USER_MIN_ADDR.toNat KERN_MAX_ADDR.toNat (s.areas (us ++ km0 :: ks)) := by
  have hmin : USER_MIN_ADDR.toNat ≤ USER_MAX_ADDR.toNat := by decide
  have hmax : USER_MAX_ADDR.toNat ≤ KERN_MAX_ADDR.toNat := by decide
  rw [areas_append]
  constructor
  · apply List.pairwise_append.mpr
    refine ⟨h.user_packed.ascending, h.kernel_packed.ascending, fun a ha b hb => ?_⟩
    exact (h.user_packed.inside a ha).2.2.trans (h.kernel_packed.inside b hb).1
  · intro z hz
    obtain hz | hz := List.mem_append.mp hz
    · obtain ⟨hlo, hne, hhi⟩ := h.user_packed.inside z hz
      exact ⟨hlo, hne, hhi.trans hmax⟩
    · obtain ⟨hlo, hne, hhi⟩ := h.kernel_packed.inside z hz
      exact ⟨hmin.trans hlo, hne, hhi⟩

theorem Allocation.area_range {A : Allocation} (hpos : 0 < A.npages) (hfits : FitsSize A.npages) :
    A.area.range = A.range := by
  rw [Span.range, Allocation.range, Allocation.area, new_area, hfits.toNat hpos]

/-- An allocation is known by its address and its number of pages. -/
theorem Allocation.eq_of_matches {A : Allocation} (hpos : 0 < A.npages) (hfits : FitsSize A.npages)
    {va : UInt32} {npages : Int32} (hpos' : 0 < npages) (hfits' : FitsSize npages)
    (hmatch : Matches A.area va (size_of_pages npages)) : A.va = va ∧ A.npages = npages := by
  have hlo : A.va.toNat = va.toNat := hmatch.1
  have hhi : A.va.toNat + (size_of_pages A.npages).toNat = va.toNat + (size_of_pages npages).toNat :=
    hmatch.2
  rw [hfits.toNat hpos, hfits'.toNat hpos', PAGE_SIZE_toNat] at hhi
  have hA : (0 : Int) < A.npages.toInt := by simpa using Int32.lt_iff_toInt_lt.mp hpos
  have hn : (0 : Int) < npages.toInt := by simpa using Int32.lt_iff_toInt_lt.mp hpos'
  have hcount : A.npages.toInt = npages.toInt := by omega
  exact ⟨UInt32.toNat_inj.mp hlo, Int32.toInt_inj.mp hcount⟩

section Steps

variable {sys : System} {brk : UInt32} {ks us : List UInt32}

theorem System.Agrees.allocated (h : sys.Agrees brk ks us) {npages : Int32} {prot r : UInt32}
    {t : Vmspace} {kernel : Prop} (hfits : FitsSize npages)
    (halloc : Allocates sys.vm brk ks us npages prot kernel r t) :
    (sys.allocated npages prot (r, t)).Invariant brk ∧ (kernel → t.uvmzone = sys.vm.uvmzone) := by
  obtain ⟨rfl, rfl⟩ | ⟨hok, hpos, hadds, huvm⟩ := halloc
  · refine ⟨⟨ks, us, ?_⟩, fun _ => rfl⟩
    simp only [System.allocated, ↓reduceIte]
    exact h
  · obtain ⟨ks', us', hlists, hperm⟩ := hadds
    refine ⟨⟨ks', us', ?_⟩, huvm⟩
    simp only [System.allocated, if_neg hok]
    refine ⟨hlists, ?_, ?_⟩
    · rw [List.map_cons]
      exact hperm.trans (h.areas.cons _)
    · intro A hA
      cases hA with
      | head => exact ⟨hpos, hfits⟩
      | tail _ hA => exact h.sizes A hA

/-- The areas in use are the live ones. -/
theorem System.Agrees.mem_areas (h : sys.Agrees brk ks us) {z : Area} :
    (∃ p ∈ ks ++ us, sys.vm.area p = z) ↔ ∃ A ∈ sys.live, A.area = z := by
  have hmem := h.areas.mem_iff (a := z)
  simpa only [Vmspace.areas, List.mem_map] using hmem

/-- Two areas in use with an address in common are the same. -/
theorem System.Agrees.unique (h : sys.Agrees brk ks us) {p q : UInt32} (hp : p ∈ km0 :: ks ++ us)
    (hq : q ∈ km0 :: ks ++ us) {x : Nat} (hxp : x ∈ (sys.vm.area p).range)
    (hxq : x ∈ (sys.vm.area q).range) : sys.vm.area p = sys.vm.area q := by
  have hmem : ∀ a ∈ km0 :: ks ++ us, sys.vm.area a ∈ sys.vm.areas (us ++ km0 :: ks) := by
    intro a ha
    apply List.mem_map_of_mem
    exact List.mem_append.mpr (List.mem_append.mp ha).symm
  exact h.lists.packed.unique (hmem p hp) (hmem q hq) hxp hxq

/-- The address a call got is in the area it got. -/
theorem System.Agrees.lo_mem_range (h : sys.Agrees brk ks us) {p : UInt32} (hp : p ∈ km0 :: ks ++ us) :
    (sys.vm.area p).lo ∈ (sys.vm.area p).range := by
  have hmem : sys.vm.area p ∈ sys.vm.areas (us ++ km0 :: ks) :=
    List.mem_map_of_mem (List.mem_append.mpr (List.mem_append.mp hp).symm)
  exact ⟨le_rfl, (h.lists.packed.inside _ hmem).2.1⟩

/-- The zone that `page_free` takes out is the one of the live allocation named. -/
theorem System.Agrees.freed (h : sys.Agrees brk ks us) {va : UInt32} {npages : Int32} {t : Vmspace}
    (hpos : 0 < npages) (hfits : FitsSize npages) {p : UInt32} (hp : p ∈ ks ++ us)
    (hmatch : Matches (sys.vm.area p) va (size_of_pages npages))
    (hdrops : Drops brk sys.vm t ks us (sys.vm.area p)) :
    ∃ before A after, sys.live = before ++ A :: after ∧ (A.va = va ∧ A.npages = npages) ∧
      System.Invariant ⟨t, before ++ after⟩ brk ∧
      sys.freed va npages (0, t) = ⟨t, before ++ after⟩ := by
  obtain ⟨A, hA, harea⟩ := h.mem_areas.mp ⟨p, hp, rfl⟩
  have hnamed : A.va = va ∧ A.npages = npages := by
    obtain ⟨hApos, hAfits⟩ := h.sizes A hA
    exact Allocation.eq_of_matches hApos hAfits hpos hfits (harea ▸ hmatch)
  obtain ⟨B, before, after, -, hB, hlive, herase⟩ :=
    List.exists_of_eraseP (p := fun A : Allocation => A.va = va ∧ A.npages = npages) hA
      (decide_eq_true hnamed)
  have hB : B.va = va ∧ B.npages = npages := of_decide_eq_true hB
  -- two live allocations of this name would overlap
  have hBarea : B.area = sys.vm.area p := by
    have hmem : B ∈ sys.live := hlive ▸ List.mem_append_right before List.mem_cons_self
    obtain ⟨q, hq, hqarea⟩ := h.mem_areas.mpr ⟨B, hmem, rfl⟩
    have hsame : B.area.range = A.area.range := by
      simp only [Span.range, Allocation.area, new_area, hB.1, hB.2, hnamed.1, hnamed.2]
    rw [← hqarea]
    have hlo := h.lo_mem_range (List.mem_cons_of_mem km0 hp)
    apply h.unique (List.mem_cons_of_mem km0 hq) (List.mem_cons_of_mem km0 hp) _ hlo
    rw [hqarea, hsame, harea]
    exact hlo
  obtain ⟨ks', us', hlists, hperm⟩ := hdrops
  refine ⟨before, B, after, hlive, hB, ⟨ks', us', hlists, ?_, ?_⟩, ?_⟩
  · have hmiddle : (sys.live.map Allocation.area).Perm
        (sys.vm.area p :: (before ++ after).map Allocation.area) := by
      rw [hlive, List.map_append, List.map_cons, hBarea, List.map_append]
      exact List.perm_middle
    exact ((hperm.symm.trans h.areas).trans hmiddle).cons_inv
  · intro C hC
    apply h.sizes C
    rw [hlive]
    obtain hC | hC := List.mem_append.mp hC
    · exact List.mem_append_left _ hC
    · exact List.mem_append_right _ (List.mem_cons_of_mem B hC)
  · simp only [System.freed, ↓reduceIte, herase]

/-- Every call returns, and keeps the invariant; a kernel call leaves the user
list alone. -/
theorem call_spec (h : sys.Invariant brk) {c : Call} (henabled : sys.Enabled c) :
    ∃ t, sys.call c = some t ∧ t.Invariant brk ∧ (c.Kernel → t.vm.uvmzone = sys.vm.uvmzone) := by
  obtain ⟨ks, us, h⟩ := h
  cases c with
  | page_alloc x npages prot user =>
    obtain ⟨hx, hfits, hfound⟩ := henabled
    obtain ⟨r, t, hcall, halloc⟩ := page_alloc_spec h.lists hx hfits hfound prot
    exact ⟨_, by rw [System.call, hcall, Option.map_some], h.allocated hfits halloc⟩
  | page_alloc_in_addr x va npages prot =>
    obtain ⟨hx, hfits, hat⟩ := henabled
    obtain ⟨r, t, hcall, halloc⟩ := page_alloc_in_addr_spec h.lists hx hfits hat prot
    exact ⟨_, by rw [System.call, hcall, Option.map_some], h.allocated hfits halloc⟩
  | page_free va npages =>
    obtain ⟨r, t, hcall, hr⟩ := page_free_spec h.lists va npages
    refine ⟨_, by rw [System.call, hcall, Option.map_some], ?_⟩
    obtain ⟨rfl, hpos, ⟨p, hp, hmatch, hdrops⟩, huvm⟩ | ⟨rfl, rfl, -⟩ := hr
    · obtain ⟨before, A, after, -, -, hinv, hfreed⟩ := h.freed hpos henabled hp hmatch hdrops
      rw [hfreed]
      exact ⟨hinv, huvm⟩
    · exact ⟨⟨ks, us, h⟩, fun _ => rfl⟩

theorem step_invariant (h : sys.Invariant brk) {c : Call} (henabled : sys.Enabled c) :
    (sys.step c).Invariant brk := by
  obtain ⟨t, hcall, hinv, -⟩ := call_spec h henabled
  rw [System.step, hcall]
  exact hinv

end Steps

/-- A page aligned `brk` above USER_MAX_ADDR, no higher than KERN_MAX_ADDR. -/
structure BrkOk (brk : UInt32) : Prop where
  aligned : brk &&& PAGE_MASK = 0
  above : USER_MAX_ADDR < brk
  below : brk ≤ KERN_MAX_ADDR

theorem boot_lists {brk : UInt32} (hbrk : BrkOk brk) (s : Vmspace) :
    (init_vmspace s brk).Lists brk [] [] := by
  have hzone : (init_vmspace s brk).zone km0 =
      ⟨USER_MAX_ADDR, brk - USER_MAX_ADDR, VM_PROT_ALL, NULL⟩ := by
    simp only [init_vmspace, Vmspace.set_zone, Function.update_self]
  have habove := UInt32.lt_iff_toNat_lt.mp hbrk.above
  have hbelow := UInt32.le_iff_toNat_le.mp hbrk.below
  have hfirst : (init_vmspace s brk).area km0 = km0_area brk := by
    have hlimit : (brk - USER_MAX_ADDR).toNat = brk.toNat - USER_MAX_ADDR.toNat :=
      UInt32.toNat_sub_of_le brk USER_MAX_ADDR (UInt32.le_iff_toNat_le.mpr habove.le)
    simp only [Vmspace.area, hzone, vmzone.area, km0_area, hlimit, Nat.add_sub_cancel' habove.le]
  have hareas : (init_vmspace s brk).areas [km0] = [km0_area brk] := by
    rw [areas_cons, hfirst]
    rfl
  refine ⟨⟨rfl, by decide, ?_⟩, rfl, by decide, fun _ hp => absurd hp List.not_mem_nil, hfirst, ?_,
    Packed.nil, ?_⟩
  · simp only [Vmspace.next, hzone]
    rfl
  · rw [hareas]
    constructor
    · exact List.pairwise_singleton _ _
    · intro z hz
      rw [List.mem_singleton.mp hz]
      exact ⟨le_rfl, habove, hbelow⟩
  · intro p hp
    obtain rfl : p = km0 := List.mem_singleton.mp hp
    have hlow : USER_MAX_ADDR.toNat % PAGE_SIZE.toNat = 0 := by decide
    rw [hfirst]
    exact ⟨hlow, page_truncated hbrk.aligned⟩

theorem boot_invariant {brk : UInt32} (hbrk : BrkOk brk) (s : Vmspace) :
    (System.boot s brk).Invariant brk :=
  ⟨[], [], boot_lists hbrk s, List.Perm.nil, fun _ hA => absurd hA List.not_mem_nil⟩

/-- The states that runs from `init_vmspace(brk)` reach. -/
def System.Reached (sys : System) (brk : UInt32) : Prop :=
  ∃ s, Reachable System.step System.Enabled (System.boot s brk) sys

theorem System.Reached.invariant {sys : System} {brk : UInt32} (hreached : sys.Reached brk)
    (hbrk : BrkOk brk) : sys.Invariant brk := by
  obtain ⟨s, hreach⟩ := hreached
  apply hreach.invariant (fun sys => sys.Invariant brk) _ (boot_invariant hbrk s)
  intro sys c hinv henabled
  exact step_invariant hinv henabled

instance (s : Vmspace) (x : UInt32) : Decidable (s.Fresh x) :=
  decidable_of_iff (x ≠ NULL ∧ x ≠ km0 ∧ x ∉ s.heap)
    ⟨fun ⟨hnull, hkm0, hheap⟩ => ⟨hnull, hkm0, hheap⟩, fun h => ⟨h.ne_null, h.ne_km0, h.not_mem⟩⟩

instance (npages : Int32) : Decidable (FitsSize npages) := inferInstanceAs (Decidable (_ → _))

instance (va : UInt32) (npages : Int32) : Decidable (FitsAt va npages) :=
  inferInstanceAs (Decidable (_ → _ → _ → _ → _))

instance (s : Vmspace) (npages : Int32) (user : UInt32) : Decidable (FitsFound s npages user) :=
  @forall_prop_decidable _ _ _ fun _ => Option.decidableForallMem _

instance (sys : System) : (c : Call) → Decidable (sys.Enabled c)
  | .page_alloc _ _ _ _ => inferInstanceAs (Decidable (_ ∧ _ ∧ _))
  | .page_alloc_in_addr _ _ _ _ => inferInstanceAs (Decidable (_ ∧ _ ∧ _))
  | .page_free _ npages => inferInstanceAs (Decidable (FitsSize npages))

/-- The end of the kernel heap at boot. -/
def boot_brk : UInt32 := 0xC0458000

theorem brk_ok : BrkOk boot_brk := ⟨by decide, by decide, by decide⟩

def blank : Vmspace := { zone := fun _ => ⟨0, 0, 0, 0⟩, kvmzone := NULL, uvmzone := NULL, heap := [] }

/-- The call for one page at a user address, and the one for two kernel pages. -/
def user_page : Call := .page_alloc_in_addr 0xC0058000 0x500000 1 VM_PROT_RW
def kernel_pages : Call := .page_alloc 0xC0058020 2 VM_PROT_ALL 0

def two_calls : System := exec System.step (System.boot blank boot_brk) [user_page, kernel_pages]

theorem two_calls_reached : two_calls.Reached boot_brk :=
  ⟨blank, [user_page, kernel_pages], ⟨by decide +kernel, by decide +kernel, trivial⟩, rfl⟩

end epos.page
