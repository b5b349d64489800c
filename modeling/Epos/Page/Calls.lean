import Epos.Page.Loops

open chains spans

namespace epos.page

open Vmspace

theorem bounds_lt : USER_MAX_ADDR.toNat < UInt32.size ∧ KERN_MAX_ADDR.toNat < UInt32.size := by
  decide

section Calls

variable {s : Vmspace} {brk : UInt32} {ks us : List UInt32}

theorem Vmspace.Lists.kernel_area (h : s.Lists brk ks us) {a : UInt32} (ha : a ∈ km0 :: ks) :
    USER_MAX_ADDR.toNat ≤ (s.area a).lo := (area_inside h.kernel_packed ha).1

theorem Vmspace.Lists.user_area (h : s.Lists brk ks us) {a : UInt32} (ha : a ∈ us) :
    (s.area a).lo < (s.area a).hi ∧ (s.area a).hi ≤ USER_MAX_ADDR.toNat :=
  (area_inside h.user_packed ha).2

/-- Only `km0` begins at USER_MAX_ADDR. -/
theorem Vmspace.Lists.kernel_area_lt (h : s.Lists brk ks us) {a : UInt32} (ha : a ∈ ks) :
    USER_MAX_ADDR.toNat < (s.area a).lo := by
  have hascending := (List.pairwise_cons.mp (areas_cons s km0 ks ▸ h.kernel_packed.lo_lt)).1
  have hlt := hascending (s.area a) (List.mem_map_of_mem ha)
  rwa [h.first] at hlt

/-- `page_prot` returns the protection of the area with the address, and -1 if there is none. -/
theorem page_prot_spec (h : s.Lists brk ks us) (va : UInt32) :
    ∃ v, page_prot s va = some v ∧
      ((∃ a ∈ km0 :: ks ++ us, va.toNat ∈ (s.area a).range ∧ v = (s.area a).val) ∨
        (∀ a ∈ km0 :: ks ++ us, va.toNat ∉ (s.area a).range) ∧ v = -1) := by
  by_cases hva : va < USER_MAX_ADDR
  · obtain ⟨v, hwalk, hv⟩ :=
      page_prot_walk h.user h.length_lt.2 h.user_packed bounds_lt.1 va
    refine ⟨v, by rw [page_prot, if_pos hva, hwalk], ?_⟩
    obtain ⟨a, ha, hmem, hval⟩ | ⟨hnone, hval⟩ := hv
    · exact Or.inl ⟨a, List.mem_append_right _ ha, hmem, hval⟩
    · refine Or.inr ⟨fun a ha hmem => ?_, hval⟩
      obtain ha | ha := List.mem_append.mp ha
      · have hlow := UInt32.lt_iff_toNat_lt.mp hva
        have hhigh := h.kernel_area ha
        have hin : (s.area a).lo ≤ va.toNat := hmem.1
        omega
      · exact hnone a ha hmem
  · obtain ⟨v, hwalk, hv⟩ :=
      page_prot_walk h.kernel h.length_lt.1 h.kernel_packed bounds_lt.2 va
    refine ⟨v, by rw [page_prot, if_neg hva, hwalk], ?_⟩
    obtain ⟨a, ha, hmem, hval⟩ | ⟨hnone, hval⟩ := hv
    · exact Or.inl ⟨a, List.mem_append_left _ ha, hmem, hval⟩
    · refine Or.inr ⟨fun a ha hmem => ?_, hval⟩
      obtain ha | ha := List.mem_append.mp ha
      · exact hnone a ha hmem
      · have hlow := UInt32.le_iff_toNat_le.mp (UInt32.not_lt.mp hva)
        have hhigh := (h.user_area ha).2
        have hin : va.toNat < (s.area a).hi := hmem.2
        omega

/-- `page_free` takes out the one zone that matches, or leaves everything as it is. -/
theorem page_free_spec (h : s.Lists brk ks us) (va : UInt32) (npages : Int32) :
    ∃ r t, page_free s va npages = some (r, t) ∧
      ((r = 0 ∧ 0 < npages ∧ (∃ a ∈ ks ++ us, Matches (s.area a) va (size_of_pages npages) ∧
          Drops brk s t ks us (s.area a)) ∧ (¬ va < USER_MAX_ADDR → t.uvmzone = s.uvmzone)) ∨
        (r = -1 ∧ t = s ∧
          (0 < npages → ∀ a ∈ ks ++ us, ¬ Matches (s.area a) va (size_of_pages npages)))) := by
  by_cases hpos : npages ≤ 0
  · exact ⟨-1, s, by simp only [page_free, if_pos hpos],
      Or.inr ⟨rfl, rfl, fun hlt => absurd hpos (Int32.not_le.mpr hlt)⟩⟩
  by_cases hkm0 : va = USER_MAX_ADDR
  · refine ⟨-1, s, by simp only [page_free, if_neg hpos, if_pos hkm0], Or.inr ⟨rfl, rfl, ?_⟩⟩
    intro _ a ha hmatch
    have hlo : (s.area a).lo = USER_MAX_ADDR.toNat := by rw [hmatch.1, hkm0]
    obtain ha | ha := List.mem_append.mp ha
    · have hhigh := h.kernel_area_lt ha
      omega
    · have hlow := h.user_area ha
      omega
  by_cases hva : va < USER_MAX_ADDR
  · obtain ⟨r, hwalk, hr⟩ := page_free_walk h.user h.length_lt.2 va (size_of_pages npages)
    obtain ⟨before, a, after, rfl, hmatch, rfl⟩ | ⟨hnone, rfl⟩ := hr
    · refine ⟨0, _, by simp only [page_free, if_neg hpos, if_neg hkm0, if_pos hva, hwalk]; rfl, ?_⟩
      have ha : a ∈ ks ++ (before ++ a :: after) :=
        List.mem_append_right ks (List.mem_append_right before List.mem_cons_self)
      exact Or.inl ⟨rfl, Int32.not_le.mp hpos, ⟨a, ha, hmatch, h.remove_user⟩, fun hn => absurd hva hn⟩
    · refine ⟨-1, s, by simp only [page_free, if_neg hpos, if_neg hkm0, if_pos hva, hwalk]; rfl, ?_⟩
      refine Or.inr ⟨rfl, rfl, fun _ a ha hmatch => ?_⟩
      obtain ha | ha := List.mem_append.mp ha
      · have hlow := UInt32.lt_iff_toNat_lt.mp hva
        have hhigh := h.kernel_area_lt ha
        have hlo := hmatch.1
        omega
      · exact hnone a ha hmatch
  · obtain ⟨r, hwalk, hr⟩ := page_free_walk h.kernel h.length_lt.1 va (size_of_pages npages)
    obtain ⟨before, a, after, hsplit, hmatch, rfl⟩ | ⟨hnone, rfl⟩ := hr
    · refine ⟨0, _, by simp only [page_free, if_neg hpos, if_neg hkm0, if_neg hva, hwalk]; rfl, ?_⟩
      cases before with
      | nil =>
        -- `km0` itself never matches
        obtain ⟨rfl, rfl⟩ := List.cons.inj hsplit
        have hlo := hmatch.1
        rw [h.first] at hlo
        exact absurd (UInt32.toNat_inj.mp hlo).symm hkm0
      | cons b before =>
        obtain ⟨rfl, rfl⟩ := List.cons.inj hsplit
        rw [List.getLastD_cons]
        have hdrop := h.remove_kernel
        have ha : a ∈ before ++ a :: after ++ us :=
          List.mem_append_left us (List.mem_append_right before List.mem_cons_self)
        exact Or.inl ⟨rfl, Int32.not_le.mp hpos, ⟨a, ha, hmatch, hdrop.1⟩, fun _ => hdrop.2⟩
    · refine ⟨-1, s, by simp only [page_free, if_neg hpos, if_neg hkm0, if_neg hva, hwalk]; rfl, ?_⟩
      refine Or.inr ⟨rfl, rfl, fun _ a ha hmatch => ?_⟩
      obtain ha | ha := List.mem_append.mp ha
      · exact hnone a (List.mem_cons_of_mem km0 ha) hmatch
      · have hlow := UInt32.le_iff_toNat_le.mp (UInt32.not_lt.mp hva)
        have hhigh := h.user_area ha
        have hlo := hmatch.1
        omega

/-- What the two allocators do with a request for `npages` pages: they refuse it, or
they add an area at the address they return. A kernel request leaves the user
list alone. -/
def Allocates (s : Vmspace) (brk : UInt32) (ks us : List UInt32) (npages : Int32) (prot : UInt32)
    (kernel : Prop) (r : UInt32) (t : Vmspace) : Prop :=
  (r = SIZE_MAX ∧ t = s) ∨
    (r ≠ SIZE_MAX ∧ 0 < npages ∧ Adds brk s t ks us (new_area r (size_of_pages npages) prot) ∧
      (kernel → t.uvmzone = s.uvmzone))

theorem page_truncated {va : UInt32} (hva : va &&& PAGE_MASK = 0) : va.toNat % PAGE_SIZE.toNat = 0 := by
  have hmask : PAGE_MASK.toNat = 2 ^ 12 - 1 := by decide
  have hand := congrArg UInt32.toNat hva
  rw [UInt32.toNat_and, hmask, Nat.and_two_pow_sub_one_eq_mod] at hand
  exact hand

theorem aligned_ne_size_max {va : UInt32} (hva : va.toNat % PAGE_SIZE.toNat = 0) : va ≠ SIZE_MAX := by
  intro heq
  rw [heq] at hva
  exact absurd hva (by decide)

theorem new_area_aligned {va : UInt32} (hva : va.toNat % PAGE_SIZE.toNat = 0) {npages : Int32}
    (hpos : 0 < npages) (hfits : FitsSize npages) (prot : UInt32) :
    PageAligned (new_area va (size_of_pages npages) prot) := by
  refine ⟨hva, ?_⟩
  rw [new_area, hfits.toNat hpos, Nat.add_mul_mod_self_right]
  exact hva

/-- `va + size` does not wrap where `page_alloc_in_addr` computes it. -/
def FitsAt (va : UInt32) (npages : Int32) : Prop :=
  0 < npages → va &&& PAGE_MASK = 0 → ¬ va < USER_MIN_ADDR → va < KERN_MAX_ADDR →
    va.toNat + (size_of_pages npages).toNat < UInt32.size

theorem page_alloc_in_addr_spec (h : s.Lists brk ks us) {x : UInt32} (hx : s.Fresh x)
    {va : UInt32} {npages : Int32} (hfits : FitsSize npages) (hat : FitsAt va npages)
    (prot : UInt32) :
    ∃ r t, page_alloc_in_addr s x va npages prot = some (r, t) ∧
      Allocates s brk ks us npages prot (¬ va < USER_MAX_ADDR) r t := by
  by_cases hneg : npages ≤ 0
  · exact ⟨SIZE_MAX, s, by simp only [page_alloc_in_addr, if_pos hneg], Or.inl ⟨rfl, rfl⟩⟩
  by_cases hmask : va &&& PAGE_MASK ≠ 0
  · exact ⟨SIZE_MAX, s, by simp only [page_alloc_in_addr, if_neg hneg, if_pos hmask],
      Or.inl ⟨rfl, rfl⟩⟩
  by_cases hrange : va < USER_MIN_ADDR ∨ va ≥ KERN_MAX_ADDR ∨ va + size_of_pages npages > KERN_MAX_ADDR
  · exact ⟨SIZE_MAX, s,
      by simp only [page_alloc_in_addr, if_neg hneg, if_neg hmask, if_pos hrange], Or.inl ⟨rfl, rfl⟩⟩
  by_cases hcross : va < USER_MAX_ADDR ∧ va + size_of_pages npages > USER_MAX_ADDR
  · exact ⟨SIZE_MAX, s,
      by simp only [page_alloc_in_addr, if_neg hneg, if_neg hmask, if_neg hrange, if_pos hcross],
      Or.inl ⟨rfl, rfl⟩⟩
  have hpos : 0 < npages := Int32.not_le.mp hneg
  have halign := page_truncated (not_not.mp hmask)
  have haligned := new_area_aligned halign hpos hfits prot
  have hnonempty := hfits.pos hpos
  obtain ⟨hmin, hbelow, hmax⟩ := not_or.mp hrange |>.imp_right not_or.mp
  have hend := hat hpos (not_not.mp hmask) hmin (UInt32.not_le.mp hbelow)
  have hsum : (va + size_of_pages npages).toNat = va.toNat + (size_of_pages npages).toNat := by
    rw [UInt32.toNat_add, Nat.mod_eq_of_lt hend]
  have hmin := UInt32.le_iff_toNat_le.mp (UInt32.not_lt.mp hmin)
  have hmax := UInt32.le_iff_toNat_le.mp (UInt32.not_lt.mp hmax)
  rw [hsum] at hmax
  by_cases hva : va < USER_MAX_ADDR
  · obtain ⟨r, hwalk, hr⟩ := page_alloc_in_addr_walk h.user h.length_lt.2 h.user_packed bounds_lt.1 hend
    obtain rfl | ⟨before, after, rfl, rfl, hbefore, hafter⟩ := hr
    · exact ⟨SIZE_MAX, s, by
        simp only [page_alloc_in_addr, if_neg hneg, if_neg hmask, if_neg hrange, if_neg hcross,
          if_pos hva, hwalk]; rfl, Or.inl ⟨rfl, rfl⟩⟩
    · have hinside := UInt32.le_iff_toNat_le.mp (UInt32.not_lt.mp (not_and.mp hcross hva))
      rw [hsum] at hinside
      have hadds := h.insert_user hx prot ⟨hmin, by omega, hinside⟩ haligned hbefore hafter
      refine ⟨va, _, by
        simp only [page_alloc_in_addr, if_neg hneg, if_neg hmask, if_neg hrange, if_neg hcross,
          if_pos hva, hwalk]; rfl, ?_⟩
      exact Or.inr ⟨aligned_ne_size_max halign, hpos, hadds, fun hn => absurd hva hn⟩
  · obtain ⟨r, hwalk, hr⟩ :=
      page_alloc_in_addr_walk h.kernel h.length_lt.1 h.kernel_packed bounds_lt.2 hend
    have hlow := UInt32.le_iff_toNat_le.mp (UInt32.not_lt.mp hva)
    obtain rfl | ⟨before, after, hsplit, rfl, hbefore, hafter⟩ := hr
    · exact ⟨SIZE_MAX, s, by
        simp only [page_alloc_in_addr, if_neg hneg, if_neg hmask, if_neg hrange, if_neg hcross,
          if_neg hva, hwalk]; rfl, Or.inl ⟨rfl, rfl⟩⟩
    · refine ⟨va, _, by
        simp only [page_alloc_in_addr, if_neg hneg, if_neg hmask, if_neg hrange, if_neg hcross,
          if_neg hva, hwalk]; rfl, ?_⟩
      cases before with
      | nil =>
        -- the new zone would have to lie before `km0`
        obtain rfl : after = km0 :: ks := hsplit.symm
        have hfirst := hafter (s.area km0) List.mem_cons_self
        rw [h.first] at hfirst
        simp only [km0_area] at hfirst
        omega
      | cons b before =>
        obtain ⟨rfl, rfl⟩ := List.cons.inj hsplit
        rw [List.getLastD_cons]
        have hadds := h.insert_kernel hx prot (after.headD NULL) ⟨hlow, by omega, hmax⟩ haligned
          hbefore hafter
        exact Or.inr ⟨aligned_ne_size_max halign, hpos, hadds.1, fun _ => hadds.2⟩

/-- The address and the place `page_alloc` finds in the user list. -/
theorem page_alloc_search_user (h : s.Lists brk ks us) (size : UInt32) {user : UInt32}
    (huser : user ≠ 0) :
    ∃ before after va, us = before ++ after ∧
      page_alloc_search s size user = some (va, before.getLastD NULL, after.headD NULL) ∧
      (USER_MIN_ADDR.toNat ≤ va.toNat ∧ va.toNat % PAGE_SIZE.toNat = 0) ∧
      (∀ z ∈ s.areas before, z.hi ≤ va.toNat) ∧
      (va.toNat + size.toNat < UInt32.size → ∀ z ∈ s.areas after, va.toNat + size.toNat ≤ z.lo) := by
  cases us with
  | nil =>
    have hnull : s.uvmzone = NULL := h.user
    refine ⟨[], [], USER_MIN_ADDR, rfl, ?_, ⟨le_rfl, by decide⟩, fun _ hz => absurd hz List.not_mem_nil,
      fun _ _ hz => absurd hz List.not_mem_nil⟩
    simp only [page_alloc_search, if_pos huser, hnull, ↓reduceIte, Vmspace.walk]
    rw [walk_null _ _ (by decide : 0 < loop_fuel)]
    rfl
  | cons u us =>
    obtain ⟨huvm, hne, htail⟩ := h.user
    obtain ⟨before, after, va, rfl, hwalk, ⟨a, ha, hva⟩, hbefore, hafter⟩ :=
      page_alloc_walk htail (Nat.lt_of_succ_lt h.length_lt.2) h.user_packed bounds_lt.1 size
    refine ⟨u :: before, after, va, rfl, ?_, ?_, hbefore, hafter⟩
    · rw [List.getLastD_cons]
      simp only [page_alloc_search, if_pos huser, huvm, if_neg hne]
      exact hwalk
    · have hinside := area_inside h.user_packed ha
      have haligned := (h.aligned a (List.mem_append_right _ ha)).2
      rw [hva]
      exact ⟨by omega, haligned⟩

/-- The address and the place `page_alloc` finds in the kernel list. -/
theorem page_alloc_search_kernel (h : s.Lists brk ks us) (size : UInt32) :
    ∃ before after va, ks = before ++ after ∧
      page_alloc_search s size 0 = some (va, before.getLastD km0, after.headD NULL) ∧
      (USER_MAX_ADDR.toNat ≤ va.toNat ∧ va.toNat % PAGE_SIZE.toNat = 0) ∧
      (∀ z ∈ s.areas (km0 :: before), z.hi ≤ va.toNat) ∧
      (va.toNat + size.toNat < UInt32.size → ∀ z ∈ s.areas after, va.toNat + size.toNat ≤ z.lo) := by
  obtain ⟨hkvm, hne, htail⟩ := h.kernel
  obtain ⟨before, after, va, rfl, hwalk, ⟨a, ha, hva⟩, hbefore, hafter⟩ :=
    page_alloc_walk htail (Nat.lt_of_succ_lt h.length_lt.1) h.kernel_packed bounds_lt.2 size
  refine ⟨before, after, va, rfl, ?_, ?_, hbefore, hafter⟩
  · simp only [page_alloc_search, ne_eq, not_true_eq_false, ↓reduceIte, hkvm, if_neg hne]
    exact hwalk
  · have hinside := area_inside h.kernel_packed ha
    have haligned := (h.aligned a (List.mem_append_left us ha)).2
    rw [hva]
    exact ⟨by omega, haligned⟩

/-- `va + size` does not wrap where `page_alloc` computes it last. -/
def FitsFound (s : Vmspace) (npages : Int32) (user : UInt32) : Prop :=
  0 < npages → ∀ found ∈ page_alloc_search s (size_of_pages npages) user,
    found.1 < (if user ≠ 0 then USER_MAX_ADDR else KERN_MAX_ADDR) →
    found.1.toNat + (size_of_pages npages).toNat < UInt32.size

theorem page_alloc_spec (h : s.Lists brk ks us) {x : UInt32} (hx : s.Fresh x) {npages : Int32}
    {user : UInt32} (hfits : FitsSize npages) (hfound : FitsFound s npages user) (prot : UInt32) :
    ∃ r t, page_alloc s x npages prot user = some (r, t) ∧
      Allocates s brk ks us npages prot (user = 0) r t := by
  by_cases hneg : npages ≤ 0
  · exact ⟨SIZE_MAX, s, by simp only [page_alloc, if_pos hneg], Or.inl ⟨rfl, rfl⟩⟩
  have hpos : 0 < npages := Int32.not_le.mp hneg
  have hnonempty := hfits.pos hpos
  by_cases huser : user ≠ 0
  · obtain ⟨before, after, va, rfl, hsearch, ⟨hmin, halign⟩, hbefore, hafter⟩ :=
      page_alloc_search_user h (size_of_pages npages) huser
    by_cases hbad : va ≥ USER_MAX_ADDR ∨ va + size_of_pages npages > USER_MAX_ADDR
    · refine ⟨SIZE_MAX, s, ?_, Or.inl ⟨rfl, rfl⟩⟩
      simp only [page_alloc, if_neg hneg, hsearch, Option.map_some, if_pos huser, if_pos hbad]
    · obtain ⟨hbelow, hmax⟩ := not_or.mp hbad
      have hend := hfound hpos _ hsearch (by rw [if_pos huser]; exact UInt32.not_le.mp hbelow)
      have hmax := UInt32.le_iff_toNat_le.mp (UInt32.not_lt.mp hmax)
      rw [UInt32.toNat_add, Nat.mod_eq_of_lt hend] at hmax
      have hadds := h.insert_user hx prot ⟨hmin, by omega, hmax⟩
        (new_area_aligned halign hpos hfits prot) hbefore (hafter hend)
      refine ⟨va, _, ?_, Or.inr ⟨aligned_ne_size_max halign, hpos, hadds, fun hn => absurd hn huser⟩⟩
      simp only [page_alloc, if_neg hneg, hsearch, Option.map_some, if_pos huser, if_neg hbad]
  · obtain rfl : user = 0 := not_not.mp huser
    obtain ⟨before, after, va, rfl, hsearch, ⟨hmin, halign⟩, hbefore, hafter⟩ :=
      page_alloc_search_kernel h (size_of_pages npages)
    by_cases hbad : va ≥ KERN_MAX_ADDR ∨ va + size_of_pages npages > KERN_MAX_ADDR
    · refine ⟨SIZE_MAX, s, ?_, Or.inl ⟨rfl, rfl⟩⟩
      simp only [page_alloc, if_neg hneg, hsearch, Option.map_some, if_neg huser, if_pos hbad]
    · obtain ⟨hbelow, hmax⟩ := not_or.mp hbad
      have hend := hfound hpos _ hsearch (by rw [if_neg huser]; exact UInt32.not_le.mp hbelow)
      have hmax := UInt32.le_iff_toNat_le.mp (UInt32.not_lt.mp hmax)
      rw [UInt32.toNat_add, Nat.mod_eq_of_lt hend] at hmax
      have hadds := h.insert_kernel hx prot (after.headD NULL) ⟨hmin, by omega, hmax⟩
        (new_area_aligned halign hpos hfits prot) hbefore (hafter hend)
      refine ⟨va, _, ?_, Or.inr ⟨aligned_ne_size_max halign, hpos, hadds.1, fun _ => hadds.2⟩⟩
      simp only [page_alloc, if_neg hneg, hsearch, Option.map_some, if_neg huser, if_neg hbad]

end Calls

end epos.page
