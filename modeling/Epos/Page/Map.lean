import Epos.Page.Runs

open chains spans runs

namespace epos.page

open Vmspace

/-- `page_prot` reads the lists as the map that the live allocations and the
kernel's own reservation up to `brk` make. -/
structure IsMap (s : Vmspace) (live : List Allocation) (brk : UInt32) : Prop where
  disjoint : live.Pairwise fun A B => Disjoint A.range B.range
  allocated : ∀ A ∈ live, ∀ a : UInt32, a.toNat ∈ A.range → page_prot s a = some A.prot
  reserved : ∀ a, USER_MAX_ADDR ≤ a → a < brk → page_prot s a = some VM_PROT_ALL
  elsewhere : ∀ a : UInt32, (∀ A ∈ live, a.toNat ∉ A.range) → ¬ (USER_MAX_ADDR ≤ a ∧ a < brk) →
    page_prot s a = some 0xFFFFFFFF

section Maps

variable {sys : System} {brk : UInt32} {ks us : List UInt32}

/-- The area that `page_prot` finds an address in is the only one with it. -/
theorem System.Agrees.page_prot_of_mem (h : sys.Agrees brk ks us) {p : UInt32}
    (hp : p ∈ km0 :: ks ++ us) {a : UInt32} (ha : a.toNat ∈ (sys.vm.area p).range) :
    page_prot sys.vm a = some (sys.vm.area p).val := by
  obtain ⟨v, hprot, ⟨q, hq, haq, rfl⟩ | ⟨hnone, -⟩⟩ := page_prot_spec h.lists a
  · rw [hprot, h.unique hq hp haq ha]
  · exact absurd ha (hnone p hp)

theorem System.Agrees.range_disjoint (h : sys.Agrees brk ks us) :
    sys.live.Pairwise fun A B => Disjoint A.range B.range := by
  have hsublist : (sys.vm.areas (ks ++ us)).Perm (sys.vm.areas (us ++ ks)) :=
    List.perm_append_comm.map sys.vm.area
  have hpacked : Packed USER_MIN_ADDR.toNat KERN_MAX_ADDR.toNat (sys.vm.areas (us ++ ks)) :=
    h.lists.packed.sublist (((List.sublist_cons_self km0 ks).append_left us).map sys.vm.area)
  have hareas : (sys.live.map Allocation.area).Pairwise fun a b => Disjoint a.range b.range :=
    (h.areas.symm.trans hsublist).pairwise_iff (fun hab => hab.symm) |>.mpr hpacked.disjoint
  apply (List.pairwise_map.mp hareas).imp_of_mem
  intro A B hA hB hdisjoint
  obtain ⟨hApos, hAfits⟩ := h.sizes A hA
  obtain ⟨hBpos, hBfits⟩ := h.sizes B hB
  rwa [Allocation.area_range hApos hAfits, Allocation.area_range hBpos hBfits] at hdisjoint

theorem System.Agrees.isMap (h : sys.Agrees brk ks us) : IsMap sys.vm sys.live brk := by
  have hkm0 : ∀ a : UInt32, USER_MAX_ADDR ≤ a ∧ a < brk ↔ a.toNat ∈ (sys.vm.area km0).range := by
    intro a
    rw [h.lists.first, UInt32.le_iff_toNat_le, UInt32.lt_iff_toNat_lt]
    rfl
  have hrange : ∀ A ∈ sys.live, A.area.range = A.range :=
    fun A hA => Allocation.area_range (h.sizes A hA).1 (h.sizes A hA).2
  refine ⟨h.range_disjoint, ?_, ?_, ?_⟩
  · intro A hA a ha
    obtain ⟨p, hp, harea⟩ := h.mem_areas.mpr ⟨A, hA, rfl⟩
    have hmem : a.toNat ∈ (sys.vm.area p).range := by
      rw [harea, hrange A hA]
      exact ha
    rw [h.page_prot_of_mem (List.mem_cons_of_mem km0 hp) hmem, harea]
    rfl
  · intro a hlow hhigh
    have hmem := (hkm0 a).mp ⟨hlow, hhigh⟩
    rw [h.page_prot_of_mem (List.mem_cons_self) hmem, h.lists.first]
    rfl
  · intro a hnone hout
    obtain ⟨v, hprot, ⟨q, hq, haq, rfl⟩ | ⟨-, rfl⟩⟩ := page_prot_spec h.lists a
    · cases hq with
      | head => exact absurd ((hkm0 a).mpr haq) hout
      | tail _ hq =>
        obtain ⟨A, hA, harea⟩ := h.mem_areas.mp ⟨q, hq, rfl⟩
        rw [← harea, hrange A hA] at haq
        exact absurd haq (hnone A hA)
    · exact hprot

end Maps

/-- In every state that a run from `init_vmspace(brk)` reaches, the zone lists
are the map of the live allocations. `page_free` returns 0 exactly on a live
allocation, and the map it leaves is the one without this allocation; otherwise
it changes nothing. -/
theorem zone_lists_map {sys : System} {brk : UInt32} (hbrk : BrkOk brk)
    (hreached : sys.Reached brk) :
    IsMap sys.vm sys.live brk ∧
      ∀ va npages, FitsSize npages → ∃ r t, page_free sys.vm va npages = some (r, t) ∧
        (r = 0 ↔ ∃ A ∈ sys.live, A.va = va ∧ A.npages = npages) ∧
        (r = 0 → ∃ before A after, sys.live = before ++ A :: after ∧
          (A.va = va ∧ A.npages = npages) ∧ IsMap t (before ++ after) brk) ∧
        (r ≠ 0 → t = sys.vm) := by
  obtain ⟨ks, us, hagrees⟩ := hreached.invariant hbrk
  refine ⟨hagrees.isMap, fun va npages hfits => ?_⟩
  obtain ⟨r, t, hcall, hr⟩ := page_free_spec hagrees.lists va npages
  refine ⟨r, t, hcall, ?_⟩
  obtain ⟨rfl, hpos, ⟨p, hp, hmatch, hdrops⟩, -⟩ | ⟨rfl, rfl, hnone⟩ := hr
  · obtain ⟨before, A, after, hlive, hnamed, ⟨ks', us', hagrees'⟩, -⟩ :=
      hagrees.freed hpos hfits hp hmatch hdrops
    have hA : A ∈ sys.live := hlive ▸ List.mem_append_right before List.mem_cons_self
    exact ⟨⟨fun _ => ⟨A, hA, hnamed⟩, fun _ => rfl⟩,
      fun _ => ⟨before, A, after, hlive, hnamed, hagrees'.isMap⟩, fun hne => absurd rfl hne⟩
  · refine ⟨⟨fun h => absurd h (by decide), ?_⟩, fun h => absurd h (by decide), fun _ => rfl⟩
    rintro ⟨A, hA, rfl, rfl⟩
    obtain ⟨p, hp, harea⟩ := hagrees.mem_areas.mpr ⟨A, hA, rfl⟩
    refine absurd ?_ (hnone (hagrees.sizes A hA).1 p hp)
    rw [harea]
    exact ⟨rfl, rfl⟩

theorem zone_lists_map_two_calls :
    IsMap two_calls.vm two_calls.live boot_brk ∧
      ∀ va npages, FitsSize npages → ∃ r t, page_free two_calls.vm va npages = some (r, t) ∧
        (r = 0 ↔ ∃ A ∈ two_calls.live, A.va = va ∧ A.npages = npages) ∧
        (r = 0 → ∃ before A after, two_calls.live = before ++ A :: after ∧
          (A.va = va ∧ A.npages = npages) ∧ IsMap t (before ++ after) boot_brk) ∧
        (r ≠ 0 → t = two_calls.vm) :=
  zone_lists_map brk_ok two_calls_reached

end epos.page
