import Epos.Page.Lists

open chains spans

namespace epos.page

open Vmspace

/-- `npages * PAGE_SIZE` does not wrap. -/
def FitsSize (npages : Int32) : Prop :=
  0 < npages → npages.toInt.toNat * PAGE_SIZE.toNat < UInt32.size

theorem toInt_of_pos {npages : Int32} (hpos : 0 < npages) :
    npages.toUInt32.toNat = npages.toInt.toNat :=
  Int32.toNat_toUInt32_of_le (Int32.le_of_lt hpos)

theorem FitsSize.toNat {npages : Int32} (hfits : FitsSize npages) (hpos : 0 < npages) :
    (size_of_pages npages).toNat = npages.toInt.toNat * PAGE_SIZE.toNat := by
  rw [size_of_pages, UInt32.toNat_mul, toInt_of_pos hpos]
  exact Nat.mod_eq_of_lt (hfits hpos)

theorem FitsSize.pos {npages : Int32} (hfits : FitsSize npages) (hpos : 0 < npages) :
    0 < (size_of_pages npages).toNat := by
  have hlt : (0 : Int) < npages.toInt := by simpa using Int32.lt_iff_toInt_lt.mp hpos
  rw [hfits.toNat hpos, PAGE_SIZE_toNat]
  omega

theorem vmzone.end_toNat {zone : vmzone} (hend : zone.area.hi < UInt32.size) :
    (zone.base + zone.limit).toNat = zone.area.hi := by
  rw [UInt32.toNat_add]
  exact Nat.mod_eq_of_lt hend

/-- The test for an address inside a zone. -/
theorem vmzone.contains_iff {zone : vmzone} (hend : zone.area.hi < UInt32.size) (va : UInt32) :
    (va ≥ zone.base ∧ va < zone.base + zone.limit) ↔ va.toNat ∈ zone.area.range := by
  rw [UInt32.lt_iff_toNat_lt, vmzone.end_toNat hend]
  rfl

/-- The test for the zone that a call allocated. -/
theorem vmzone.match_iff (zone : vmzone) (va size : UInt32) :
    (va = zone.base ∧ size = zone.limit) ↔
      zone.area.lo = va.toNat ∧ zone.area.hi = va.toNat + size.toNat := by
  simp only [vmzone.area, ← UInt32.toNat_inj]
  omega

/-- The end of a zone, in 32 bits as the code computes it. -/
def Vmspace.zone_end (s : Vmspace) (p : UInt32) : UInt32 := (s.zone p).base + (s.zone p).limit

section Walks

variable {s : Vmspace} {p : UInt32} {zones : List UInt32} {lo hi : Nat}

theorem area_inside (hpacked : Packed lo hi (s.areas zones)) {a : UInt32} (ha : a ∈ zones) :
    lo ≤ (s.area a).lo ∧ (s.area a).lo < (s.area a).hi ∧ (s.area a).hi ≤ hi :=
  hpacked.inside _ (List.mem_map_of_mem ha)

theorem test_iff (hpacked : Packed lo hi (s.areas zones)) (hhi : hi < UInt32.size) {a : UInt32}
    (ha : a ∈ zones) (va : UInt32) :
    (va ≥ (s.zone a).base ∧ va < (s.zone a).base + (s.zone a).limit) ↔ va.toNat ∈ (s.area a).range :=
  vmzone.contains_iff ((area_inside hpacked ha).2.2.trans_lt hhi) va

/-- `page_prot` returns what the zone with the address has. -/
theorem page_prot_walk (hchain : s.ChainFrom p zones) (hfuel : zones.length < loop_fuel)
    (hpacked : Packed lo hi (s.areas zones)) (hhi : hi < UInt32.size) (va : UInt32) :
    ∃ v, s.walk (page_prot_pass s va) (fun _ _ => -1) NULL p () = some v ∧
      ((∃ a ∈ zones, va.toNat ∈ (s.area a).range ∧ v = (s.area a).val) ∨
        (∀ a ∈ zones, va.toNat ∉ (s.area a).range) ∧ v = -1) := by
  have hpass : ∀ q, ∀ a ∈ zones, page_prot_pass s va q a () = .go () →
      va.toNat ∉ (s.area a).range := by
    intro q a ha hgo hmem
    simp only [page_prot_pass, if_pos ((test_iff hpacked hhi ha va).mpr hmem)] at hgo
    cases hgo
  obtain ⟨before, after, v, hsplit, hbefore, hexit, hwalk⟩ :=
    hchain.search_rule hfuel (page_prot_pass s va) (fun _ _ => -1) _ NULL hpass
  refine ⟨v, hwalk, ?_⟩
  cases after with
  | nil =>
    rw [List.append_nil] at hsplit
    exact Or.inr ⟨hsplit ▸ hbefore, hexit⟩
  | cons a after =>
    have ha : a ∈ zones := hsplit ▸ List.mem_append_right before List.mem_cons_self
    simp only [Exit, page_prot_pass] at hexit
    split at hexit
    · next hin =>
      cases hexit
      exact Or.inl ⟨a, ha, (test_iff hpacked hhi ha va).mp hin, rfl⟩
    · cases hexit

/-- The area is the one that a call with these arguments allocated. -/
def Matches (z : Area) (va size : UInt32) : Prop :=
  z.lo = va.toNat ∧ z.hi = va.toNat + size.toNat

/-- `page_free` finds the zone that matches, if there is one. -/
theorem page_free_walk (hchain : s.ChainFrom p zones) (hfuel : zones.length < loop_fuel)
    (va size : UInt32) :
    ∃ r, s.walk (page_free_pass s va size) (fun _ _ => none) NULL p () = some r ∧
      ((∃ before a after, zones = before ++ a :: after ∧ Matches (s.area a) va size ∧
          r = some (before.getLastD NULL, a)) ∨
        (∀ a ∈ zones, ¬ Matches (s.area a) va size) ∧ r = none) := by
  have hpass : ∀ q, ∀ a ∈ zones, page_free_pass s va size q a () = .go () →
      ¬ Matches (s.area a) va size := by
    intro q a ha hgo hmatch
    simp only [page_free_pass, if_pos ((vmzone.match_iff (s.zone a) va size).mpr hmatch)] at hgo
    cases hgo
  obtain ⟨before, after, r, hsplit, hbefore, hexit, hwalk⟩ :=
    hchain.search_rule hfuel (page_free_pass s va size) (fun _ _ => none) _ NULL hpass
  refine ⟨r, hwalk, ?_⟩
  cases after with
  | nil =>
    rw [List.append_nil] at hsplit
    exact Or.inr ⟨hsplit ▸ hbefore, hexit⟩
  | cons a after =>
    simp only [Exit, page_free_pass] at hexit
    split at hexit
    · next hmatch =>
      cases hexit
      exact Or.inl ⟨before, a, after, hsplit, (vmzone.match_iff (s.zone a) va size).mp hmatch, rfl⟩
    · cases hexit

/-- What lies before the first of some last zones lies before all of them. -/
theorem after_of_head {before after : List UInt32} {a : UInt32} (hsplit : zones = before ++ a :: after)
    (hpacked : Packed lo hi (s.areas zones)) {x : Nat} (hx : x ≤ (s.area a).lo) :
    ∀ z ∈ s.areas (a :: after), x ≤ z.lo := by
  rw [hsplit, areas_append] at hpacked
  have hrest := hpacked.sublist (List.sublist_append_right (s.areas before) (s.areas (a :: after)))
  rw [areas_cons] at hrest ⊢
  exact hrest.hi_le_of_head hx

/-- No zone up to some zone ends after that one. -/
theorem before_of_last {q : UInt32} {before after : List UInt32}
    (hpacked : Packed lo hi (s.areas (q :: (before ++ after)))) :
    ∀ z ∈ s.areas (q :: before), z.hi ≤ (s.area (before.getLastD q)).hi := by
  obtain ⟨front, a, hsplit, hlast⟩ := exists_last_of_cons q before
  rw [← List.cons_append, areas_append] at hpacked
  have hfront := hpacked.sublist (List.sublist_append_left _ _)
  rw [hsplit, areas_append] at hfront
  rw [hlast, hsplit, areas_append]
  exact hfront.hi_le_last

/-- As `page_alloc_in_addr` tests it, in 32 bits, no area is in the way of `size`
bytes from `va` on. -/
def FreeFrom (va size : UInt32) (areas : List Area) : Prop :=
  ∀ z ∈ areas, va.toNat ∉ z.range ∧ (va.toNat < z.lo → (va + size).toNat ≤ z.lo)

/-- `page_alloc_in_addr` finds the place between the zones that end before `va`
and those that begin after it, unless a zone is in the way. -/
theorem page_alloc_in_addr_place (hchain : s.ChainFrom p zones) (hfuel : zones.length < loop_fuel)
    (hpacked : Packed lo hi (s.areas zones)) (hhi : hi < UInt32.size) (va size : UInt32) :
    ∃ r, s.walk (page_alloc_in_addr_pass s va size) (fun q _ => some (q, NULL)) NULL p () = some r ∧
      ((r = none ∧ ¬ FreeFrom va size (s.areas zones)) ∨ ∃ before after, zones = before ++ after ∧
        r = some (before.getLastD NULL, after.headD NULL) ∧ FreeFrom va size (s.areas zones) ∧
        (∀ z ∈ s.areas before, z.hi ≤ va.toNat) ∧ ∀ z ∈ s.areas after, va.toNat < z.lo) := by
  have hpass : ∀ q, ∀ a ∈ zones, page_alloc_in_addr_pass s va size q a () = .go () →
      (s.area a).hi ≤ va.toNat := by
    intro q a ha hgo
    simp only [page_alloc_in_addr_pass] at hgo
    split at hgo
    · cases hgo
    · next hout =>
      split at hgo
      · split at hgo <;> cases hgo
      · next hbase =>
        have hlo : (s.area a).lo ≤ va.toNat := UInt32.le_iff_toNat_le.mp (UInt32.not_lt.mp hbase)
        exact not_lt.mp fun hlt => hout ((test_iff hpacked hhi ha va).mpr ⟨hlo, hlt⟩)
  obtain ⟨before, after, r, hsplit, hbefore, hexit, hwalk⟩ :=
    hchain.search_rule hfuel (page_alloc_in_addr_pass s va size) (fun q _ => some (q, NULL)) _ NULL
      hpass
  have hareas : ∀ z ∈ s.areas before, z.hi ≤ va.toNat := by
    intro z hz
    obtain ⟨a, ha, rfl⟩ := List.mem_map.mp hz
    exact hbefore a ha
  have hfree : (∀ z ∈ s.areas after, va.toNat < z.lo ∧ (va + size).toNat ≤ z.lo) →
      FreeFrom va size (s.areas zones) := by
    intro hafter z hz
    have hinside := hpacked.inside z hz
    rw [hsplit, areas_append] at hz
    obtain hz | hz := List.mem_append.mp hz
    · have hle := hareas z hz
      exact ⟨fun hin => absurd hin.2 (not_lt.mpr hle), fun hlt => by omega⟩
    · obtain ⟨hlt, hle⟩ := hafter z hz
      exact ⟨fun hin => absurd hin.1 (not_le.mpr hlt), fun _ => hle⟩
  refine ⟨r, hwalk, ?_⟩
  cases after with
  | nil =>
    refine Or.inr ⟨before, [], hsplit, hexit, hfree ?_, hareas, ?_⟩
    · exact fun _ h => absurd h List.not_mem_nil
    · exact fun _ h => absurd h List.not_mem_nil
  | cons a after =>
    have ha : a ∈ zones := hsplit ▸ List.mem_append_right before List.mem_cons_self
    have harea : s.area a ∈ s.areas zones := List.mem_map_of_mem ha
    simp only [Exit, page_alloc_in_addr_pass] at hexit
    split at hexit
    · next hin =>
      cases hexit
      exact Or.inl ⟨rfl, fun hfrom => (hfrom _ harea).1 ((test_iff hpacked hhi ha va).mp hin)⟩
    · split at hexit
      · next hbase =>
        have hlt : va.toNat < (s.area a).lo := UInt32.lt_iff_toNat_lt.mp hbase
        split at hexit
        · next hover =>
          cases hexit
          refine Or.inl ⟨rfl, fun hfrom => ?_⟩
          have hle := (hfrom _ harea).2 hlt
          exact absurd (UInt32.lt_iff_toNat_lt.mp hover) (not_lt.mpr hle)
        · next hroom =>
          cases hexit
          have hle : (va + size).toNat ≤ (s.area a).lo :=
            UInt32.le_iff_toNat_le.mp (UInt32.not_lt.mp hroom)
          have hafter : ∀ z ∈ s.areas (a :: after), va.toNat < z.lo :=
            fun z hz => after_of_head hsplit hpacked (Nat.succ_le_of_lt hlt) z hz
          refine Or.inr ⟨before, a :: after, hsplit, rfl, hfree ?_, hareas, hafter⟩
          exact fun z hz => ⟨hafter z hz, after_of_head hsplit hpacked hle z hz⟩
      · cases hexit

/-- Where nothing wraps, the place has room for all of the pages. -/
theorem page_alloc_in_addr_walk (hchain : s.ChainFrom p zones) (hfuel : zones.length < loop_fuel)
    (hpacked : Packed lo hi (s.areas zones)) (hhi : hi < UInt32.size) {va size : UInt32}
    (hend : va.toNat + size.toNat < UInt32.size) :
    ∃ r, s.walk (page_alloc_in_addr_pass s va size) (fun q _ => some (q, NULL)) NULL p () = some r ∧
      (r = none ∨ ∃ before after, zones = before ++ after ∧
        r = some (before.getLastD NULL, after.headD NULL) ∧
        (∀ z ∈ s.areas before, z.hi ≤ va.toNat) ∧
        ∀ z ∈ s.areas after, va.toNat + size.toNat ≤ z.lo) := by
  obtain ⟨r, hwalk, hr⟩ := page_alloc_in_addr_place hchain hfuel hpacked hhi va size
  obtain ⟨hnone, -⟩ | ⟨before, after, rfl, hplace, hfree, hbefore, hafter⟩ := hr
  · exact ⟨r, hwalk, Or.inl hnone⟩
  · refine ⟨r, hwalk, Or.inr ⟨before, after, rfl, hplace, hbefore, ?_⟩⟩
    intro z hz
    have hmem : z ∈ s.areas (before ++ after) := areas_append s .. ▸ List.mem_append_right _ hz
    have hle := (hfree z hmem).2 (hafter z hz)
    rwa [UInt32.toNat_add, Nat.mod_eq_of_lt hend] at hle

/-- `page_alloc`, in its list of the zone `q` and others, passes `before` and stops
there: up to then the next zone is too close, as tested in 32 bits, and now it is not. -/
structure FirstGap (s : Vmspace) (size q : UInt32) (before after : List UInt32) : Prop where
  close : ∀ front a back, before = front ++ a :: back →
    ¬ s.zone_end (front.getLastD q) + size ≤ (s.zone a).base
  room : ∀ a back, after = a :: back → s.zone_end (before.getLastD q) + size ≤ (s.zone a).base

theorem FirstGap.unique {size q : UInt32} {before after before' after' : List UInt32}
    (hgap : FirstGap s size q before after) (hgap' : FirstGap s size q before' after')
    (hsplit : before ++ after = before' ++ after') : before = before' := by
  obtain ⟨c, rfl, rfl⟩ | ⟨c, rfl, rfl⟩ := List.append_eq_append_iff.mp hsplit
  · cases c with
    | nil => exact (List.append_nil before).symm
    | cons a c => exact absurd (hgap.room a _ rfl) (hgap'.close before a c rfl)
  · cases c with
    | nil => exact List.append_nil before'
    | cons a c => exact absurd (hgap'.room a _ rfl) (hgap.close before' a c rfl)

theorem split_of_concat {before front back : List UInt32} {a b : UInt32}
    (heq : before ++ [a] = front ++ b :: back) :
    front = before ∧ b = a ∨ ∃ c, before = front ++ b :: c := by
  cases back using List.reverseRecOn with
  | nil =>
    obtain ⟨hfront, hb⟩ := List.append_inj' heq rfl
    exact Or.inl ⟨hfront.symm, (List.cons.inj hb).1.symm⟩
  | append_singleton back c =>
    rw [← List.cons_append, ← List.append_assoc] at heq
    exact Or.inr ⟨back, (List.append_inj' heq rfl).1⟩

/-- `page_alloc` stops at the first gap, with `va` at its start. -/
theorem page_alloc_place (hchain : s.ChainFrom p zones) (hfuel : zones.length < loop_fuel)
    (q size : UInt32) :
    ∃ before after, zones = before ++ after ∧ FirstGap s size q before after ∧
      s.walk (page_alloc_pass s size) (fun q va => (va, q, NULL)) q p (s.zone_end q) =
        some (s.zone_end (before.getLastD q), before.getLastD q, after.headD NULL) := by
  obtain ⟨before, after, va, r, hsplit, ⟨rfl, hclose⟩, hexit, hwalk⟩ :=
    hchain.walk_rule hfuel (page_alloc_pass s size) (fun q va => (va, q, NULL))
      (fun before va => va = s.zone_end (before.getLastD q) ∧ ∀ front a back,
        before = front ++ a :: back → ¬ s.zone_end (front.getLastD q) + size ≤ (s.zone a).base)
      q ⟨rfl, fun front a back h => absurd h (by simp)⟩ (by
        rintro before a after t u - ⟨rfl, hclose⟩ hgo
        simp only [page_alloc_pass] at hgo
        split at hgo
        · cases hgo
        · next hnot =>
          cases hgo
          refine ⟨by rw [List.getLastD_concat]; rfl, ?_⟩
          intro front b back heq
          obtain ⟨rfl, rfl⟩ | ⟨c, hfront⟩ := split_of_concat heq
          · exact hnot
          · exact hclose front b c hfront)
  refine ⟨before, after, hsplit, ⟨hclose, ?_⟩, ?_⟩
  · rintro a back rfl
    simp only [Exit, page_alloc_pass] at hexit
    split at hexit
    · next hroom => exact hroom
    · cases hexit
  · cases after with
    | nil =>
      have hr : r = (_, before.getLastD q, NULL) := hexit
      exact hr ▸ hwalk
    | cons a after =>
      simp only [Exit, page_alloc_pass] at hexit
      split at hexit
      · cases hexit
        exact hwalk
      · cases hexit

/-- The zones passed end before the gap, and where nothing wraps the others begin
after the pages. -/
theorem FirstGap.between {size q : UInt32} {before after : List UInt32}
    (hgap : FirstGap s size q before after)
    (hpacked : Packed lo hi (s.areas (q :: (before ++ after)))) (hhi : hi < UInt32.size) :
    (∃ a ∈ q :: (before ++ after), (s.zone_end (before.getLastD q)).toNat = (s.area a).hi) ∧
    (∀ z ∈ s.areas (q :: before), z.hi ≤ (s.zone_end (before.getLastD q)).toNat) ∧
    ((s.zone_end (before.getLastD q)).toNat + size.toNat < UInt32.size →
      ∀ z ∈ s.areas after, (s.zone_end (before.getLastD q)).toNat + size.toNat ≤ z.lo) := by
  have hlast : before.getLastD q ∈ q :: (before ++ after) := by
    have hmem : before.getLastD q ∈ q :: before := List.getLastD_mem_cons
    rw [← List.cons_append]
    exact List.mem_append_left after hmem
  have hva : (s.zone_end (before.getLastD q)).toNat = (s.area (before.getLastD q)).hi :=
    vmzone.end_toNat ((area_inside hpacked hlast).2.2.trans_lt hhi)
  have hzones : Packed lo hi (s.areas (before ++ after)) :=
    hpacked.sublist (List.sublist_cons_self _ _)
  refine ⟨⟨_, hlast, hva⟩, hva ▸ before_of_last hpacked, ?_⟩
  intro hfit
  cases after with
  | nil => exact fun _ h => absurd h List.not_mem_nil
  | cons a after =>
    have hle := UInt32.le_iff_toNat_le.mp (hgap.room a after rfl)
    rw [UInt32.toNat_add, Nat.mod_eq_of_lt hfit] at hle
    exact after_of_head rfl hzones hle

/-- `page_alloc` stops after a zone, with `va` at its end and room up to the next. -/
theorem page_alloc_walk (hchain : s.ChainFrom p zones) (hfuel : zones.length < loop_fuel) {q : UInt32}
    (hpacked : Packed lo hi (s.areas (q :: zones))) (hhi : hi < UInt32.size) (size : UInt32) :
    ∃ before after va, zones = before ++ after ∧
      s.walk (page_alloc_pass s size) (fun q va => (va, q, NULL)) q p (s.zone_end q) =
        some (va, before.getLastD q, after.headD NULL) ∧
      (∃ a ∈ q :: zones, va.toNat = (s.area a).hi) ∧ (∀ z ∈ s.areas (q :: before), z.hi ≤ va.toNat) ∧
      (va.toNat + size.toNat < UInt32.size → ∀ z ∈ s.areas after, va.toNat + size.toNat ≤ z.lo) := by
  obtain ⟨before, after, rfl, hgap, hwalk⟩ := page_alloc_place hchain hfuel q size
  exact ⟨before, after, _, rfl, hwalk, hgap.between hpacked hhi⟩

end Walks

end epos.page
