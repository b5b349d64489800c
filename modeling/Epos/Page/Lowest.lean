import Epos.Page.Exact

open chains spans

namespace epos.page

open Vmspace

/-- Where the part of the address space begins that `page_alloc` looks through. -/
def alloc_min (user : UInt32) : UInt32 := if user ≠ 0 then USER_MIN_ADDR else USER_MAX_ADDR

/-- The zones of that part. -/
def alloc_side (ks us : List UInt32) (user : UInt32) : List UInt32 := if user ≠ 0 then us else km0 :: ks

/-- The pages from `a` on are in the part asked for and meet no zone. -/
structure FreePlace (s : Vmspace) (ks us : List UInt32) (npages : Int32) (user : UInt32) (a : Nat) :
    Prop where
  aligned : a % PAGE_SIZE.toNat = 0
  low : (alloc_min user).toNat ≤ a
  high : a + exact_size npages ≤ (alloc_max user).toNat
  free : ∀ z ∈ s.areas (km0 :: ks ++ us), Disjoint (Set.Ico a (a + exact_size npages)) z.range

/-- `page_alloc` fails only if there is no place, and otherwise returns the lowest. -/
structure ReturnsLowest (s : Vmspace) (ks us : List UInt32) (npages : Int32) (user r : UInt32) : Prop where
  fails : r = SIZE_MAX → ∀ a, ¬ FreePlace s ks us npages user a
  lowest : r ≠ SIZE_MAX → IsLeast {a | FreePlace s ks us npages user a} r.toNat

theorem alloc_max_lt (user : UInt32) : (alloc_max user).toNat < UInt32.size := by
  rw [alloc_max]
  split
  · exact bounds_lt.1
  · exact bounds_lt.2

/-- Only the user list may be empty, and it begins at USER_MIN_ADDR. -/
theorem min_of_nil {ks us : List UInt32} {user : UInt32} (hnil : alloc_side ks us user = []) :
    (alloc_min user).toNat = USER_MIN_ADDR.toNat := by
  by_cases huser : user ≠ 0
  · rw [alloc_min, if_pos huser]
  · rw [alloc_side, if_neg huser] at hnil
    cases hnil

/-- Counted exactly, the first gap of `n` bytes behind a zone is the one behind the last of `q` and `before`. -/
structure FirstRoom (s : Vmspace) (n : Nat) (q : UInt32) (before after : List UInt32) : Prop where
  close : ∀ front a back, before = front ++ a :: back → (s.area a).lo < (s.area (front.getLastD q)).hi + n
  room : ∀ a back, after = a :: back → (s.area (before.getLastD q)).hi + n ≤ (s.area a).lo

/-- No room before the first zone: the list is empty, or begins too low. -/
def NoRoomBefore (s : Vmspace) (lo : Nat) (zones : List UInt32) (npages : Int32) : Prop :=
  ∀ q ∈ zones.head?, (s.area q).lo < lo + exact_size npages

/-- The zone before the first gap of `n` bytes ends on a page boundary, if they end at `hi` or before. -/
def GapOnPage (s : Vmspace) (hi n : Nat) (zones : List UInt32) : Prop :=
  ∀ q before after, zones = q :: (before ++ after) → FirstRoom s n q before after →
    (s.area (before.getLastD q)).hi + n ≤ hi → (s.area (before.getLastD q)).hi % PAGE_SIZE.toNat = 0

section Search

variable {s : Vmspace} {lo hi n : Nat} {q size : UInt32} {before after : List UInt32}

theorem zone_end_toNat {zones : List UInt32} (hpacked : Packed lo hi (s.areas zones)) (hhi : hi < UInt32.size) {p : UInt32}
    (hp : p ∈ zones) : (s.zone_end p).toNat = (s.area p).hi :=
  vmzone.end_toNat ((area_inside hpacked hp).2.2.trans_lt hhi)

theorem last_mem (q : UInt32) (before after : List UInt32) : before.getLastD q ∈ q :: (before ++ after) := by
  have hmem : before.getLastD q ∈ q :: before := List.getLastD_mem_cons
  rw [← List.cons_append]
  exact List.mem_append_left after hmem

/-- A zone that the search has passed is between the one before it and the one it stops behind. -/
theorem passed_bounds (hpacked : Packed lo hi (s.areas (q :: (before ++ after)))) {front back : List UInt32} {a : UInt32}
    (hsplit : before = front ++ a :: back) :
    (s.area (front.getLastD q)).hi ≤ (s.area a).lo ∧ (s.area a).lo < (s.area (before.getLastD q)).hi := by
  have ha : a ∈ q :: before := by
    rw [hsplit]
    simp
  have hbelow := before_of_last hpacked (s.area a) (List.mem_map_of_mem ha)
  have hinside := area_inside hpacked (List.mem_append_left after ha)
  refine ⟨?_, by omega⟩
  have hlast : front.getLastD q ∈ q :: front := List.getLastD_mem_cons
  have hascending := hpacked.ascending
  rw [hsplit, List.append_assoc, ← List.cons_append, areas_append] at hascending
  exact (List.pairwise_append.mp hascending).2.2 _ (List.mem_map_of_mem hlast) _ (List.mem_map_of_mem (by simp))

/-- A sum that wraps is less than the end of its zone, so the search does not pass it. -/
theorem FirstGap.firstRoom (hgap : FirstGap s size q before after)
    (hpacked : Packed lo hi (s.areas (q :: (before ++ after)))) (hhi : hi < UInt32.size) (hsize : size.toNat = n)
    (hfits : (s.area (before.getLastD q)).hi < hi → (s.area (before.getLastD q)).hi + n < UInt32.size) :
    FirstRoom s n q before after := by
  constructor
  · intro front a back hsplit
    have hlast : front.getLastD q ∈ q :: (before ++ after) := by
      rw [hsplit, List.append_assoc]
      exact last_mem q front _
    have hend := zone_end_toNat hpacked hhi hlast
    have hbounds := passed_bounds hpacked hsplit
    have hinside := area_inside hpacked hlast
    have hclose := hgap.close front a back hsplit
    have hbase : (s.area a).lo = (s.zone a).base.toNat := rfl
    have hlt := (s.zone a).base.toNat_lt
    rw [UInt32.not_le, UInt32.lt_iff_toNat_lt, UInt32.toNat_add, hend, hsize] at hclose
    omega
  · intro a back hafter
    have ha : a ∈ q :: (before ++ after) := by
      rw [hafter]
      simp
    have hinside := area_inside hpacked ha
    have hascending := hpacked.ascending
    rw [← List.cons_append, areas_append, hafter] at hascending
    have hle := (List.pairwise_append.mp hascending).2.2 _ (List.mem_map_of_mem (List.getLastD_mem_cons (l := before) (a := q)))
      _ (List.mem_map_of_mem List.mem_cons_self)
    have hfit := hfits (by omega)
    have hroom := UInt32.le_iff_toNat_le.mp (hgap.room a back hafter)
    rw [UInt32.toNat_add, zone_end_toNat hpacked hhi (last_mem q before after), hsize, Nat.mod_eq_of_lt hfit] at hroom
    exact hroom

theorem FirstRoom.firstGap (hroom : FirstRoom s n q before after)
    (hpacked : Packed lo hi (s.areas (q :: (before ++ after)))) (hhi : hi < UInt32.size) (hsize : size.toNat = n)
    (hfits : (s.area (before.getLastD q)).hi + n < UInt32.size) : FirstGap s size q before after := by
  constructor
  · intro front a back hsplit
    have hlast : front.getLastD q ∈ q :: (before ++ after) := by
      rw [hsplit, List.append_assoc]
      exact last_mem q front _
    have hbounds := passed_bounds hpacked hsplit
    have hclose := hroom.close front a back hsplit
    have hfit : (s.area (front.getLastD q)).hi + n < UInt32.size := by omega
    rw [UInt32.not_le, UInt32.lt_iff_toNat_lt, UInt32.toNat_add, zone_end_toNat hpacked hhi hlast, hsize,
      Nat.mod_eq_of_lt hfit]
    exact hclose
  · intro a back hafter
    rw [UInt32.le_iff_toNat_le, UInt32.toNat_add, zone_end_toNat hpacked hhi (last_mem q before after), hsize,
      Nat.mod_eq_of_lt hfits]
    exact hroom.room a back hafter

/-- The search passes a zone only if nothing fits between it and the zone before, so
it never passes a place. -/
theorem FirstRoom.le (hroom : FirstRoom s n q before after) (hpacked : Packed lo hi (s.areas (q :: (before ++ after))))
    (hpos : 0 < n) (hfirst : (s.area q).lo < lo + n) {a : Nat} (hlow : lo ≤ a)
    (hfree : ∀ z ∈ s.areas (q :: (before ++ after)), Disjoint (Set.Ico a (a + n)) z.range) :
    (s.area (before.getLastD q)).hi ≤ a := by
  have happart : ∀ p ∈ q :: (before ++ after), a + n ≤ (s.area p).lo ∨ (s.area p).hi ≤ a := by
    intro p hp
    have hinside := area_inside hpacked hp
    exact le_or_le_of_disjoint (by omega) hinside.2.1 (hfree _ (List.mem_map_of_mem hp))
  have hpassed : ∀ front back, before = front ++ back → (s.area (front.getLastD q)).hi ≤ a := by
    intro front
    induction front using List.reverseRecOn with
    | nil =>
      intro back _
      rw [List.getLastD_nil]
      have hq := happart q List.mem_cons_self
      omega
    | append_singleton front b ih =>
      intro back hsplit
      rw [List.append_assoc, List.singleton_append] at hsplit
      have hprev := ih (b :: back) hsplit
      have hb : b ∈ q :: (before ++ after) := by
        rw [hsplit]
        simp
      have hclose := hroom.close front b back hsplit
      have hapart := happart b hb
      rw [List.getLastD_concat]
      omega
  exact hpassed before [] (List.append_nil before).symm

end Search

namespace Vmspace.Sorted

variable {s : Vmspace} {ks us : List UInt32} {npages : Int32} {user : UInt32}

theorem side_packed (h : s.Sorted ks us) (user : UInt32) :
    Packed (alloc_min user).toNat (alloc_max user).toNat (s.areas (alloc_side ks us user)) := by
  simp only [alloc_min, alloc_max, alloc_side]
  split
  · exact h.user_packed
  · exact h.kernel_packed

/-- The zones of the other part are in nobody's way. -/
theorem place_free_iff (h : s.Sorted ks us) {a : Nat} (hlow : (alloc_min user).toNat ≤ a)
    (hhigh : a + exact_size npages ≤ (alloc_max user).toNat) :
    (∀ z ∈ s.areas (km0 :: ks ++ us), Disjoint (Set.Ico a (a + exact_size npages)) z.range) ↔
      ∀ z ∈ s.areas (alloc_side ks us user), Disjoint (Set.Ico a (a + exact_size npages)) z.range := by
  have hbefore : ∀ z : Area, z.hi ≤ a → Disjoint (Set.Ico a (a + exact_size npages)) z.range := by
    intro z hz
    rw [Span.range, Set.Ico_disjoint_Ico]
    omega
  have hafter : ∀ z : Area, a + exact_size npages ≤ z.lo →
      Disjoint (Set.Ico a (a + exact_size npages)) z.range := by
    intro z hz
    rw [Span.range, Set.Ico_disjoint_Ico]
    omega
  rw [areas_append]
  by_cases huser : user ≠ 0
  · rw [alloc_side, if_pos huser]
    rw [alloc_max, if_pos huser] at hhigh
    constructor
    · exact fun hall z hz => hall z (List.mem_append_right _ hz)
    · intro hside z hz
      obtain hz | hz := List.mem_append.mp hz
      · exact hafter z (hhigh.trans (h.kernel_packed.inside z hz).1)
      · exact hside z hz
  · rw [alloc_side, if_neg huser]
    rw [alloc_min, if_neg huser] at hlow
    constructor
    · exact fun hall z hz => hall z (List.mem_append_left _ hz)
    · intro hside z hz
      obtain hz | hz := List.mem_append.mp hz
      · exact hside z hz
      · exact hbefore z ((h.user_packed.inside z hz).2.2.trans hlow)

/-- What the search finds is the one address of an empty list, or the first gap. -/
theorem found_room (h : s.Sorted ks us) (hpos : 0 < npages) (hsize : FitsSize npages) (hfits : FitsFound s npages user)
    {va : UInt32} (hfound : Found s (size_of_pages npages) va (alloc_side ks us user)) :
    (va < alloc_max user → va.toNat + exact_size npages < UInt32.size) ∧
      (alloc_side ks us user = [] ∧ va = USER_MIN_ADDR ∨
        ∃ q before after, alloc_side ks us user = q :: (before ++ after) ∧
          FirstRoom s (exact_size npages) q before after ∧ va.toNat = (s.area (before.getLastD q)).hi) := by
  have hend : va < alloc_max user → va.toNat + exact_size npages < UInt32.size := by
    intro hva
    obtain ⟨va', q, p, hsearch, hfound'⟩ := h.page_alloc_search_found (size_of_pages npages) user
    obtain rfl : va = va' := hfound.unique hfound'
    have hfit := hfits hpos _ hsearch hva
    rw [exact_size_of_lt hpos (hsize hpos)] at hfit
    exact hfit
  refine ⟨hend, ?_⟩
  have hpacked := h.side_packed user
  generalize alloc_side ks us user = zones at hfound hpacked
  cases zones with
  | nil => exact Or.inl ⟨rfl, hfound⟩
  | cons q zones =>
    obtain ⟨before, after, rfl, hgap, rfl⟩ := hfound
    have hva := zone_end_toNat hpacked (alloc_max_lt user) (last_mem q before after)
    rw [UInt32.lt_iff_toNat_lt, hva] at hend
    exact Or.inr ⟨q, before, after, rfl, hgap.firstRoom hpacked (alloc_max_lt user) (exact_size_of_lt hpos (hsize hpos)) hend, hva⟩

/-- With no room before the first zone, no place is below what the search finds. -/
theorem found_le (h : s.Sorted ks us) (hpos : 0 < npages) (hsize : FitsSize npages) (hfits : FitsFound s npages user)
    (hfirst : NoRoomBefore s (alloc_min user).toNat (alloc_side ks us user) npages) {va : UInt32}
    (hfound : Found s (size_of_pages npages) va (alloc_side ks us user)) {a : Nat}
    (hplace : FreePlace s ks us npages user a) : va.toNat ≤ a := by
  obtain ⟨hside, rfl⟩ | ⟨q, before, after, hside, hroom, hva⟩ := (h.found_room hpos hsize hfits hfound).2
  · exact (min_of_nil hside).ge.trans hplace.low
  · have hpacked := h.side_packed user
    have hfree := (h.place_free_iff hplace.low hplace.high).mp hplace.free
    rw [hside] at hpacked hfree
    rw [hva]
    exact hroom.le hpacked (exact_size_pos hpos) (hfirst q (by rw [hside]; rfl)) hplace.low hfree

/-- The address behind the zone before the first gap is accepted if the pages fit there. -/
theorem gap_accepted (h : s.Sorted ks us) (hpos : 0 < npages) (hsize : FitsSize npages) {q : UInt32}
    {before after : List UInt32} (hside : alloc_side ks us user = q :: (before ++ after))
    (hroom : FirstRoom s (exact_size npages) q before after)
    (htop : (s.area (before.getLastD q)).hi + exact_size npages ≤ (alloc_max user).toNat) :
    (s.zone_end (before.getLastD q)).toNat = (s.area (before.getLastD q)).hi ∧
      AcceptsFound s ks us (s.zone_end (before.getLastD q)) npages user := by
  have hpacked := h.side_packed user
  have hmax := alloc_max_lt user
  have hnonempty := exact_size_pos hpos
  rw [hside] at hpacked
  have hva := zone_end_toNat hpacked hmax (last_mem q before after)
  have hgap := hroom.firstGap hpacked hmax (exact_size_of_lt hpos (hsize hpos)) (by omega)
  have hfound : Found s (size_of_pages npages) (s.zone_end (before.getLastD q)) (alloc_side ks us user) := by
    rw [hside]
    exact ⟨before, after, rfl, hgap, rfl⟩
  refine ⟨hva, hpos, hfound, ?_, ?_⟩
  · rw [UInt32.lt_iff_toNat_lt, hva]
    omega
  · rw [UInt32.le_iff_toNat_le, end_of_lt hpos (by omega), hva]
    exact htop

/-- An accepted address on a page boundary is a place. -/
theorem place_of_accepted (h : s.Sorted ks us) {va : UInt32} (hend : va.toNat + exact_size npages < UInt32.size)
    (haccepts : AcceptsFound s ks us va npages user) (haligned : va.toNat % PAGE_SIZE.toNat = 0) :
    FreePlace s ks us npages user va.toNat := by
  have hfound : Found s (size_of_pages npages) va (alloc_side ks us user) := haccepts.found
  have hsize := exact_size_of_lt haccepts.pos (by omega)
  have hroom : va.toNat + (size_of_pages npages).toNat < UInt32.size := by
    rw [hsize]
    exact hend
  obtain ⟨hlow, hapart⟩ := found_apart hfound (h.side_packed user) (alloc_max_lt user)
    (fun hnil => (min_of_nil hnil).le) hroom
  have hhigh := UInt32.le_iff_toNat_le.mp haccepts.top
  rw [UInt32.toNat_add, Nat.mod_eq_of_lt hroom, hsize] at hhigh
  refine ⟨haligned, hlow, hhigh, (h.place_free_iff hlow hhigh).mpr fun z hz => ?_⟩
  have hz' := hapart z hz
  rw [Span.range, Set.Ico_disjoint_Ico]
  omega

/-- With room before the first zone, the lowest place is the very start. -/
theorem place_before_first (h : s.Sorted ks us) {q : UInt32} {zones : List UInt32}
    (hside : alloc_side ks us user = q :: zones)
    (hroom : (alloc_min user).toNat + exact_size npages ≤ (s.area q).lo) :
    FreePlace s ks us npages user (alloc_min user).toNat := by
  have hpacked := h.side_packed user
  rw [hside] at hpacked
  have hinside := area_inside hpacked List.mem_cons_self
  have hhigh : (alloc_min user).toNat + exact_size npages ≤ (alloc_max user).toNat := by omega
  refine ⟨?_, Nat.le_refl _, hhigh, (h.place_free_iff (Nat.le_refl _) hhigh).mpr ?_⟩
  · rw [alloc_min]
    split
    · decide
    · decide
  · rw [hside]
    intro z hz
    have hz' := after_of_head (List.nil_append _).symm hpacked hroom z hz
    rw [Span.range, Set.Ico_disjoint_Ico]
    omega

end Vmspace.Sorted

/-- Where no sum wraps, `page_alloc` finds the lowest place, or rightly none, just when
there is no room before the first zone of its list, where it never looks, and the zone
before the first gap ends on a page boundary, as all do if they are made of pages. -/
theorem page_alloc_lowest_iff {s : Vmspace} {ks us : List UInt32} (h : s.Sorted ks us) {npages : Int32}
    (hpos : 0 < npages) {user : UInt32} (hsize : FitsSize npages) (hfits : FitsFound s npages user) (x prot : UInt32) :
    (∃ r t, page_alloc s x npages prot user = some (r, t) ∧ ReturnsLowest s ks us npages user r) ↔
      NoRoomBefore s (alloc_min user).toNat (alloc_side ks us user) npages ∧
        GapOnPage s (alloc_max user).toNat (exact_size npages) (alloc_side ks us user) := by
  have hpacked := h.side_packed user
  have hmax := alloc_max_lt user
  have hnonempty := exact_size_pos hpos
  obtain ⟨r, t, hcall, hr⟩ := h.page_alloc_accepts x npages prot user
  rw [hcall]
  constructor
  · rintro ⟨_, _, ⟨⟩, hlowest⟩
    constructor
    · intro q hq
      by_contra hroom
      obtain ⟨zones, hside⟩ : ∃ zones, alloc_side ks us user = q :: zones := List.head?_eq_some_iff.mp hq
      have hplace := h.place_before_first hside (Nat.not_lt.mp hroom)
      obtain hr | ⟨-, hfail⟩ := hr
      · have hmin := (hlowest.lowest hr.ne_size_max).2 hplace
        have hfound : Found s (size_of_pages npages) r (alloc_side ks us user) := hr.found
        rw [hside] at hfound hpacked
        obtain ⟨before, after, rfl, hgap, rfl⟩ := hfound
        have hpassed := (hgap.between hpacked hmax).2.1 (s.area q) (List.mem_map_of_mem List.mem_cons_self)
        have hinside := area_inside hpacked List.mem_cons_self
        omega
      · exact hlowest.fails hfail _ hplace
    · intro q before after hside hroom htop
      obtain ⟨hva, haccepts⟩ := h.gap_accepted hpos hsize hside hroom htop
      obtain hr | ⟨hnone, -⟩ := hr
      · obtain rfl := haccepts.found.unique hr.found
        rw [← hva]
        exact (hlowest.lowest hr.ne_size_max).1.aligned
      · exact absurd haccepts (hnone _)
  · rintro ⟨hfirst, hpage⟩
    refine ⟨r, t, rfl, fun hfail a hplace => ?_, fun hok => ?_⟩
    · obtain hr | ⟨hnone, -⟩ := hr
      · exact hr.ne_size_max hfail
      · obtain ⟨va, _, _, -, hfound⟩ := h.page_alloc_search_found (size_of_pages npages) user
        have hva := h.found_le hpos hsize hfits hfirst hfound hplace
        have hhigh := hplace.high
        have hbelow : va < alloc_max user := by
          rw [UInt32.lt_iff_toNat_lt]
          omega
        have hend := end_of_lt hpos ((h.found_room hpos hsize hfits hfound).1 hbelow)
        refine hnone va ⟨hpos, hfound, hbelow, ?_⟩
        rw [UInt32.le_iff_toNat_le, hend]
        omega
    · obtain hr | ⟨-, hfail⟩ := hr
      · obtain ⟨hend, hfound⟩ := h.found_room hpos hsize hfits hr.found
        have hfit := hend hr.high
        have htop := UInt32.le_iff_toNat_le.mp hr.top
        rw [end_of_lt hpos hfit] at htop
        have haligned : r.toNat % PAGE_SIZE.toNat = 0 := by
          obtain ⟨-, rfl⟩ | ⟨q, before, after, hside, hroom, hva⟩ := hfound
          · decide
          · rw [hva] at htop ⊢
            exact hpage q before after hside hroom htop
        exact ⟨h.place_of_accepted hfit hr haligned, fun a hplace =>
          h.found_le hpos hsize hfits hfirst hr.found hplace⟩
      · exact absurd hfail hok

/-- Two more kernel pages are found behind the two zones of the kernel list. -/
theorem page_alloc_lowest_two_calls :
    (∃ r t, page_alloc two_calls.vm 0xC0058040 2 VM_PROT_ALL 0 = some (r, t) ∧
      ReturnsLowest two_calls.vm [0xC0058020] [0xC0058000] 2 0 r) ∧
    (page_alloc two_calls.vm 0xC0058040 2 VM_PROT_ALL 0).map Prod.fst = some 0xC045A000 := by
  have hside : alloc_side [0xC0058020] [0xC0058000] 0 = [km0, 0xC0058020] := rfl
  have hks := two_calls_areas.1
  have hsearch : page_alloc_search two_calls.vm (size_of_pages 2) 0 = some (0xC045A000, 0xC0058020, NULL) := by decide +kernel
  have hsize : FitsSize 2 := fun _ => by decide
  have hfits : FitsFound two_calls.vm 2 0 := by
    intro _ found hfound _
    rw [hsearch] at hfound
    obtain rfl := Option.some.inj hfound
    decide
  refine ⟨(page_alloc_lowest_iff two_calls_sorted (by decide) hsize hfits 0xC0058040 VM_PROT_ALL).mpr ⟨?_, ?_⟩, by decide +kernel⟩
  · rw [hside]
    intro q hq
    obtain rfl : km0 = q := Option.some.inj hq
    rw [areas, List.map_cons, List.cons_eq_cons] at hks
    rw [hks.1]
    decide
  · rw [hside]
    intro q before after hsplit _ _
    have hmem := List.mem_map_of_mem (f := two_calls.vm.area) (last_mem q before after)
    rw [← hsplit] at hmem
    have hall : ∀ z ∈ two_calls.vm.areas [km0, 0xC0058020], z.hi % PAGE_SIZE.toNat = 0 := by
      rw [hks]
      decide
    exact hall _ hmem

/-- With one user page in use at 0x500000 and room from 0x400000 on below it, the
page is put above it. -/
theorem room_before_first_missed :
    two_calls.vm.Sorted [0xC0058020] [0xC0058000] ∧ FitsSize 1 ∧ FitsFound two_calls.vm 1 1 ∧
      ¬ ∃ r t, page_alloc two_calls.vm 0xC0058040 1 VM_PROT_RW 1 = some (r, t) ∧
        ReturnsLowest two_calls.vm [0xC0058020] [0xC0058000] 1 1 r := by
  have hside : alloc_side [0xC0058020] [0xC0058000] 1 = [0xC0058000] := rfl
  have hus := two_calls_areas.2
  have hsearch : page_alloc_search two_calls.vm (size_of_pages 1) 1 = some (0x501000, 0xC0058000, NULL) := by decide +kernel
  refine ⟨two_calls_sorted, fun _ => by decide, ?_, ?_⟩
  · intro _ found hfound _
    rw [hsearch] at hfound
    obtain rfl := Option.some.inj hfound
    decide
  · rintro ⟨r, t, hcall, hlowest⟩
    have hresult : (page_alloc two_calls.vm 0xC0058040 1 VM_PROT_RW 1).map Prod.fst = some 0x501000 := by
      decide +kernel
    rw [hcall] at hresult
    obtain rfl : r = 0x501000 := Option.some.inj hresult
    have hroom : (alloc_min 1).toNat + exact_size 1 ≤ (two_calls.vm.area 0xC0058000).lo := by
      rw [areas, List.map_singleton, List.cons_eq_cons] at hus
      rw [hus.1]
      decide
    have hplace := two_calls_sorted.place_before_first hside hroom
    exact absurd ((hlowest.lowest (by decide)).2 hplace) (by decide)

end epos.page
