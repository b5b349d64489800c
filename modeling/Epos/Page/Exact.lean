import Epos.Page.Runs

open chains spans

namespace epos.page

open Vmspace

/-- The zone lists are sorted, without overlap, and each in its part of the
address space. Nothing is said of alignment, nor of the heap. -/
structure Vmspace.Sorted (s : Vmspace) (ks us : List UInt32) : Prop where
  kernel : s.ChainFrom s.kvmzone (km0 :: ks)
  user : s.ChainFrom s.uvmzone us
  kernel_packed : Packed USER_MAX_ADDR.toNat KERN_MAX_ADDR.toNat (s.areas (km0 :: ks))
  user_packed : Packed USER_MIN_ADDR.toNat USER_MAX_ADDR.toNat (s.areas us)

/-- `npages * PAGE_SIZE`, without a width. -/
def exact_size (npages : Int32) : Nat := npages.toInt.toNat * PAGE_SIZE.toNat

/-- The pages from `a` on, counted exactly, are in one region and meet no zone. -/
structure ExactlyFree (s : Vmspace) (ks us : List UInt32) (a : UInt32) (npages : Int32) : Prop where
  pos : 1 ≤ npages.toInt
  region :
    USER_MIN_ADDR.toNat ≤ a.toNat ∧ a.toNat + exact_size npages ≤ USER_MAX_ADDR.toNat ∨
    USER_MAX_ADDR.toNat ≤ a.toNat ∧ a.toNat + exact_size npages ≤ KERN_MAX_ADDR.toNat
  free : ∀ z ∈ s.areas (km0 :: ks ++ us),
    Disjoint (Set.Ico a.toNat (a.toNat + exact_size npages)) z.range

/-- The zones of the list that the calls look through for `va`. -/
def side (ks us : List UInt32) (va : UInt32) : List UInt32 :=
  if va < USER_MAX_ADDR then us else km0 :: ks

/-- As tested in 32 bits, `page_alloc_in_addr` has nothing against the request. -/
structure Accepts (s : Vmspace) (ks us : List UInt32) (va : UInt32) (npages : Int32) : Prop where
  pos : 0 < npages
  aligned : va &&& PAGE_MASK = 0
  low : USER_MIN_ADDR ≤ va
  high : va < KERN_MAX_ADDR
  top : va + size_of_pages npages ≤ KERN_MAX_ADDR
  border : va < USER_MAX_ADDR → va + size_of_pages npages ≤ USER_MAX_ADDR
  free : FreeFrom va (size_of_pages npages) (s.areas (side ks us va))

/-- The address that `page_alloc` finds in its list: the start of the first gap. -/
def Found (s : Vmspace) (size va : UInt32) : List UInt32 → Prop
  | [] => va = USER_MIN_ADDR
  | q :: zones => ∃ before after, zones = before ++ after ∧ FirstGap s size q before after ∧
      va = s.zone_end (before.getLastD q)

section Sizes

variable {npages : Int32} {va : UInt32}

theorem size_toNat (hpos : 0 < npages) : (size_of_pages npages).toNat = exact_size npages % UInt32.size := by
  rw [size_of_pages, UInt32.toNat_mul, toInt_of_pos hpos]
  rfl

theorem exact_size_of_lt (hpos : 0 < npages) (hlt : exact_size npages < UInt32.size) :
    (size_of_pages npages).toNat = exact_size npages := by
  rw [size_toNat hpos, Nat.mod_eq_of_lt hlt]

theorem end_of_lt (hpos : 0 < npages) (hlt : va.toNat + exact_size npages < UInt32.size) :
    (va + size_of_pages npages).toNat = va.toNat + exact_size npages := by
  rw [UInt32.toNat_add, exact_size_of_lt hpos (by omega), Nat.mod_eq_of_lt hlt]

theorem ExactlyFree.fits {s : Vmspace} {ks us : List UInt32} (h : ExactlyFree s ks us va npages) :
    va.toNat + exact_size npages < UInt32.size := by
  have hmax : KERN_MAX_ADDR.toNat < UInt32.size := by decide
  have huser := USER_MAX_ADDR_toNat
  have hkern := KERN_MAX_ADDR_toNat
  obtain ⟨-, hregion⟩ | ⟨-, hregion⟩ := h.region
  · omega
  · omega

theorem one_le_toInt (hpos : 0 < npages) : 1 ≤ npages.toInt := by
  have hlt : (0 : Int) < npages.toInt := by simpa using Int32.lt_iff_toInt_lt.mp hpos
  omega

theorem exact_size_pos (hpos : 0 < npages) : 0 < exact_size npages := by
  have hone := one_le_toInt hpos
  rw [exact_size, PAGE_SIZE_toNat]
  omega

end Sizes

section Calls

variable {s : Vmspace} {ks us : List UInt32}

theorem Vmspace.Lists.sorted {brk : UInt32} (h : s.Lists brk ks us) : s.Sorted ks us :=
  ⟨h.kernel, h.user, h.kernel_packed, h.user_packed⟩

theorem areas_nodup {zones : List UInt32} {lo hi : Nat} (hpacked : Packed lo hi (s.areas zones)) :
    zones.Nodup := by
  have hareas : (s.areas zones).Nodup := by
    apply hpacked.lo_lt.imp
    intro a b hlt heq
    rw [heq] at hlt
    exact Nat.lt_irrefl _ hlt
  exact hareas.of_map s.area

/-- What `page_alloc_in_addr` makes of the place that its loop found. -/
def placed (s : Vmspace) (x va : UInt32) (npages : Int32) (prot : UInt32) :
    Option (UInt32 × UInt32) → UInt32 × Vmspace
  | none => (SIZE_MAX, s)
  | some (q, p) => (va, s.insert_zone x q p va (size_of_pages npages) prot)

namespace Vmspace.Sorted

theorem length_lt (h : s.Sorted ks us) : (km0 :: ks).length < loop_fuel ∧ us.length < loop_fuel :=
  ⟨chain_length_lt h.kernel (areas_nodup h.kernel_packed),
    chain_length_lt h.user (areas_nodup h.user_packed)⟩

theorem side_lt (h : s.Sorted ks us) {va a : UInt32} (ha : a ∈ side ks us va) :
    (s.area a).hi < UInt32.size := by
  rw [side] at ha
  split at ha
  · exact (area_inside h.user_packed ha).2.2.trans_lt bounds_lt.1
  · exact (area_inside h.kernel_packed ha).2.2.trans_lt bounds_lt.2

/-- Zones apart from the pages in their own list are apart from them in the other. -/
theorem exactlyFree (h : s.Sorted ks us) {va : UInt32} {npages : Int32} (hpos : 0 < npages)
    (user : Bool)
    (hlow : if user then USER_MIN_ADDR.toNat ≤ va.toNat else USER_MAX_ADDR.toNat ≤ va.toNat)
    (hhigh : va.toNat + exact_size npages ≤
      if user then USER_MAX_ADDR.toNat else KERN_MAX_ADDR.toNat)
    (hfree : ∀ z ∈ s.areas (if user then us else km0 :: ks),
      z.hi ≤ va.toNat ∨ va.toNat + exact_size npages ≤ z.lo) : ExactlyFree s ks us va npages := by
  have hapart : ∀ z : Area, z.hi ≤ va.toNat ∨ va.toNat + exact_size npages ≤ z.lo →
      Disjoint (Set.Ico va.toNat (va.toNat + exact_size npages)) z.range := by
    intro z hz
    rw [Set.disjoint_left]
    rintro x ⟨hxva, hxend⟩ ⟨hxlo, hxhi⟩
    omega
  cases user with
  | true =>
    refine ⟨one_le_toInt hpos, Or.inl ⟨hlow, hhigh⟩, ?_⟩
    intro z hz
    apply hapart
    rw [areas_append] at hz
    obtain hz | hz := List.mem_append.mp hz
    · have hinside := h.kernel_packed.inside z hz
      exact Or.inr (hhigh.trans hinside.1)
    · exact hfree z hz
  | false =>
    refine ⟨one_le_toInt hpos, Or.inr ⟨hlow, hhigh⟩, ?_⟩
    intro z hz
    apply hapart
    rw [areas_append] at hz
    obtain hz | hz := List.mem_append.mp hz
    · exact hfree z hz
    · have hinside := h.user_packed.inside z hz
      exact Or.inl (hinside.2.2.trans hlow)

/-- Its loop ends, with a place if the areas on the side of `va` leave the pages free. -/
theorem page_alloc_in_addr_loop (h : s.Sorted ks us) (va : UInt32) (npages : Int32) :
    ∃ r, s.walk (page_alloc_in_addr_pass s va (size_of_pages npages)) (fun q _ => some (q, NULL)) NULL
        (if va < USER_MAX_ADDR then s.uvmzone else s.kvmzone) () = some r ∧
      (r = none ∧ ¬ FreeFrom va (size_of_pages npages) (s.areas (side ks us va)) ∨
        ∃ q p, r = some (q, p) ∧ FreeFrom va (size_of_pages npages) (s.areas (side ks us va))) := by
  by_cases hva : va < USER_MAX_ADDR
  · simp only [side, if_pos hva]
    obtain ⟨r, hwalk, hr⟩ := page_alloc_in_addr_place h.user h.length_lt.2 h.user_packed bounds_lt.1
      va (size_of_pages npages)
    refine ⟨r, hwalk, hr.imp_right ?_⟩
    rintro ⟨_, _, _, hplace, hfree, _⟩
    exact ⟨_, _, hplace, hfree⟩
  · simp only [side, if_neg hva]
    obtain ⟨r, hwalk, hr⟩ := page_alloc_in_addr_place h.kernel h.length_lt.1 h.kernel_packed
      bounds_lt.2 va (size_of_pages npages)
    refine ⟨r, hwalk, hr.imp_right ?_⟩
    rintro ⟨_, _, _, hplace, hfree, _⟩
    exact ⟨_, _, hplace, hfree⟩

/-- `page_alloc_in_addr` returns, with `va` if it has nothing against it. -/
theorem page_alloc_in_addr_accepts (h : s.Sorted ks us) (x va : UInt32) (npages : Int32)
    (prot : UInt32) :
    ∃ r t, page_alloc_in_addr s x va npages prot = some (r, t) ∧
      (Accepts s ks us va npages ∧ r = va ∨ ¬ Accepts s ks us va npages ∧ r = SIZE_MAX) := by
  by_cases hneg : npages ≤ 0
  · exact ⟨SIZE_MAX, s, by simp only [page_alloc_in_addr, if_pos hneg],
      Or.inr ⟨fun ha => absurd hneg (Int32.not_le.mpr ha.pos), rfl⟩⟩
  by_cases hmask : va &&& PAGE_MASK ≠ 0
  · exact ⟨SIZE_MAX, s, by simp only [page_alloc_in_addr, if_neg hneg, if_pos hmask],
      Or.inr ⟨fun ha => hmask ha.aligned, rfl⟩⟩
  by_cases hrange : va < USER_MIN_ADDR ∨ va ≥ KERN_MAX_ADDR ∨ va + size_of_pages npages > KERN_MAX_ADDR
  · refine ⟨SIZE_MAX, s,
      by simp only [page_alloc_in_addr, if_neg hneg, if_neg hmask, if_pos hrange],
      Or.inr ⟨fun ha => ?_, rfl⟩⟩
    obtain hlow | hhigh | htop := hrange
    · exact UInt32.not_lt.mpr ha.low hlow
    · exact UInt32.not_lt.mpr hhigh ha.high
    · exact UInt32.not_lt.mpr ha.top htop
  by_cases hcross : va < USER_MAX_ADDR ∧ va + size_of_pages npages > USER_MAX_ADDR
  · exact ⟨SIZE_MAX, s,
      by simp only [page_alloc_in_addr, if_neg hneg, if_neg hmask, if_neg hrange, if_pos hcross],
      Or.inr ⟨fun ha => UInt32.not_lt.mpr (ha.border hcross.1) hcross.2, rfl⟩⟩
  obtain ⟨hmin, hbelow, hmax⟩ := not_or.mp hrange |>.imp_right not_or.mp
  have haccepts : FreeFrom va (size_of_pages npages) (s.areas (side ks us va)) →
      Accepts s ks us va npages := fun hfree =>
    ⟨Int32.not_le.mp hneg, not_not.mp hmask, UInt32.not_lt.mp hmin, UInt32.not_le.mp hbelow,
      UInt32.not_lt.mp hmax, fun hva => UInt32.not_lt.mp (not_and.mp hcross hva), hfree⟩
  have hcall : page_alloc_in_addr s x va npages prot =
      (s.walk (page_alloc_in_addr_pass s va (size_of_pages npages)) (fun q _ => some (q, NULL)) NULL
        (if va < USER_MAX_ADDR then s.uvmzone else s.kvmzone) ()).map (placed s x va npages prot) := by
    rw [page_alloc_in_addr, if_neg hneg, if_neg hmask, if_neg hrange]
    exact if_neg hcross
  obtain ⟨r, hwalk, hr⟩ := h.page_alloc_in_addr_loop va npages
  rw [hcall, hwalk]
  obtain ⟨rfl, hblocked⟩ | ⟨q, p, rfl, hfree⟩ := hr
  · exact ⟨SIZE_MAX, s, rfl, Or.inr ⟨fun ha => hblocked ha.free, rfl⟩⟩
  · exact ⟨va, _, rfl, Or.inl ⟨haccepts hfree, rfl⟩⟩

/-- Without a wrap, what `page_alloc_in_addr` accepts is free. -/
theorem accepted_free (h : s.Sorted ks us) {va : UInt32} {npages : Int32}
    (haccepts : Accepts s ks us va npages)
    (hfits : va.toNat + exact_size npages < UInt32.size) : ExactlyFree s ks us va npages := by
  have hend := end_of_lt haccepts.pos hfits
  have htop := UInt32.le_iff_toNat_le.mp haccepts.top
  have hlow := UInt32.le_iff_toNat_le.mp haccepts.low
  have hpart : ∀ z ∈ s.areas (side ks us va), z.lo < z.hi →
      z.hi ≤ va.toNat ∨ va.toNat + exact_size npages ≤ z.lo := by
    intro z hz hnonempty
    obtain ⟨hout, hbefore⟩ := haccepts.free z hz
    by_cases hlt : va.toNat < z.lo
    · exact Or.inr (hend ▸ hbefore hlt)
    · exact Or.inl (not_lt.mp fun hhi => hout ⟨not_lt.mp hlt, hhi⟩)
  by_cases hva : va < USER_MAX_ADDR
  · have hborder := UInt32.le_iff_toNat_le.mp (haccepts.border hva)
    rw [side, if_pos hva] at hpart
    refine h.exactlyFree haccepts.pos true hlow (hend ▸ hborder) ?_
    exact fun z hz => hpart z hz (h.user_packed.inside z hz).2.1
  · rw [side, if_neg hva] at hpart
    refine h.exactlyFree haccepts.pos false ?_ (hend ▸ htop) ?_
    · exact UInt32.le_iff_toNat_le.mp (UInt32.not_lt.mp hva)
    · exact fun z hz => hpart z hz (h.kernel_packed.inside z hz).2.1

/-- The list that `page_alloc` looks through. -/
theorem page_alloc_search_found (h : s.Sorted ks us) (size user : UInt32) :
    ∃ va q p, page_alloc_search s size user = some (va, q, p) ∧
      Found s size va (if user ≠ 0 then us else km0 :: ks) := by
  by_cases huser : user ≠ 0
  · simp only [page_alloc_search, if_pos huser]
    have hchain := h.user
    have hlength := h.length_lt.2
    cases us with
    | nil =>
      have hnull : s.uvmzone = NULL := hchain
      rw [if_pos hnull, hnull]
      exact ⟨_, _, _, walk_null _ _ (by decide : 0 < loop_fuel) _ _, rfl⟩
    | cons u us =>
      obtain ⟨huvm, hne, htail⟩ := hchain
      obtain ⟨before, after, hsplit, hgap, hwalk⟩ :=
        page_alloc_place htail (Nat.lt_of_succ_lt hlength) u size
      rw [huvm, if_neg hne]
      exact ⟨_, _, _, hwalk, before, after, hsplit, hgap, rfl⟩
  · simp only [page_alloc_search, if_neg huser]
    obtain ⟨hkvm, hne, htail⟩ := h.kernel
    obtain ⟨before, after, hsplit, hgap, hwalk⟩ :=
      page_alloc_place htail (Nat.lt_of_succ_lt h.length_lt.1) km0 size
    rw [hkvm, if_neg hne]
    exact ⟨_, _, _, hwalk, before, after, hsplit, hgap, rfl⟩

end Vmspace.Sorted

theorem Found.unique {size va va' : UInt32} {zones : List UInt32} (hva : Found s size va zones)
    (hva' : Found s size va' zones) : va = va' := by
  cases zones with
  | nil => exact hva.trans hva'.symm
  | cons q zones =>
    obtain ⟨before, after, hsplit, hgap, rfl⟩ := hva
    obtain ⟨before', after', hsplit', hgap', rfl⟩ := hva'
    rw [hgap.unique hgap' (hsplit.symm.trans hsplit')]

/-- Where `page_alloc` has to end. -/
def alloc_max (user : UInt32) : UInt32 := if user ≠ 0 then USER_MAX_ADDR else KERN_MAX_ADDR

/-- As tested in 32 bits, `page_alloc` accepts the address it found. -/
structure AcceptsFound (s : Vmspace) (ks us : List UInt32) (va : UInt32) (npages : Int32)
    (user : UInt32) : Prop where
  pos : 0 < npages
  found : Found s (size_of_pages npages) va (if user ≠ 0 then us else km0 :: ks)
  high : va < alloc_max user
  top : va + size_of_pages npages ≤ alloc_max user

theorem AcceptsFound.ne_size_max {va : UInt32} {npages : Int32} {user : UInt32}
    (haccepts : AcceptsFound s ks us va npages user) : va ≠ SIZE_MAX :=
  ne_size_max_of_lt haccepts.high

namespace Vmspace.Sorted

/-- `page_alloc` returns, with the address it found if it accepts that. -/
theorem page_alloc_accepts (h : s.Sorted ks us) (x : UInt32) (npages : Int32) (prot user : UInt32) :
    ∃ r t, page_alloc s x npages prot user = some (r, t) ∧
      (AcceptsFound s ks us r npages user ∨
        (∀ va, ¬ AcceptsFound s ks us va npages user) ∧ r = SIZE_MAX) := by
  by_cases hneg : npages ≤ 0
  · exact ⟨SIZE_MAX, s, by simp only [page_alloc, if_pos hneg],
      Or.inr ⟨fun va ha => absurd hneg (Int32.not_le.mpr ha.pos), rfl⟩⟩
  obtain ⟨va, q, p, hsearch, hfound⟩ := h.page_alloc_search_found (size_of_pages npages) user
  have hcall : page_alloc s x npages prot user =
      some (if va ≥ alloc_max user ∨ va + size_of_pages npages > alloc_max user then (SIZE_MAX, s)
        else (va, s.insert_zone x q p va (size_of_pages npages) prot)) := by
    simp only [page_alloc, if_neg hneg, hsearch, Option.map_some, alloc_max]
    by_cases huser : user ≠ 0
    · simp only [if_pos huser]
    · simp only [if_neg huser]
  rw [hcall]
  by_cases hbad : va ≥ alloc_max user ∨ va + size_of_pages npages > alloc_max user
  · refine ⟨SIZE_MAX, s, by rw [if_pos hbad], Or.inr ⟨fun va' ha => ?_, rfl⟩⟩
    obtain rfl := hfound.unique ha.found
    obtain hhigh | htop := hbad
    · exact UInt32.not_lt.mpr hhigh ha.high
    · exact UInt32.not_lt.mpr ha.top htop
  · obtain ⟨hhigh, htop⟩ := not_or.mp hbad
    exact ⟨va, _, by rw [if_neg hbad],
      Or.inl ⟨Int32.not_le.mp hneg, hfound, UInt32.not_le.mp hhigh, UInt32.not_lt.mp htop⟩⟩

/-- The address found is inside the region, after the zones before it, and where
nothing wraps the pages end before the zones after it. -/
theorem found_apart {zones : List UInt32} {lo hi : Nat} {size va : UInt32}
    (hfound : Found s size va zones) (hpacked : Packed lo hi (s.areas zones)) (hhi : hi < UInt32.size)
    (hmin : zones = [] → lo ≤ USER_MIN_ADDR.toNat) (hfits : va.toNat + size.toNat < UInt32.size) :
    lo ≤ va.toNat ∧ ∀ z ∈ s.areas zones, z.hi ≤ va.toNat ∨ va.toNat + size.toNat ≤ z.lo := by
  cases zones with
  | nil => exact ⟨hfound ▸ hmin rfl, fun _ hz => absurd hz List.not_mem_nil⟩
  | cons q zones =>
    obtain ⟨before, after, rfl, hgap, rfl⟩ := hfound
    obtain ⟨⟨a, ha, hva⟩, hbefore, hafter⟩ := hgap.between hpacked hhi
    have hinside := area_inside hpacked ha
    refine ⟨by omega, fun z hz => ?_⟩
    rw [← List.cons_append, areas_append] at hz
    obtain hz | hz := List.mem_append.mp hz
    · exact Or.inl (hbefore z hz)
    · exact Or.inr (hafter hfits z hz)

/-- Without a wrap, what `page_alloc` accepts is free. -/
theorem accepted_found_free (h : s.Sorted ks us) {va : UInt32} {npages : Int32} {user : UInt32}
    (haccepts : AcceptsFound s ks us va npages user)
    (hfits : va.toNat + exact_size npages < UInt32.size) : ExactlyFree s ks us va npages := by
  have hend := end_of_lt haccepts.pos hfits
  have hsize := exact_size_of_lt haccepts.pos (by omega : exact_size npages < UInt32.size)
  have htop := UInt32.le_iff_toNat_le.mp haccepts.top
  have hfound := haccepts.found
  rw [← hsize] at hfits
  by_cases huser : user ≠ 0
  · rw [if_pos huser] at hfound
    rw [alloc_max, if_pos huser] at htop
    obtain ⟨hlow, hapart⟩ := found_apart hfound h.user_packed bounds_lt.1 (fun _ => le_rfl) hfits
    exact h.exactlyFree haccepts.pos true hlow (hend ▸ htop) (hsize ▸ hapart)
  · rw [if_neg huser] at hfound
    rw [alloc_max, if_neg huser] at htop
    obtain ⟨hlow, hapart⟩ := found_apart hfound h.kernel_packed bounds_lt.2
      (fun hnil => absurd hnil (List.cons_ne_nil km0 ks)) hfits
    exact h.exactlyFree haccepts.pos false hlow (hend ▸ htop) (hsize ▸ hapart)

/-- `page_free` returns 0 if a zone of its list matches the size it computes. -/
theorem page_free_matches (h : s.Sorted ks us) (va : UInt32) (npages : Int32) :
    ∃ r t, page_free s va npages = some (r, t) ∧
      (r = 0 ↔ 0 < npages ∧ va ≠ USER_MAX_ADDR ∧
        ∃ a ∈ side ks us va, Matches (s.area a) va (size_of_pages npages)) := by
  have hfail : (-1 : Int32) ≠ 0 := by decide
  by_cases hneg : npages ≤ 0
  · exact ⟨-1, s, by simp only [page_free, if_pos hneg],
      iff_of_false hfail fun hm => absurd hneg (Int32.not_le.mpr hm.1)⟩
  by_cases hkm0 : va = USER_MAX_ADDR
  · exact ⟨-1, s, by simp only [page_free, if_neg hneg, if_pos hkm0],
      iff_of_false hfail fun hm => hm.2.1 hkm0⟩
  obtain ⟨r, hwalk, hr⟩ : ∃ r, s.walk (page_free_pass s va (size_of_pages npages)) (fun _ _ => none)
      NULL (if va < USER_MAX_ADDR then s.uvmzone else s.kvmzone) () = some r ∧
      ((∃ before a after, side ks us va = before ++ a :: after ∧
          Matches (s.area a) va (size_of_pages npages) ∧ r = some (before.getLastD NULL, a)) ∨
        (∀ a ∈ side ks us va, ¬ Matches (s.area a) va (size_of_pages npages)) ∧ r = none) := by
    by_cases hva : va < USER_MAX_ADDR
    · simp only [side, if_pos hva]
      exact page_free_walk h.user h.length_lt.2 va (size_of_pages npages)
    · simp only [side, if_neg hva]
      exact page_free_walk h.kernel h.length_lt.1 va (size_of_pages npages)
  simp only [page_free, if_neg hneg, if_neg hkm0, hwalk]
  obtain ⟨before, a, after, hsplit, hmatch, rfl⟩ | ⟨hnone, rfl⟩ := hr
  · have ha : a ∈ side ks us va := hsplit ▸ List.mem_append_right before List.mem_cons_self
    exact ⟨0, _, rfl, iff_of_true rfl ⟨Int32.not_le.mp hneg, hkm0, a, ha, hmatch⟩⟩
  · refine ⟨-1, s, rfl, iff_of_false hfail ?_⟩
    rintro ⟨-, -, a, ha, hmatch⟩
    exact hnone a ha hmatch

end Vmspace.Sorted

theorem two_calls_areas :
    two_calls.vm.areas [km0, 0xC0058020] =
        [⟨0xBFC00000, 0xC0458000, VM_PROT_ALL⟩, ⟨0xC0458000, 0xC045A000, VM_PROT_ALL⟩] ∧
      two_calls.vm.areas [0xC0058000] = [⟨0x500000, 0x501000, VM_PROT_RW⟩] := by
  have hkm0 : two_calls.vm.zone km0 = ⟨0xBFC00000, 0x858000, VM_PROT_ALL, 0xC0058020⟩ := by decide +kernel
  have hkernel : two_calls.vm.zone 0xC0058020 = ⟨0xC0458000, 0x2000, VM_PROT_ALL, NULL⟩ := by decide +kernel
  have huser : two_calls.vm.zone 0xC0058000 = ⟨0x500000, 0x1000, VM_PROT_RW, NULL⟩ := by decide +kernel
  simp only [areas, area, List.map_cons, List.map_nil, hkm0, hkernel, huser, vmzone.area]
  exact ⟨rfl, rfl⟩

theorem two_calls_sorted : two_calls.vm.Sorted [0xC0058020] [0xC0058000] := by
  have hkernel : two_calls.vm.next 0xC0058020 = NULL := by decide +kernel
  have huser : two_calls.vm.next 0xC0058000 = NULL := by decide +kernel
  obtain ⟨hks, hus⟩ := two_calls_areas
  refine ⟨⟨by decide +kernel, by decide, by decide +kernel, by decide, hkernel⟩,
    ⟨by decide +kernel, by decide, huser⟩, ?_, ?_⟩
  · rw [hks]
    exact ⟨by simp, by decide⟩
  · rw [hus]
    exact ⟨by simp, by decide⟩

/-- The calls are exact just when no 32-bit sum that lets a request through has
wrapped: for the allocators the end of the pages, for `page_free` the size. -/
theorem page_calls_exact_iff (s : Vmspace) (ks us : List UInt32) (h : s.Sorted ks us) :
    (∀ (x va : UInt32) (npages : Int32) (prot : UInt32),
      (∃ r t, page_alloc_in_addr s x va npages prot = some (r, t) ∧
        (r ≠ SIZE_MAX → ExactlyFree s ks us r npages)) ↔
      (Accepts s ks us va npages → va.toNat + exact_size npages < UInt32.size)) ∧
    (∀ (x : UInt32) (npages : Int32) (prot user : UInt32),
      (∃ r t, page_alloc s x npages prot user = some (r, t) ∧
        (r ≠ SIZE_MAX → ExactlyFree s ks us r npages)) ↔
      ∀ va, AcceptsFound s ks us va npages user → va.toNat + exact_size npages < UInt32.size) ∧
    (∀ (va : UInt32) (npages : Int32),
      (∃ r t, page_free s va npages = some (r, t) ∧
        (r = 0 → ∃ a ∈ side ks us va, (s.area a).lo = va.toNat ∧
          (s.area a).hi = va.toNat + exact_size npages)) ↔
      (0 < npages → va ≠ USER_MAX_ADDR →
        (∃ a ∈ side ks us va, Matches (s.area a) va (size_of_pages npages)) →
        exact_size npages < UInt32.size)) := by
  refine ⟨?_, ?_, ?_⟩
  · intro x va npages prot
    obtain ⟨r, t, hcall, hr⟩ := h.page_alloc_in_addr_accepts x va npages prot
    rw [hcall]
    constructor
    · rintro ⟨_, _, ⟨⟩, hexact⟩ haccepts
      obtain ⟨-, rfl⟩ | ⟨hnot, -⟩ := hr
      · have hne := aligned_ne_size_max (page_truncated haccepts.aligned)
        exact (hexact hne).fits
      · exact absurd haccepts hnot
    · intro hfits
      refine ⟨r, t, rfl, fun hok => ?_⟩
      obtain ⟨haccepts, rfl⟩ | ⟨-, hfail⟩ := hr
      · exact h.accepted_free haccepts (hfits haccepts)
      · exact absurd hfail hok
  · intro x npages prot user
    obtain ⟨r, t, hcall, hr⟩ := h.page_alloc_accepts x npages prot user
    rw [hcall]
    constructor
    · rintro ⟨_, _, ⟨⟩, hexact⟩ va haccepts
      obtain hr | ⟨hnone, -⟩ := hr
      · obtain rfl := haccepts.found.unique hr.found
        exact (hexact hr.ne_size_max).fits
      · exact absurd haccepts (hnone va)
    · intro hfits
      refine ⟨r, t, rfl, fun hok => ?_⟩
      obtain hr | ⟨-, hfail⟩ := hr
      · exact h.accepted_found_free hr (hfits r hr)
      · exact absurd hfail hok
  · intro va npages
    obtain ⟨r, t, hcall, hr⟩ := h.page_free_matches va npages
    rw [hcall]
    constructor
    · rintro ⟨_, _, ⟨⟩, hexact⟩ hpos hkm0 hmatch
      obtain ⟨a, ha, -, hhi⟩ := hexact (hr.mpr ⟨hpos, hkm0, hmatch⟩)
      have hside := h.side_lt ha
      omega
    · intro hfits
      refine ⟨r, t, rfl, fun hok => ?_⟩
      obtain ⟨hpos, hkm0, a, ha, hmatch⟩ := hr.mp hok
      have hsize := exact_size_of_lt hpos (hfits hpos hkm0 ⟨a, ha, hmatch⟩)
      exact ⟨a, ha, hmatch.1, hsize ▸ hmatch.2⟩

end Calls

/-- With a zone in each list, none of the three calls wraps: two kernel pages behind the
heap, three user pages above the one in use, and that page given back. -/
theorem page_calls_exact_two_calls :
    ((page_alloc_in_addr two_calls.vm 0xC0058040 0x600000 3 VM_PROT_RW).map Prod.fst = some 0x600000 ∧
      (page_alloc two_calls.vm 0xC0058040 2 VM_PROT_ALL 0).map Prod.fst = some 0xC045A000 ∧
      (page_free two_calls.vm 0x500000 1).map Prod.fst = some 0) ∧
    (∃ r t, page_alloc_in_addr two_calls.vm 0xC0058040 0x600000 3 VM_PROT_RW = some (r, t) ∧
      (r ≠ SIZE_MAX → ExactlyFree two_calls.vm [0xC0058020] [0xC0058000] r 3)) ∧
    (∃ r t, page_alloc two_calls.vm 0xC0058040 2 VM_PROT_ALL 0 = some (r, t) ∧
      (r ≠ SIZE_MAX → ExactlyFree two_calls.vm [0xC0058020] [0xC0058000] r 2)) ∧
    ∃ r t, page_free two_calls.vm 0x500000 1 = some (r, t) ∧
      (r = 0 → ∃ a ∈ side [0xC0058020] [0xC0058000] 0x500000, (two_calls.vm.area a).lo = (0x500000 : UInt32).toNat ∧
        (two_calls.vm.area a).hi = (0x500000 : UInt32).toNat + exact_size 1) := by
  refine ⟨by decide +kernel, ?_, ?_, ?_⟩
  · exact ((page_calls_exact_iff _ _ _ two_calls_sorted).1 _ _ _ _).mpr fun _ => by decide
  · refine ((page_calls_exact_iff _ _ _ two_calls_sorted).2.1 _ _ _ _).mpr fun va haccepts => ?_
    have hsize : exact_size 2 = 8192 := by decide
    have hhigh := UInt32.lt_iff_toNat_lt.mp haccepts.high
    have hmax : (alloc_max 0).toNat = 0xFFF00000 := by decide
    have hword : UInt32.size = 4294967296 := rfl
    omega
  · exact ((page_calls_exact_iff _ _ _ two_calls_sorted).2.2 _ _).mpr fun _ _ _ => by decide

/-- After boot, 0x40401 pages at 0xBFBFF000 end at 2^32, which the code computes as 0:
it hands them out, over the kernel and past the end of the address space. -/
theorem pages_past_end :
    (init_vmspace blank boot_brk).Sorted [] [] ∧
    (page_alloc_in_addr (init_vmspace blank boot_brk) 0xC0058000 0xBFBFF000 0x40401
      VM_PROT_ALL).map Prod.fst = some 0xBFBFF000 ∧
    ¬ ExactlyFree (init_vmspace blank boot_brk) [] [] 0xBFBFF000 0x40401 := by
  refine ⟨(boot_lists brk_ok blank).sorted, by decide +kernel, ?_⟩
  intro hexact
  exact absurd hexact.fits (by decide)

end epos.page
