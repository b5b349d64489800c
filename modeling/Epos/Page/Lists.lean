import Epos.Page.Zones

open chains spans

namespace epos.page

/-! The bounds of the two lists, as numbers. -/

theorem USER_MAX_ADDR_toNat : USER_MAX_ADDR.toNat = 0xBFC00000 := by decide
theorem KERN_MAX_ADDR_toNat : KERN_MAX_ADDR.toNat = 0xFFF00000 := by decide

def PageAligned (z : Area) : Prop := z.lo % PAGE_SIZE.toNat = 0 ∧ z.hi % PAGE_SIZE.toNat = 0

/-- What `init_vmspace` reserves for the kernel itself. -/
def km0_area (brk : UInt32) : Area :=
  { lo := USER_MAX_ADDR.toNat, hi := brk.toNat, val := VM_PROT_ALL }

/-- The invariant of `page.c`: the kernel list is `km0` and then `ks`, the user
list is `us`, and each is packed into its own part of the address space. -/
structure Vmspace.Lists (s : Vmspace) (brk : UInt32) (ks us : List UInt32) : Prop where
  kernel : s.ChainFrom s.kvmzone (km0 :: ks)
  user : s.ChainFrom s.uvmzone us
  nodup : (km0 :: ks ++ us).Nodup
  owned : ∀ p ∈ ks ++ us, p ∈ s.heap
  first : s.area km0 = km0_area brk
  kernel_packed : Packed USER_MAX_ADDR.toNat KERN_MAX_ADDR.toNat (s.areas (km0 :: ks))
  user_packed : Packed USER_MIN_ADDR.toNat USER_MAX_ADDR.toNat (s.areas us)
  aligned : ∀ p ∈ km0 :: ks ++ us, PageAligned (s.area p)

/-- What `kmalloc` promises of a block it returns. -/
structure Vmspace.Fresh (s : Vmspace) (x : UInt32) : Prop where
  ne_null : x ≠ NULL
  ne_km0 : x ≠ km0
  not_mem : x ∉ s.heap

/-- `t` is well formed and has the area `z` beside those of `s`. -/
def Adds (brk : UInt32) (s t : Vmspace) (ks us : List UInt32) (z : Area) : Prop :=
  ∃ ks' us', t.Lists brk ks' us' ∧ (t.areas (ks' ++ us')).Perm (z :: s.areas (ks ++ us))

/-- `t` is well formed and has the areas of `s` but for `z`. -/
def Drops (brk : UInt32) (s t : Vmspace) (ks us : List UInt32) (z : Area) : Prop :=
  ∃ ks' us', t.Lists brk ks' us' ∧ (s.areas (ks ++ us)).Perm (z :: t.areas (ks' ++ us'))

theorem exists_last_of_cons (p : UInt32) (zones : List UInt32) :
    ∃ front q, p :: zones = front ++ [q] ∧ zones.getLastD p = q := by
  obtain ⟨front, q, hsplit⟩ : ∃ front q, p :: zones = front ++ [q] :=
    (List.eq_nil_or_concat' (p :: zones)).resolve_left (List.cons_ne_nil p zones)
  have hcons : (p :: zones).getLastD NULL = zones.getLastD p := List.getLastD_cons ..
  exact ⟨front, q, hsplit, by rw [← hcons, hsplit, List.getLastD_concat]⟩

namespace Vmspace.Lists

variable {s : Vmspace} {brk : UInt32} {ks us before after : List UInt32}

theorem fresh_not_mem (h : s.Lists brk ks us) {x : UInt32} (hx : s.Fresh x) :
    x ∉ km0 :: ks ++ us := by
  intro hmem
  simp only [List.cons_append, List.mem_cons] at hmem
  obtain heq | hmem := hmem
  · exact hx.ne_km0 heq
  · exact hx.not_mem (h.owned x hmem)

/-- No list is longer than the loops have fuel for. -/
theorem length_lt (h : s.Lists brk ks us) : (km0 :: ks).length < loop_fuel ∧ us.length < loop_fuel := by
  obtain ⟨hkernel, huser, -⟩ := List.nodup_append.mp h.nodup
  exact ⟨chain_length_lt h.kernel hkernel, chain_length_lt h.user huser⟩

/-- The zone before the place of a new one is in the list the new one is for. -/
theorem pred_not_mem {zones : List UInt32} (hdisjoint : ∀ q ∈ before, q ∉ zones)
    (hnull : NULL ∉ zones) : before.getLastD NULL ∉ zones := by
  have hmem := List.getLastD_mem_cons (l := before) (a := NULL)
  obtain heq | hmem := List.mem_cons.mp hmem
  · rwa [heq]
  · exact hdisjoint _ hmem

theorem null_not_mem (h : s.Lists brk ks us) : NULL ∉ km0 :: ks ∧ NULL ∉ us :=
  ⟨fun hmem => h.kernel.ne_null hmem rfl, fun hmem => h.user.ne_null hmem rfl⟩

/-- What an insertion does beside the chain it is for. -/
theorem inserted (h : s.Lists brk ks us) {x q p base limit protect : UInt32} (hx : s.Fresh x)
    {ks' us' : List UInt32} (hperm : (ks' ++ us').Perm (x :: (ks ++ us)))
    (haligned : PageAligned (new_area base limit protect))
    (hkernel : (s.insert_zone x q p base limit protect).ChainFrom s.kvmzone (km0 :: ks'))
    (huser : (s.insert_zone x q p base limit protect).ChainFrom
      (s.insert_zone x q p base limit protect).uvmzone us')
    (hkernel_packed : Packed USER_MAX_ADDR.toNat KERN_MAX_ADDR.toNat
      ((s.insert_zone x q p base limit protect).areas (km0 :: ks')))
    (huser_packed : Packed USER_MIN_ADDR.toNat USER_MAX_ADDR.toNat
      ((s.insert_zone x q p base limit protect).areas us')) :
    Adds brk s (s.insert_zone x q p base limit protect) ks us (new_area base limit protect) := by
  have hfresh := h.fresh_not_mem hx
  have hlist : (km0 :: ks' ++ us').Perm (x :: (km0 :: ks ++ us)) :=
    (hperm.cons km0).trans (List.Perm.swap x km0 (ks ++ us))
  have hnodup : (km0 :: ks' ++ us').Nodup :=
    hlist.nodup_iff.mpr (List.nodup_cons.mpr ⟨hfresh, h.nodup⟩)
  refine ⟨ks', us', ⟨?_, huser, hnodup, ?_, ?_, hkernel_packed, huser_packed, ?_⟩, ?_⟩
  · rw [insert_zone_kvmzone]
    exact hkernel
  · intro a ha
    rw [insert_zone_heap]
    cases hperm.mem_iff.mp ha with
    | head => exact List.mem_cons_self
    | tail _ ha => exact List.mem_cons_of_mem x (h.owned a ha)
  · rw [insert_zone_area, new_zone_area (Ne.symm hx.ne_km0), h.first]
  · intro a ha
    rw [insert_zone_area]
    cases hlist.mem_iff.mp ha with
    | head =>
      rw [new_zone_area_self]
      exact haligned
    | tail _ ha =>
      rw [new_zone_area (ne_of_mem_of_not_mem ha hfresh)]
      exact h.aligned a ha
  · have hmem : x ∉ ks ++ us := fun hmem => hfresh (List.mem_cons_of_mem km0 hmem)
    rw [← insert_zone_areas hmem s q p base limit protect, ← new_zone_area_self s x,
      ← insert_zone_area s x q p, ← areas_cons]
    exact hperm.map _

/-- A user zone goes where the user list leaves room for it. -/
theorem insert_user (h : s.Lists brk ks (before ++ after)) {x : UInt32} (hx : s.Fresh x)
    {base limit : UInt32} (protect : UInt32)
    (hinside : USER_MIN_ADDR.toNat ≤ base.toNat ∧ base.toNat < base.toNat + limit.toNat ∧
      base.toNat + limit.toNat ≤ USER_MAX_ADDR.toNat)
    (haligned : PageAligned (new_area base limit protect))
    (hbefore : ∀ z ∈ s.areas before, z.hi ≤ base.toNat)
    (hafter : ∀ z ∈ s.areas after, base.toNat + limit.toNat ≤ z.lo) :
    Adds brk s (s.insert_zone x (before.getLastD NULL) (after.headD NULL) base limit protect) ks
      (before ++ after) (new_area base limit protect) := by
  obtain ⟨hfk, hfu⟩ := not_or.mp (mt List.mem_append.mpr (h.fresh_not_mem hx))
  obtain ⟨hnk, hnu, hapart⟩ := List.nodup_append.mp h.nodup
  have hpred : before.getLastD NULL ∉ km0 :: ks := by
    apply pred_not_mem _ h.null_not_mem.1
    intro q hq hmem
    exact hapart q hmem q (List.mem_append_left after hq) rfl
  have hperm : (ks ++ (before ++ x :: after)).Perm (x :: (ks ++ (before ++ after))) := by
    rw [← List.append_assoc, ← List.append_assoc]
    exact List.perm_middle
  apply h.inserted hx hperm haligned
  · exact ChainFrom.insert_other h.kernel hfk hpred _ base limit protect
  · obtain rfl | ⟨front, q, rfl⟩ := List.eq_nil_or_concat' before
    · have hhead : after.headD NULL = s.uvmzone := h.user.head.symm
      rw [hhead]
      exact ChainFrom.insert_head h.user hx.ne_null hfu base limit protect
    · simp only [List.append_assoc, List.cons_append, List.nil_append] at hfu hnu ⊢
      have hchain : s.ChainFrom s.uvmzone (front ++ q :: after) := by
        simpa only [List.append_assoc, List.cons_append, List.nil_append] using h.user
      have hq : q ≠ NULL := hchain.ne_null (List.mem_append_right front List.mem_cons_self)
      rw [List.getLastD_concat, insert_zone_uvmzone hq]
      exact ChainFrom.insert_after hchain hnu hx.ne_null hfu _ base limit protect
  · rw [insert_zone_areas hfk]
    exact h.kernel_packed
  · rw [insert_zone_areas_middle hfu]
    apply Packed.insert _ hinside hbefore hafter
    rw [← areas_append]
    exact h.user_packed

/-- A kernel zone goes somewhere after `km0`, and the user list is left alone. -/
theorem insert_kernel (h : s.Lists brk (before ++ after) us) {x : UInt32} (hx : s.Fresh x)
    {base limit : UInt32} (protect r : UInt32)
    (hinside : USER_MAX_ADDR.toNat ≤ base.toNat ∧ base.toNat < base.toNat + limit.toNat ∧
      base.toNat + limit.toNat ≤ KERN_MAX_ADDR.toNat)
    (haligned : PageAligned (new_area base limit protect))
    (hbefore : ∀ z ∈ s.areas (km0 :: before), z.hi ≤ base.toNat)
    (hafter : ∀ z ∈ s.areas after, base.toNat + limit.toNat ≤ z.lo) :
    Adds brk s (s.insert_zone x (before.getLastD km0) r base limit protect) (before ++ after) us
        (new_area base limit protect) ∧
      (s.insert_zone x (before.getLastD km0) r base limit protect).uvmzone = s.uvmzone := by
  obtain ⟨hfk, hfu⟩ := not_or.mp (mt List.mem_append.mpr (h.fresh_not_mem hx))
  obtain ⟨hnk, hnu, hapart⟩ := List.nodup_append.mp h.nodup
  obtain ⟨front, q, hsplit, hlast⟩ := exists_last_of_cons km0 before
  rw [hlast]
  have hlist : ∀ zones, km0 :: (before ++ zones) = front ++ q :: zones := by
    intro zones
    rw [← List.cons_append, hsplit, List.append_assoc, List.singleton_append]
  have hchain := h.kernel
  rw [hlist] at hchain hnk hfk
  have hmem : q ∈ front ++ q :: after := List.mem_append_right front List.mem_cons_self
  have hq : q ≠ NULL := hchain.ne_null hmem
  have hqu : q ∉ us := fun hus => hapart q (hlist _ ▸ hmem) q hus rfl
  have hperm : (before ++ x :: after ++ us).Perm (x :: (before ++ after ++ us)) :=
    List.perm_middle.append_right us
  refine ⟨h.inserted hx hperm haligned ?_ ?_ ?_ ?_, insert_zone_uvmzone hq s x r base limit protect⟩
  · rw [hlist]
    exact ChainFrom.insert_after hchain hnk hx.ne_null hfk r base limit protect
  · rw [insert_zone_uvmzone hq]
    exact ChainFrom.insert_other h.user hfu hqu r base limit protect
  · have hmiddle : x ∉ (km0 :: before) ++ after := by rwa [List.cons_append, hlist]
    rw [← List.cons_append, insert_zone_areas_middle hmiddle]
    apply Packed.insert _ hinside hbefore hafter
    rw [← areas_append]
    exact h.kernel_packed
  · rw [insert_zone_areas hfu]
    exact h.user_packed

/-- What a removal does beside the chain it is for. -/
theorem removed (h : s.Lists brk ks us) {q a : UInt32} {ks' us' : List UInt32}
    (hks : ks'.Sublist ks) (hus : us'.Sublist us) (hperm : (ks ++ us).Perm (a :: (ks' ++ us')))
    (hkernel : (s.remove_zone q a).ChainFrom s.kvmzone (km0 :: ks'))
    (huser : (s.remove_zone q a).ChainFrom (s.remove_zone q a).uvmzone us') :
    Drops brk s (s.remove_zone q a) ks us (s.area a) := by
  have hsub : (ks' ++ us').Sublist (ks ++ us) := hks.append hus
  have hnodup : (a :: (ks' ++ us')).Nodup := hperm.nodup_iff.mp (List.nodup_cons.mp h.nodup).2
  refine ⟨ks', us', ⟨?_, huser, h.nodup.sublist (hsub.cons_cons km0), ?_, ?_, ?_, ?_, ?_⟩, ?_⟩
  · rw [remove_zone_kvmzone]
    exact hkernel
  · intro p hp
    rw [remove_zone_heap]
    have hne : p ≠ a := ne_of_mem_of_not_mem hp (List.nodup_cons.mp hnodup).1
    exact (List.mem_erase_of_ne hne).mpr (h.owned p (hsub.subset hp))
  · rw [remove_zone_area, h.first]
  · rw [remove_zone_areas]
    exact h.kernel_packed.sublist ((hks.cons_cons km0).map s.area)
  · rw [remove_zone_areas]
    exact h.user_packed.sublist (hus.map s.area)
  · intro p hp
    rw [remove_zone_area]
    exact h.aligned p ((hsub.cons_cons km0).subset hp)
  · rw [remove_zone_areas, ← areas_cons]
    exact hperm.map s.area

theorem remove_user {a : UInt32} (h : s.Lists brk ks (before ++ a :: after)) :
    Drops brk s (s.remove_zone (before.getLastD NULL) a) ks (before ++ a :: after) (s.area a) := by
  obtain ⟨-, hnu, hapart⟩ := List.nodup_append.mp h.nodup
  have hpred : before.getLastD NULL ∉ km0 :: ks := by
    apply pred_not_mem _ h.null_not_mem.1
    intro q hq hmem
    exact hapart q hmem q (List.mem_append_left _ hq) rfl
  have hsub : (before ++ after).Sublist (before ++ a :: after) :=
    (List.sublist_cons_self a after).append_left before
  have hperm : (ks ++ (before ++ a :: after)).Perm (a :: (ks ++ (before ++ after))) := by
    rw [← List.append_assoc, ← List.append_assoc]
    exact List.perm_middle
  apply h.removed (List.Sublist.refl ks) hsub hperm
  · exact ChainFrom.remove_other h.kernel hpred
  · obtain rfl | ⟨front, q, rfl⟩ := List.eq_nil_or_concat' before
    · exact h.user.2.2
    · simp only [List.append_assoc, List.cons_append, List.nil_append] at hnu ⊢
      have hchain : s.ChainFrom s.uvmzone (front ++ q :: a :: after) := by
        simpa only [List.append_assoc, List.cons_append, List.nil_append] using h.user
      have hq : q ≠ NULL := hchain.ne_null (List.mem_append_right front List.mem_cons_self)
      rw [List.getLastD_concat, remove_zone_uvmzone hq]
      exact ChainFrom.remove_after hchain hnu

/-- A kernel zone is taken out after some other one, and the user list is left alone. -/
theorem remove_kernel {a : UInt32} (h : s.Lists brk (before ++ a :: after) us) :
    Drops brk s (s.remove_zone (before.getLastD km0) a) (before ++ a :: after) us (s.area a) ∧
      (s.remove_zone (before.getLastD km0) a).uvmzone = s.uvmzone := by
  obtain ⟨hnk, -, hapart⟩ := List.nodup_append.mp h.nodup
  obtain ⟨front, q, hsplit, hlast⟩ := exists_last_of_cons km0 before
  rw [hlast]
  have hlist : ∀ zones, km0 :: (before ++ zones) = front ++ q :: zones := by
    intro zones
    rw [← List.cons_append, hsplit, List.append_assoc, List.singleton_append]
  have hchain := h.kernel
  rw [hlist] at hchain hnk
  have hmem : q ∈ front ++ q :: a :: after := List.mem_append_right front List.mem_cons_self
  have hq : q ≠ NULL := hchain.ne_null hmem
  have hqu : q ∉ us := fun hus => hapart q (hlist _ ▸ hmem) q hus rfl
  have hsub : (before ++ after).Sublist (before ++ a :: after) :=
    (List.sublist_cons_self a after).append_left before
  have hperm : (before ++ a :: after ++ us).Perm (a :: (before ++ after ++ us)) :=
    List.perm_middle.append_right us
  refine ⟨h.removed hsub (List.Sublist.refl us) hperm ?_ ?_, remove_zone_uvmzone hq s a⟩
  · rw [hlist]
    exact ChainFrom.remove_after hchain hnk
  · rw [remove_zone_uvmzone hq]
    exact ChainFrom.remove_other h.user hqu

end Vmspace.Lists

end epos.page
