import Epos.Page.Runs

open chains spans runs

namespace epos.page

open Vmspace

/-- The addresses a zone covers. -/
def vmzone.range (zone : vmzone) : Set Nat :=
  Set.Ico zone.base.toNat (zone.base.toNat + zone.limit.toNat)

/-- The zones listed are what a zone list of the addresses from `lo` up to `hi` should have. -/
structure ZoneList (s : Vmspace) (zones : List UInt32) (lo hi : UInt32) : Prop where
  ascending : (zones.map fun p => (s.zone p).base).Pairwise (· < ·)
  aligned : ∀ p ∈ zones, (s.zone p).base.toNat % PAGE_SIZE.toNat = 0 ∧
    (s.zone p).limit.toNat % PAGE_SIZE.toNat = 0
  nonempty : ∀ p ∈ zones, (s.zone p).range.Nonempty
  disjoint : zones.Pairwise fun p q => Disjoint (s.zone p).range (s.zone q).range
  inside : ∀ p ∈ zones, (s.zone p).range ⊆ Set.Ico lo.toNat hi.toNat

/-- Both lists are in order, and `km0` is the first zone of the kernel list. -/
def WellFormed (s : Vmspace) : Prop :=
  ∃ ks us, s.ChainFrom s.kvmzone (km0 :: ks) ∧ ZoneList s (km0 :: ks) USER_MAX_ADDR KERN_MAX_ADDR ∧
    s.ChainFrom s.uvmzone us ∧ ZoneList s us USER_MIN_ADDR USER_MAX_ADDR

/-- The areas of a list packed into some bounds make its zones a list for these bounds. -/
theorem zoneList_of_packed {s : Vmspace} {zones : List UInt32} {lo hi : UInt32}
    (hpacked : Packed lo.toNat hi.toNat (s.areas zones))
    (haligned : ∀ p ∈ zones, PageAligned (s.area p)) : ZoneList s zones lo hi := by
  constructor
  · have hlo := List.pairwise_map.mp hpacked.lo_lt
    apply List.pairwise_map.mpr
    exact hlo.imp fun hlt => UInt32.lt_iff_toNat_lt.mpr hlt
  · intro p hp
    have hlo : (s.zone p).base.toNat % PAGE_SIZE.toNat = 0 := (haligned p hp).1
    have hhi : ((s.zone p).base.toNat + (s.zone p).limit.toNat) % PAGE_SIZE.toNat = 0 :=
      (haligned p hp).2
    rw [PAGE_SIZE_toNat] at hlo hhi ⊢
    omega
  · intro p hp
    exact Set.nonempty_Ico.mpr (area_inside hpacked hp).2.1
  · have hdisjoint := List.pairwise_map.mp hpacked.disjoint
    exact hdisjoint
  · intro p hp
    obtain ⟨hlo, -, hhi⟩ := area_inside hpacked hp
    exact Set.Ico_subset_Ico hlo hhi

theorem Vmspace.Lists.wellFormed {s : Vmspace} {brk : UInt32} {ks us : List UInt32}
    (h : s.Lists brk ks us) : WellFormed s :=
  ⟨ks, us, h.kernel,
    zoneList_of_packed h.kernel_packed fun p hp => h.aligned p (List.mem_append_left us hp), h.user,
    zoneList_of_packed h.user_packed fun p hp => h.aligned p (List.mem_append_right (km0 :: ks) hp)⟩

/-- In every state that a run from `init_vmspace(brk)` reaches, both zone lists
are well formed, with `km0` first in the kernel list. The next call returns
again, and if it is about kernel addresses it does not touch `uvmzone`. -/
theorem zone_lists_invariant {sys : System} {brk : UInt32} (hbrk : BrkOk brk)
    (hreached : sys.Reached brk) :
    WellFormed sys.vm ∧ ∀ c, sys.Enabled c →
      ∃ t, sys.call c = some t ∧ (c.Kernel → t.vm.uvmzone = sys.vm.uvmzone) := by
  have hinv := hreached.invariant hbrk
  constructor
  · obtain ⟨ks, us, hagrees⟩ := hinv
    exact hagrees.lists.wellFormed
  · intro c henabled
    obtain ⟨t, hcall, -, huvm⟩ := call_spec hinv henabled
    exact ⟨t, hcall, huvm⟩

theorem zone_lists_invariant_two_calls :
    WellFormed two_calls.vm ∧ ∀ c, two_calls.Enabled c →
      ∃ t, two_calls.call c = some t ∧ (c.Kernel → t.vm.uvmzone = two_calls.vm.uvmzone) :=
  zone_lists_invariant brk_ok two_calls_reached

end epos.page
