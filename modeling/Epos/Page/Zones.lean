import Epos.Lib.Spans
import Epos.Page.Vmspace

open chains spans

namespace epos.page

/-- A zone without its place in a list: the addresses it covers and their protection. -/
abbrev Area := Span Nat UInt32

def vmzone.area (zone : vmzone) : Area :=
  { lo := zone.base.toNat, hi := zone.base.toNat + zone.limit.toNat, val := zone.protect }

def new_area (base limit protect : UInt32) : Area :=
  { lo := base.toNat, hi := base.toNat + limit.toNat, val := protect }

namespace Vmspace

def area (s : Vmspace) (p : UInt32) : Area := (s.zone p).area

def areas (s : Vmspace) (zones : List UInt32) : List Area := zones.map s.area

theorem areas_append (s : Vmspace) (before after : List UInt32) :
    s.areas (before ++ after) = s.areas before ++ s.areas after := List.map_append

theorem areas_cons (s : Vmspace) (p : UInt32) (zones : List UInt32) :
    s.areas (p :: zones) = s.area p :: s.areas zones := List.map_cons

theorem areas_congr {s t : Vmspace} {zones : List UInt32} (hsame : ∀ p ∈ zones, t.area p = s.area p) :
    t.areas zones = s.areas zones := List.map_congr_left hsame

/-- The chain that the links make of the zones listed. -/
abbrev ChainFrom (s : Vmspace) (p : UInt32) (zones : List UInt32) : Prop :=
  Chain NULL s.next p zones

theorem set_next_area (s : Vmspace) (p n a : UInt32) : (s.set_next p n).area a = s.area a := by
  obtain rfl | hne := eq_or_ne a p
  · simp only [area, set_next, set_zone, Function.update_self, vmzone.area]
  · simp only [area, set_next, set_zone, Function.update_of_ne hne]

theorem new_zone_area_self (s : Vmspace) (x base limit protect : UInt32) :
    (s.new_zone x base limit protect).area x = new_area base limit protect := by
  simp only [area, new_zone, set_zone, Function.update_self, vmzone.area, new_area]

theorem new_zone_area {x a : UInt32} (hne : a ≠ x) (s : Vmspace) (base limit protect : UInt32) :
    (s.new_zone x base limit protect).area a = s.area a := by
  simp only [area, new_zone, set_zone, Function.update_of_ne hne]

theorem insert_zone_area (s : Vmspace) (x q p base limit protect a : UInt32) :
    (s.insert_zone x q p base limit protect).area a = (s.new_zone x base limit protect).area a := by
  obtain rfl | hq := eq_or_ne q NULL
  · rw [insert_zone_head]
    exact set_next_area (s.new_zone x base limit protect) x p a
  · rw [insert_zone_after hq, set_next_area, set_next_area]

theorem insert_zone_areas {x : UInt32} {zones : List UInt32} (hmem : x ∉ zones) (s : Vmspace)
    (q p base limit protect : UInt32) :
    (s.insert_zone x q p base limit protect).areas zones = s.areas zones := by
  apply areas_congr
  intro a ha
  rw [insert_zone_area, new_zone_area (ne_of_mem_of_not_mem ha hmem)]

/-- The new area stands where its zone does. -/
theorem insert_zone_areas_middle {x : UInt32} {before after : List UInt32}
    (hmem : x ∉ before ++ after) (s : Vmspace) (q p base limit protect : UInt32) :
    (s.insert_zone x q p base limit protect).areas (before ++ x :: after) =
      s.areas before ++ new_area base limit protect :: s.areas after := by
  obtain ⟨hbefore, hafter⟩ := not_or.mp (mt List.mem_append.mpr hmem)
  rw [areas_append, areas_cons, insert_zone_areas hbefore, insert_zone_areas hafter,
    insert_zone_area, new_zone_area_self]

theorem remove_zone_area (s : Vmspace) (q p a : UInt32) : (s.remove_zone q p).area a = s.area a := by
  obtain rfl | hq := eq_or_ne q NULL
  · rw [remove_zone_head]
    rfl
  · rw [remove_zone_after hq]
    exact set_next_area s q (s.next p) a

theorem remove_zone_areas (s : Vmspace) (q p : UInt32) (zones : List UInt32) :
    (s.remove_zone q p).areas zones = s.areas zones :=
  areas_congr fun a _ => remove_zone_area s q p a

theorem insert_zone_kvmzone (s : Vmspace) (x q p base limit protect : UInt32) :
    (s.insert_zone x q p base limit protect).kvmzone = s.kvmzone := by
  simp only [insert_zone]
  split <;> rfl

theorem insert_zone_heap (s : Vmspace) (x q p base limit protect : UInt32) :
    (s.insert_zone x q p base limit protect).heap = x :: s.heap := by
  simp only [insert_zone]
  split <;> rfl

theorem insert_zone_uvmzone {q : UInt32} (hq : q ≠ NULL) (s : Vmspace)
    (x p base limit protect : UInt32) :
    (s.insert_zone x q p base limit protect).uvmzone = s.uvmzone := by
  rw [insert_zone_after hq]
  rfl

theorem remove_zone_kvmzone (s : Vmspace) (q p : UInt32) : (s.remove_zone q p).kvmzone = s.kvmzone := by
  simp only [remove_zone]
  split <;> rfl

theorem remove_zone_heap (s : Vmspace) (q p : UInt32) : (s.remove_zone q p).heap = s.heap.erase p := by
  simp only [remove_zone]
  split <;> rfl

theorem remove_zone_uvmzone {q : UInt32} (hq : q ≠ NULL) (s : Vmspace) (p : UInt32) :
    (s.remove_zone q p).uvmzone = s.uvmzone := by
  rw [remove_zone_after hq]
  rfl

theorem insert_zone_next_head (s : Vmspace) (x p base limit protect : UInt32) :
    (s.insert_zone x NULL p base limit protect).next = Function.update s.next x p := by
  rw [insert_zone_head, ← new_zone_next s x base limit protect]
  exact set_next_next (s.new_zone x base limit protect) x p

theorem insert_zone_next_after {q : UInt32} (hq : q ≠ NULL) (s : Vmspace)
    (x p base limit protect : UInt32) :
    (s.insert_zone x q p base limit protect).next =
      Function.update (Function.update s.next x (s.next q)) q x := by
  rw [insert_zone_after hq, set_next_next, set_next_next, new_zone_next]

theorem remove_zone_next_after {q : UInt32} (hq : q ≠ NULL) (s : Vmspace) (p : UInt32) :
    (s.remove_zone q p).next = Function.update s.next q (s.next p) := by
  rw [remove_zone_after hq]
  exact set_next_next s q (s.next p)

/-! What the two updates make of the chain they are for, and of the other one. -/

theorem ChainFrom.insert_head {s : Vmspace} {p x : UInt32} {zones : List UInt32}
    (hchain : s.ChainFrom p zones) (hx : x ≠ NULL) (hmem : x ∉ zones)
    (base limit protect : UInt32) :
    (s.insert_zone x NULL p base limit protect).ChainFrom x (x :: zones) := by
  rw [ChainFrom, insert_zone_next_head]
  exact hchain.push hx hmem

theorem ChainFrom.insert_after {s : Vmspace} {p q x : UInt32} {before after : List UInt32}
    (hchain : s.ChainFrom p (before ++ q :: after)) (hnodup : (before ++ q :: after).Nodup)
    (hx : x ≠ NULL) (hmem : x ∉ before ++ q :: after) (r base limit protect : UInt32) :
    (s.insert_zone x q r base limit protect).ChainFrom p (before ++ q :: x :: after) := by
  have hq : q ≠ NULL := hchain.ne_null (List.mem_append_right before List.mem_cons_self)
  rw [ChainFrom, insert_zone_next_after hq]
  exact hchain.insert hnodup hx hmem

theorem ChainFrom.insert_other {s : Vmspace} {p q x : UInt32} {zones : List UInt32}
    (hchain : s.ChainFrom p zones) (hx : x ∉ zones) (hq : q ∉ zones)
    (r base limit protect : UInt32) :
    (s.insert_zone x q r base limit protect).ChainFrom p zones := by
  obtain rfl | hne := eq_or_ne q NULL
  · rw [ChainFrom, insert_zone_next_head]
    exact hchain.update_of_not_mem hx
  · rw [ChainFrom, insert_zone_next_after hne]
    exact (hchain.update_of_not_mem hx).update_of_not_mem hq

theorem ChainFrom.remove_after {s : Vmspace} {p q a : UInt32} {before after : List UInt32}
    (hchain : s.ChainFrom p (before ++ q :: a :: after))
    (hnodup : (before ++ q :: a :: after).Nodup) :
    (s.remove_zone q a).ChainFrom p (before ++ q :: after) := by
  have hq : q ≠ NULL := hchain.ne_null (List.mem_append_right before List.mem_cons_self)
  rw [ChainFrom, remove_zone_next_after hq]
  exact hchain.remove hnodup

theorem ChainFrom.remove_other {s : Vmspace} {p q a : UInt32} {zones : List UInt32}
    (hchain : s.ChainFrom p zones) (hq : q ∉ zones) : (s.remove_zone q a).ChainFrom p zones := by
  obtain rfl | hne := eq_or_ne q NULL
  · rw [remove_zone_head]
    exact hchain
  · rw [ChainFrom, remove_zone_next_after hne]
    exact hchain.update_of_not_mem hq

end Vmspace

end epos.page
