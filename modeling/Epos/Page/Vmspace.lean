import Epos.Cpu
import Epos.Lib.LinkedList

open chains

namespace epos.page

def NULL : UInt32 := 0

/-- The address of the static `km0`, as `kernel.list` has it. -/
def km0 : UInt32 := 0xc0011ec0

structure vmzone where
  base : UInt32
  limit : UInt32
  protect : UInt32
  next : UInt32
deriving DecidableEq

/-- The zones at their addresses and the heads of the two zone lists. `heap` has
the blocks that `kmalloc` handed out for zones and `kfree` has not taken back. -/
structure Vmspace where
  zone : UInt32 → vmzone
  kvmzone : UInt32
  uvmzone : UInt32
  heap : List UInt32

namespace Vmspace

def next (s : Vmspace) (p : UInt32) : UInt32 := (s.zone p).next

def set_zone (s : Vmspace) (p : UInt32) (zone : vmzone) : Vmspace :=
  { s with zone := Function.update s.zone p zone }

/-- `p->next = n` -/
def set_next (s : Vmspace) (p n : UInt32) : Vmspace := s.set_zone p { s.zone p with next := n }

end Vmspace

def init_vmspace (s : Vmspace) (brk : UInt32) : Vmspace :=
  { s.set_zone km0
      { base := USER_MAX_ADDR, limit := brk - USER_MAX_ADDR, protect := VM_PROT_ALL, next := NULL } with
    kvmzone := km0
    uvmzone := NULL }

/-- A list without a cycle has fewer nodes than there are addresses, so a loop
that outlasts this fuel never ends. -/
def loop_fuel : Nat := UInt32.size

/-- There are not enough addresses for a longer list. -/
theorem chain_length_lt {next : UInt32 → UInt32} {p : UInt32} {nodes : List UInt32} (hchain : Chain NULL next p nodes)
    (hnodup : nodes.Nodup) : nodes.length < loop_fuel := by
  have hinj : Function.Injective UInt32.toFin := fun a b hab => UInt32.toFin_inj.mp hab
  exact hchain.length_lt hnodup hinj

/-- The loops of `page.c` over the zones from `p` on, the zone before it being `q`. -/
def Vmspace.walk {σ ρ : Type} (s : Vmspace) (body : UInt32 → UInt32 → σ → Pass σ ρ)
    (finish : UInt32 → σ → ρ) (q p : UInt32) (t : σ) : Option ρ :=
  chains.walk NULL s.next body finish loop_fuel q p t

def size_of_pages (npages : Int32) : UInt32 := npages.toUInt32 * PAGE_SIZE

/-- `kmalloc` returns the block `x`, and all but its link is filled in. -/
def Vmspace.new_zone (s : Vmspace) (x base limit protect : UInt32) : Vmspace :=
  { s.set_zone x { s.zone x with base, limit, protect } with heap := x :: s.heap }

/-- What both allocators do once they know the place of the new zone: between `q` and `p`. -/
def Vmspace.insert_zone (s : Vmspace) (x q p base limit protect : UInt32) : Vmspace :=
  let s := s.new_zone x base limit protect
  if q = NULL then { s.set_next x p with uvmzone := x }
  else (s.set_next x (s.next q)).set_next q x

/-- The loop of `page_alloc_in_addr`. It leaves with the place of the new zone, or
with `none` where the code returns SIZE_MAX. -/
def page_alloc_in_addr_pass (s : Vmspace) (va size : UInt32) (q p : UInt32) (_ : Unit) :
    Pass Unit (Option (UInt32 × UInt32)) :=
  let zone := s.zone p
  if va ≥ zone.base ∧ va < zone.base + zone.limit then .stop none
  else if va < zone.base then
    if va + size > zone.base then .stop none else .stop (some (q, p))
  else .go ()

/-- `page_alloc_in_addr`; `x` is what `kmalloc` returns, should it be called. -/
def page_alloc_in_addr (s : Vmspace) (x va : UInt32) (npages : Int32) (prot : UInt32) :
    Option (UInt32 × Vmspace) :=
  let size := size_of_pages npages
  if npages ≤ 0 then some (SIZE_MAX, s)
  else if va &&& PAGE_MASK ≠ 0 then some (SIZE_MAX, s)
  else if va < USER_MIN_ADDR ∨ va ≥ KERN_MAX_ADDR ∨ va + size > KERN_MAX_ADDR then
    some (SIZE_MAX, s)
  else if va < USER_MAX_ADDR ∧ va + size > USER_MAX_ADDR then some (SIZE_MAX, s)
  else
    let p := if va < USER_MAX_ADDR then s.uvmzone else s.kvmzone
    let place := s.walk (page_alloc_in_addr_pass s va size) (fun q _ => some (q, NULL)) NULL p ()
    place.map fun
      | none => (SIZE_MAX, s)
      | some (q, p) => (va, s.insert_zone x q p va size prot)

/-- The loop of `page_alloc`, which moves `va` along. It leaves with `va` and the
place of the new zone. -/
def page_alloc_pass (s : Vmspace) (size : UInt32) (q p va : UInt32) :
    Pass UInt32 (UInt32 × UInt32 × UInt32) :=
  let zone := s.zone p
  if va + size ≤ zone.base then .stop (va, q, p) else .go (zone.base + zone.limit)

/-- What `page_alloc` finds before it looks at the bounds: `va`, `q` and `p`. -/
def page_alloc_search (s : Vmspace) (size user : UInt32) : Option (UInt32 × UInt32 × UInt32) :=
  let p := if user ≠ 0 then s.uvmzone else s.kvmzone
  if p = NULL then
    s.walk (page_alloc_pass s size) (fun q va => (va, q, NULL)) NULL p USER_MIN_ADDR
  else
    let va := (s.zone p).base + (s.zone p).limit
    s.walk (page_alloc_pass s size) (fun q va => (va, q, NULL)) p (s.next p) va

/-- `page_alloc`; `x` is what `kmalloc` returns, should it be called. -/
def page_alloc (s : Vmspace) (x : UInt32) (npages : Int32) (prot user : UInt32) :
    Option (UInt32 × Vmspace) :=
  let size := size_of_pages npages
  if npages ≤ 0 then some (SIZE_MAX, s)
  else
    (page_alloc_search s size user).map fun (va, q, p) =>
      if user ≠ 0 then
        if va ≥ USER_MAX_ADDR ∨ va + size > USER_MAX_ADDR then (SIZE_MAX, s)
        else (va, s.insert_zone x q p va size prot)
      else
        if va ≥ KERN_MAX_ADDR ∨ va + size > KERN_MAX_ADDR then (SIZE_MAX, s)
        else (va, s.insert_zone x q p va size prot)

/-- The loop of `page_free`. It leaves with the zone to free and the one before it. -/
def page_free_pass (s : Vmspace) (va size : UInt32) (q p : UInt32) (_ : Unit) :
    Pass Unit (Option (UInt32 × UInt32)) :=
  if va = (s.zone p).base ∧ size = (s.zone p).limit then .stop (some (q, p)) else .go ()

/-- What `page_free` does with the zone `p` it found after `q`. -/
def Vmspace.remove_zone (s : Vmspace) (q p : UInt32) : Vmspace :=
  let s := if q = NULL then { s with uvmzone := s.next p } else s.set_next q (s.next p)
  { s with heap := s.heap.erase p }

def page_free (s : Vmspace) (va : UInt32) (npages : Int32) : Option (Int32 × Vmspace) :=
  let size := size_of_pages npages
  if npages ≤ 0 then some (-1, s)
  else if va = USER_MAX_ADDR then some (-1, s)
  else
    let p := if va < USER_MAX_ADDR then s.uvmzone else s.kvmzone
    let found := s.walk (page_free_pass s va size) (fun _ _ => none) NULL p ()
    found.map fun
      | none => (-1, s)
      | some (q, p) => (0, s.remove_zone q p)

def page_prot_pass (s : Vmspace) (va : UInt32) (_ p : UInt32) (_ : Unit) : Pass Unit UInt32 :=
  let zone := s.zone p
  if va ≥ zone.base ∧ va < zone.base + zone.limit then .stop zone.protect else .go ()

def page_prot (s : Vmspace) (va : UInt32) : Option UInt32 :=
  let p := if va < USER_MAX_ADDR then s.uvmzone else s.kvmzone
  s.walk (page_prot_pass s va) (fun _ _ => -1) NULL p ()

@[simp] theorem set_next_next (s : Vmspace) (p n : UInt32) :
    (s.set_next p n).next = Function.update s.next p n := by
  funext a
  obtain rfl | hne := eq_or_ne a p
  · simp only [Vmspace.next, Vmspace.set_next, Vmspace.set_zone, Function.update_self]
  · simp only [Vmspace.next, Vmspace.set_next, Vmspace.set_zone, Function.update_of_ne hne]

@[simp] theorem new_zone_next (s : Vmspace) (x base limit protect : UInt32) :
    (s.new_zone x base limit protect).next = s.next := by
  funext a
  obtain rfl | hne := eq_or_ne a x
  · simp only [Vmspace.next, Vmspace.new_zone, Vmspace.set_zone, Function.update_self]
  · simp only [Vmspace.next, Vmspace.new_zone, Vmspace.set_zone, Function.update_of_ne hne]

theorem insert_zone_head (s : Vmspace) (x p base limit protect : UInt32) :
    s.insert_zone x NULL p base limit protect =
      { (s.new_zone x base limit protect).set_next x p with uvmzone := x } := by
  rw [Vmspace.insert_zone, if_pos rfl]

theorem insert_zone_after {q : UInt32} (hq : q ≠ NULL) (s : Vmspace)
    (x p base limit protect : UInt32) :
    s.insert_zone x q p base limit protect =
      ((s.new_zone x base limit protect).set_next x (s.next q)).set_next q x := by
  rw [Vmspace.insert_zone, if_neg hq, new_zone_next]

theorem remove_zone_head (s : Vmspace) (p : UInt32) :
    s.remove_zone NULL p = { s with uvmzone := s.next p, heap := s.heap.erase p } := by
  rw [Vmspace.remove_zone, if_pos rfl]

theorem remove_zone_after {q : UInt32} (hq : q ≠ NULL) (s : Vmspace) (p : UInt32) :
    s.remove_zone q p = { s.set_next q (s.next p) with heap := s.heap.erase p } := by
  rw [Vmspace.remove_zone, if_neg hq]
  rfl

end epos.page
