import Epos.PageTable

open words epos.page

namespace epos.machdep

/-! What `init_paging` writes, as the list of its stores: none of them depends on
what was in memory. -/

abbrev Stores := List (UInt32 × UInt32)

/-- `memset(dst, 0, length)` -/
def memset_stores (dst length : UInt32) : Stores :=
  (List.range (length / 4).toNat).map fun t => (dst + 4 * UInt32.ofNat t, 0)

/-- The loop that allocates the page tables and fills the directory in. -/
def table_stores (pgdir physfree : UInt32) : Stores :=
  (List.range NR_KERN_PAGETABLE.toNat).flatMap fun i =>
    let physfree := physfree + ((1 : UInt32) <<< 10) * UInt32.ofNat i
    [(pgdir + 4 * (UInt32.ofNat i + (KERNBASE >>> PGDR_SHIFT)), physfree ||| PTE_V),
      (pgdir + 4 * UInt32.ofNat i, physfree ||| PTE_V)] ++
      memset_stores physfree ((1 : UInt32) <<< 10)

/-- The loop for the identity map. -/
def identity_stores (pte physfree : UInt32) : Stores :=
  (List.range (PAGE_ROUNDUP physfree >>> (12 : UInt32)).toNat).map fun i =>
    (pte + 4 * UInt32.ofNat i, (UInt32.ofNat i <<< 12) ||| PTE_W ||| PTE_V)

/-- The loop for the device window. -/
def device_stores (pte : UInt32) : Stores :=
  (List.range 0x220).map fun i =>
    (pte + 4 * (0x1000 + UInt32.ofNat i),
      (((0x20000000 : UInt32) + (UInt32.ofNat i <<< 12)) &&& 0xFFFFF000) ||| PTE_V ||| PTE_W)

/-- The entry meant for the exception vectors at 0xFFFF0000. -/
def vector_store (pte : UInt32) : UInt32 × UInt32 :=
  (pte + 4 * (20 * 256 + 0xF0), 0x00000000 ||| PTE_V ||| PTE_W)

/-- Where the second-level entries start, and the end of the page tables. -/
def pte_of (physfree : UInt32) : UInt32 := physfree + ((1 : UInt32) <<< 14)
def tables_end (physfree : UInt32) : UInt32 :=
  pte_of physfree + ((1 : UInt32) <<< 10) * NR_KERN_PAGETABLE

/-- `init_paging`: what it returns and its stores. The directory is at `physfree`. -/
def init_paging (physfree : UInt32) : UInt32 × Stores :=
  let pgdir := physfree
  let pte := pte_of physfree
  let physfree := tables_end physfree
  (physfree,
    memset_stores pgdir ((1 : UInt32) <<< 14) ++ table_stores pgdir pte ++
      identity_stores pte physfree ++ device_stores pte ++ [vector_store pte])

/-- Physical memory after `init_paging`. -/
def paged (mem : Memory) (physfree : UInt32) : Memory := storeAll mem (init_paging physfree).2

/-- `init_ram` publishes what `init_paging` returns as the start of free RAM. -/
def init_ram (physfree : UInt32) : Nat → UInt32
  | 0 => physfree
  | 1 => 0x1FFFFFFF
  | _ => 0

/-! The translation table walk of the processor, for the translation table base
`ttbr` that `init_paging` loads. -/

def first_level (mem : Memory) (ttbr va : UInt32) : UInt32 :=
  mem ((ttbr &&& 0xFFFFC000) + 4 * (va >>> (20 : UInt32)))

/-- The address of the second-level entry read for `va`, if the walk gets there. -/
def second_level (mem : Memory) (ttbr va : UInt32) : Option UInt32 :=
  let l1 := first_level mem ttbr va
  if l1 &&& 3 = 1 then some ((l1 &&& 0xFFFFFC00) + 4 * ((va >>> (12 : UInt32)) &&& 0xFF)) else none

/-- The physical address of `va`: through a page of a coarse table, or by a section. -/
def walk (mem : Memory) (ttbr va : UInt32) : Option UInt32 :=
  match second_level mem ttbr va with
  | some addr =>
    let l2 := mem addr
    if l2 &&& 3 = 0 then none
    else if l2 &&& 3 = 1 then some ((l2 &&& 0xFFFF0000) ||| (va &&& 0xFFFF))
    else some ((l2 &&& 0xFFFFF000) ||| (va &&& 0xFFF))
  | none =>
    let l1 := first_level mem ttbr va
    if l1 &&& 3 = 2 then
      if l1 &&& 0x40000 = 0 then some ((l1 &&& 0xFFF00000) ||| (va &&& 0xFFFFF))
      else some ((l1 &&& 0xFF000000) ||| (va &&& 0xFFFFFF))
    else none

end epos.machdep
