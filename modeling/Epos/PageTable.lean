import Epos.Cpu
import Epos.Lib.WordMem

open words

namespace epos

/-- Virtual memory, as the words at the addresses the kernel computes. -/
abbrev Memory := UInt32 → UInt32

/-- `memset(dst, 0, length)` for an aligned `dst` and a whole number of words. -/
def memset (mem : Memory) (dst length : UInt32) : Memory :=
  stores (fun t => dst + 4 * UInt32.ofNat t) (fun _ => 0) mem (length / 4).toNat

end epos

namespace epos.page

/-- The page tables as one flat array. -/
def PT : UInt32 := USER_MAX_ADDR

def vtopte (va : UInt32) : UInt32 := PT + 4 * (va >>> PAGE_SHIFT)

def page_map_loop (mem : Memory) (vaddr paddr flags : UInt32) : Nat → Memory
  | 0 => mem
  | npages + 1 =>
    page_map_loop (store mem (vtopte vaddr) (paddr ||| flags))
      (vaddr + PAGE_SIZE) (paddr + PAGE_SIZE) flags npages

def page_map (mem : Memory) (vaddr paddr npages flags : UInt32) : Memory :=
  page_map_loop mem vaddr paddr flags npages.toNat

def page_unmap_loop (mem : Memory) (vaddr : UInt32) : Nat → Memory
  | 0 => mem
  | npages + 1 => page_unmap_loop (store mem (vtopte vaddr) 0) (vaddr + PAGE_SIZE) npages

def page_unmap (mem : Memory) (vaddr npages : UInt32) : Memory :=
  page_unmap_loop mem vaddr npages.toNat

def vtop (mem : Memory) (va : UInt32) : UInt32 :=
  (mem (vtopte va) &&& ~~~PAGE_MASK) ||| (va &&& PAGE_MASK)

theorem PT_toNat : PT.toNat = 0xBFC00000 := rfl

theorem vtopte_toNat (va : UInt32) : (vtopte va).toNat = PT.toNat + 4 * (va.toNat / 4096) := by
  have hlt := va.toNat_lt
  have hshift : (va >>> PAGE_SHIFT).toNat = va.toNat / 4096 := by
    rw [UInt32.toNat_shiftRight, Nat.shiftRight_eq_div_pow]
    rfl
  have hfour : (4 : UInt32).toNat = 4 := rfl
  rw [vtopte, UInt32.toNat_add, UInt32.toNat_mul, hshift, hfour, PT_toNat]
  omega

theorem page_word_toNat (va : UInt32) {t : Nat} (ht : t < 1024) :
    (PAGE_TRUNCATE va + 4 * UInt32.ofNat t).toNat = va.toNat / 4096 * 4096 + 4 * t := by
  have hlt := va.toNat_lt
  have hfour : (4 : UInt32).toNat = 4 := rfl
  rw [UInt32.toNat_add, UInt32.toNat_mul, UInt32.toNat_ofNat', PAGE_TRUNCATE_toNat, hfour]
  omega

theorem memset_page (mem : Memory) (va : UInt32) : memset mem (PAGE_TRUNCATE va) PAGE_SIZE =
    stores (fun t => PAGE_TRUNCATE va + 4 * UInt32.ofNat t) (fun _ => 0) mem 1024 := rfl

/-- The frame an entry names. -/
theorem entry_frame {paddr : UInt32} (haligned : paddr &&& PAGE_MASK = 0) {x : UInt32}
    (hflags : x &&& ~~~PAGE_MASK = 0) :
    (paddr ||| x) &&& ~~~PAGE_MASK = paddr := by
  have hzero := congrArg UInt32.toNat haligned
  rw [and_PAGE_MASK_toNat] at hzero
  rw [or_and, hflags, UInt32.or_zero]
  exact and_high_of_aligned 12 (by decide) rfl hzero

end epos.page
