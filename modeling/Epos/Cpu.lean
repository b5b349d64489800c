import Mathlib.Algebra.Group.Nat.Defs

namespace epos

/-! The constants of `cpu.h` and `kernel.h`, at the width the code computes them. -/

def PAGE_SHIFT : UInt32 := 12
def PGDR_SHIFT : UInt32 := 20
def PAGE_SIZE : UInt32 := (1 : UInt32) <<< PAGE_SHIFT
def PAGE_MASK : UInt32 := PAGE_SIZE - 1
def PAGE_TRUNCATE (x : UInt32) : UInt32 := x &&& ~~~PAGE_MASK

/-- Despite its name this rounds to 16 KiB, and an aligned argument goes up by
a whole 16 KiB. -/
def PAGE_ROUNDUP (x : UInt32) : UInt32 := (x + ((0x1 : UInt32) <<< 14)) &&& 0xffffc000

def PTE_V : UInt32 := 0x001
def PTE_W : UInt32 := 0x002
def PTE_U : UInt32 := 0x004

def VADDR (pdi pti : UInt32) : UInt32 := (pdi <<< PGDR_SHIFT) ||| (pti <<< PAGE_SHIFT)

def KERN_MAX_ADDR : UInt32 := VADDR 0xFFF 0x0
def KERN_MIN_ADDR : UInt32 := VADDR 0xC00 0x04
def USER_MAX_ADDR : UInt32 := VADDR 0xBFC 0x00
def USER_MIN_ADDR : UInt32 := VADDR 4 0
def KERNBASE : UInt32 := VADDR 0xC00 0
def NR_KERN_PAGETABLE : UInt32 := 20

def SIZE_MAX : UInt32 := 0xFFFFFFFF

def VM_PROT_NONE : UInt32 := 0x00
def VM_PROT_READ : UInt32 := 0x01
def VM_PROT_WRITE : UInt32 := 0x02
def VM_PROT_EXEC : UInt32 := 0x04
def VM_PROT_RW : UInt32 := VM_PROT_READ ||| VM_PROT_WRITE
def VM_PROT_ALL : UInt32 := VM_PROT_RW ||| VM_PROT_EXEC

theorem PAGE_SIZE_toNat : PAGE_SIZE.toNat = 4096 := rfl

theorem SIZE_MAX_toNat : SIZE_MAX.toNat = 4294967295 := rfl

theorem ne_size_max_of_lt {x y : UInt32} (hlt : x < y) : x ≠ SIZE_MAX := by
  rintro rfl
  have hnat := UInt32.lt_iff_toNat_lt.mp hlt
  have hbound := y.toNat_lt
  rw [SIZE_MAX_toNat] at hnat
  omega

/-- Clearing the low `k` bits of a word. -/
theorem and_high_bits {n k : Nat} (hn : n < 2 ^ 32) (hk : k ≤ 32) :
    n &&& (2 ^ 32 - 2 ^ k) = n / 2 ^ k * 2 ^ k := by
  have hpos : 0 < 2 ^ k := Nat.two_pow_pos k
  have hpow : 2 ^ k ≤ 2 ^ 32 := Nat.pow_le_pow_right (by decide) hk
  have hmask : 2 ^ 32 - 2 ^ k = 2 ^ 32 - (2 ^ k - 1 + 1) := by omega
  apply Nat.eq_of_testBit_eq
  intro i
  rw [Nat.testBit_and, hmask, Nat.testBit_two_pow_sub_succ (by omega), Nat.testBit_two_pow_sub_one,
    Nat.testBit_mul_two_pow, Nat.testBit_div_two_pow]
  by_cases hi : k ≤ i
  · have hsum : i - k + k = i := by omega
    rw [hsum]
    by_cases hbit : i < 32
    · simp [hi, hbit]
    · have hsize : 2 ^ 32 ≤ 2 ^ i := Nat.pow_le_pow_right (by decide) (by omega)
      have hzero : n.testBit i = false := Nat.testBit_lt_two_pow (Nat.lt_of_lt_of_le hn hsize)
      simp [hzero]
  · have hlow : i < k := by omega
    simp [hi, hlow]

theorem and_low_bits {x mask : UInt32} {k : Nat} (hmask : mask.toNat = 2 ^ k - 1) :
    (x &&& mask).toNat = x.toNat % 2 ^ k := by
  rw [UInt32.toNat_and, hmask, Nat.and_two_pow_sub_one_eq_mod]

/-- A mask keeps a word without low bits. -/
theorem and_high_of_aligned {x mask : UInt32} (k : Nat) (hk : k ≤ 32)
    (hmask : mask.toNat = 2 ^ 32 - 2 ^ k) (hx : x.toNat % 2 ^ k = 0) : x &&& mask = x := by
  rw [← UInt32.toNat_inj, UInt32.toNat_and, hmask, and_high_bits x.toNat_lt hk]
  have hdiv := Nat.div_add_mod x.toNat (2 ^ k)
  rw [Nat.mul_comm]
  omega

theorem or_toNat_of_lt {x y : UInt32} {k : Nat} (hx : x.toNat % 2 ^ k = 0) (hy : y.toNat < 2 ^ k) :
    (x ||| y).toNat = x.toNat + y.toNat := by
  have hdiv := Nat.div_add_mod x.toNat (2 ^ k)
  rw [hx, Nat.add_zero] at hdiv
  rw [UInt32.toNat_or, ← hdiv, Nat.two_pow_add_eq_or_of_lt hy]

theorem PAGE_ROUNDUP_toNat (x : UInt32) : (PAGE_ROUNDUP x).toNat = (x + 0x4000).toNat / 16384 * 16384 := by
  have hmask : (0xffffc000 : UInt32).toNat = 2 ^ 32 - 2 ^ 14 := by decide
  rw [PAGE_ROUNDUP, UInt32.toNat_and, hmask]
  exact and_high_bits (x + 0x4000).toNat_lt (by decide)

theorem and_PAGE_MASK_toNat (x : UInt32) : (x &&& PAGE_MASK).toNat = x.toNat % 4096 := by
  have hmask : PAGE_MASK.toNat = 2 ^ 12 - 1 := rfl
  exact and_low_bits hmask

theorem PAGE_TRUNCATE_toNat (x : UInt32) : (PAGE_TRUNCATE x).toNat = x.toNat / 4096 * 4096 := by
  have hmask : (~~~PAGE_MASK).toNat = 2 ^ 32 - 2 ^ 12 := by decide
  rw [PAGE_TRUNCATE, UInt32.toNat_and, hmask]
  exact and_high_bits x.toNat_lt (by decide)

end epos
