import Mathlib.Algebra.Group.Nat.Defs

namespace bytes

/-- Memory as the bytes found at addresses of 32 bits. -/
abbrev ByteMem := UInt32 → UInt8

/-- Byte `i` of a word, from the low end. -/
def byte_of (word : UInt32) (i : Nat) : UInt8 := UInt8.ofNat (word.toNat / 256 ^ i)

/-- The word in the four bytes from `addr` on, the low byte first. -/
def load32 (mem : ByteMem) (addr : UInt32) : UInt32 :=
  UInt32.ofNat ((mem addr).toNat + 256 * (mem (addr + 1)).toNat + 65536 * (mem (addr + 2)).toNat +
    16777216 * (mem (addr + 3)).toNat)

def store32 (mem : ByteMem) (addr word : UInt32) : ByteMem :=
  fun a => if a - addr < 4 then byte_of word (a - addr).toNat else mem a

section Words

variable {mem mem' : ByteMem} {addr : UInt32}

theorem store32_inside {i : UInt32} (hi : i < 4) (word : UInt32) :
    store32 mem addr word (addr + i) = byte_of word i.toNat := by
  have hback : addr + i - addr = i := by
    rw [UInt32.add_comm, UInt32.add_sub_cancel]
  rw [store32, hback]
  exact if_pos hi

/-- A word is its four bytes. -/
theorem load32_congr (hsame : ∀ i < 4, mem' (addr + i) = mem (addr + i)) : load32 mem' addr = load32 mem addr := by
  have hfirst := hsame 0 (by decide)
  rw [UInt32.add_zero] at hfirst
  rw [load32, load32, hfirst, hsame 1 (by decide), hsame 2 (by decide), hsame 3 (by decide)]

theorem load32_store32 (mem : ByteMem) (addr word : UInt32) : load32 (store32 mem addr word) addr = word := by
  have hbyte : ∀ i < 4, store32 mem addr word (addr + i) = byte_of word i.toNat :=
    fun _ hi => store32_inside hi word
  have hfirst := hbyte 0 (by decide)
  rw [UInt32.add_zero] at hfirst
  have hlt := word.toNat_lt
  rw [load32, hfirst, hbyte 1 (by decide), hbyte 2 (by decide), hbyte 3 (by decide), ← UInt32.toNat_inj]
  simp only [byte_of, UInt32.toNat_ofNat', UInt8.toNat_ofNat', UInt32.reduceToNat]
  omega

end Words

end bytes
