import Epos.Machdep.Tables

open words epos.page

namespace epos.machdep

/-- The physical memory the kernel maps for itself ends here. -/
def kernel_end (physfree : UInt32) : UInt32 :=
  PAGE_ROUNDUP (physfree + ((1 : UInt32) <<< 14) + NR_KERN_PAGETABLE * ((1 : UInt32) <<< 10))

theorem tables_end_eq (physfree : UInt32) : PAGE_ROUNDUP (tables_end physfree) = kernel_end physfree := by
  rw [tables_end, pte_of, kernel_end, UInt32.mul_comm]

theorem lt_kernel_end_iff (physfree : UInt32) (d : Nat) :
    d < (kernel_end physfree).toNat ↔ d / 4096 < identity_count physfree := by
  have hshift : (12 : UInt32).toNat % 32 = 12 := rfl
  have hround := PAGE_ROUNDUP_toNat (tables_end physfree)
  rw [tables_end_eq] at hround
  rw [identity_count, tables_end_eq, UInt32.toNat_shiftRight, hshift, Nat.shiftRight_eq_div_pow]
  omega

section Walks

variable {mem : Memory} {physfree va : UInt32}

theorem aligned_toNat (haligned : physfree &&& 0x3FFF = 0) : physfree.toNat % 2 ^ 14 = 0 := by
  have hzero := congrArg UInt32.toNat haligned
  rwa [and_low_bits (k := 14) (by decide)] at hzero

theorem first_level_eq (haligned : physfree &&& 0x3FFF = 0) (mem : Memory) (va : UInt32) :
    first_level mem physfree va = mem (word physfree (va.toNat / 2 ^ 20)) := by
  have hbase : physfree &&& 0xFFFFC000 = physfree :=
    and_high_of_aligned 14 (by decide) (by decide) (aligned_toNat haligned)
  have hshift : va >>> (20 : UInt32) = UInt32.ofNat (va.toNat / 2 ^ 20) := by
    have hlt := va.toNat_lt
    have hcount : (20 : UInt32).toNat % 32 = 20 := rfl
    rw [← UInt32.toNat_inj, UInt32.toNat_shiftRight, hcount, Nat.shiftRight_eq_div_pow,
      UInt32.toNat_ofNat']
    omega
  rw [first_level, hbase, hshift, word]

theorem table_toNat (haligned : physfree &&& 0x3FFF = 0) (i : Nat) :
    (word physfree (0x1000 + 256 * i)).toNat % 2 ^ 10 = 0 := by
  have hlow := aligned_toNat haligned
  have hfour : (4 : UInt32).toNat = 4 := rfl
  rw [word, UInt32.toNat_add, UInt32.toNat_mul, UInt32.toNat_ofNat', hfour]
  omega

theorem table_entry_base (haligned : physfree &&& 0x3FFF = 0) (i : Nat) :
    table_entry physfree i &&& 0xFFFFFC00 = word physfree (0x1000 + 256 * i) := by
  rw [table_entry, or_and,
    and_high_of_aligned 10 (by decide) (by decide) (table_toNat haligned i)]
  exact UInt32.or_zero

theorem second_level_of_table (haligned : physfree &&& 0x3FFF = 0) {i : Nat}
    (hentry : first_level mem physfree va = table_entry physfree i) :
    second_level mem physfree va =
      some (word physfree (0x1000 + 256 * i + va.toNat / 4096 % 256)) := by
  have htable := table_toNat haligned i
  have htype : table_entry physfree i &&& 3 = 1 := by
    have hzero : word physfree (0x1000 + 256 * i) &&& 3 = 0 := by
      rw [← UInt32.toNat_inj, and_low_bits (k := 2) (by decide)]
      show _ = 0
      omega
    rw [table_entry, or_and, hzero]
    rfl
  have hindex : (va >>> (12 : UInt32)) &&& 0xFF = UInt32.ofNat (va.toNat / 4096 % 256) := by
    have hcount : (12 : UInt32).toNat % 32 = 12 := rfl
    rw [← UInt32.toNat_inj, and_low_bits (k := 8) (by decide), UInt32.toNat_shiftRight, hcount,
      Nat.shiftRight_eq_div_pow, UInt32.toNat_ofNat']
    omega
  rw [second_level, hentry, if_pos htype, table_entry_base haligned, hindex, word_add]

/-- Both windows use the same 20 page tables. -/
theorem second_level_window (mem : Memory) (haligned : physfree &&& 0x3FFF = 0) {d : Nat} (hd : d < 0x1400000)
    (hva : va.toNat = d ∨ va.toNat = KERNBASE.toNat + d) :
    second_level (paged mem physfree) physfree va = some (word physfree (0x1000 + d / 4096)) := by
  have hbase : KERNBASE.toNat = 0xC0000000 := by decide
  have hentry : first_level (paged mem physfree) physfree va = table_entry physfree (d / 2 ^ 20) := by
    rw [first_level_eq haligned]
    cases hva with
    | inl hlow =>
      rw [hlow]
      exact directory_low mem physfree (by omega)
    | inr hhigh =>
      have hindex : va.toNat / 2 ^ 20 = 0xC00 + d / 2 ^ 20 := by omega
      rw [hindex]
      exact directory_high mem physfree (by omega)
  have hindex : 0x1000 + 256 * (d / 2 ^ 20) + va.toNat / 4096 % 256 = 0x1000 + d / 4096 := by omega
  rw [second_level_of_table haligned hentry, hindex]

theorem walk_of_page {addr x pa : UInt32} (hsecond : second_level mem physfree va = some addr)
    (hentry : mem addr = x ||| 3) (hx : x.toNat % 4096 = 0)
    (hpa : pa.toNat = x.toNat + va.toNat % 4096) : walk mem physfree va = some pa := by
  have htype : (x ||| 3) &&& 3 = 3 := by
    rw [or_and]
    have hzero : x &&& 3 = 0 := by
      rw [← UInt32.toNat_inj, and_low_bits (k := 2) (by decide)]
      show _ = 0
      omega
    rw [hzero]
    rfl
  have hpage : (x ||| 3) &&& 0xFFFFF000 = x := by
    rw [or_and, and_high_of_aligned 12 (by decide) (by decide) hx]
    exact UInt32.or_zero
  have hoffset : (va &&& 0xFFF).toNat = va.toNat % 4096 := and_low_bits (k := 12) (by decide)
  have hsum : x ||| (va &&& 0xFFF) = pa := by
    rw [← UInt32.toNat_inj, or_toNat_of_lt (k := 12) hx (by omega), hoffset, hpa]
  simp only [walk, hsecond, hentry, htype, hpage, hsum]
  rw [if_neg (by decide), if_neg (by decide)]

theorem walk_of_empty {addr : UInt32} (hsecond : second_level mem physfree va = some addr)
    (hentry : mem addr = 0) : walk mem physfree va = none := by
  simp only [walk, hsecond, hentry]
  rw [if_pos UInt32.zero_and]

theorem walk_of_no_table (hentry : first_level mem physfree va = 0) : walk mem physfree va = none := by
  have hsecond : second_level mem physfree va = none := by
    rw [second_level, hentry]
    exact if_neg (by decide)
  simp only [walk, hsecond, hentry]
  rw [if_neg (by decide)]

end Walks

end epos.machdep
