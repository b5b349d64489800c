import Epos.Machdep.Paging
import Mathlib.Data.List.Range

open words epos.page

namespace epos.machdep

/-- The address of the `k`-th word from `physfree` on. The directory is the first
0x1000 of these words, and second-level entry `j` is the word 0x1000 + `j`. -/
def word (physfree : UInt32) (k : Nat) : UInt32 := physfree + 4 * UInt32.ofNat k

theorem word_inj {physfree : UInt32} {j k : Nat} (hj : j < 2 ^ 30) (hk : k < 2 ^ 30)
    (heq : word physfree j = word physfree k) : j = k :=
  slot_inj hj hk heq

theorem word_ne {physfree : UInt32} {j k : Nat} (hj : j < 2 ^ 30) (hk : k < 2 ^ 30) (hne : j ≠ k) :
    word physfree j ≠ word physfree k := fun heq => hne (word_inj hj hk heq)

theorem word_add (physfree : UInt32) (j t : Nat) :
    word physfree j + 4 * UInt32.ofNat t = word physfree (j + t) := by
  simp only [word, UInt32.ofNat_add]
  grind

theorem pte_of_eq (physfree : UInt32) : pte_of physfree = word physfree 0x1000 := rfl

/-- The first-level entry that points to the `i`-th page table. -/
def table_entry (physfree : UInt32) (i : Nat) : UInt32 := word physfree (0x1000 + 256 * i) ||| PTE_V

def identity_entry (i : Nat) : UInt32 := (UInt32.ofNat i <<< 12) ||| PTE_W ||| PTE_V

def device_entry (i : Nat) : UInt32 :=
  (((0x20000000 : UInt32) + (UInt32.ofNat i <<< 12)) &&& 0xFFFFF000) ||| PTE_V ||| PTE_W

/-- The number of entries of the identity map. -/
def identity_count (physfree : UInt32) : Nat :=
  (PAGE_ROUNDUP (tables_end physfree) >>> (12 : UInt32)).toNat

section Members

variable {physfree : UInt32} {q : UInt32 × UInt32}

theorem mem_directory_stores :
    q ∈ memset_stores physfree ((1 : UInt32) <<< 14) ↔ ∃ t < 0x1000, q = (word physfree t, 0) := by
  have hcount : ((1 : UInt32) <<< 14 / 4).toNat = 0x1000 := by decide
  simp only [memset_stores, hcount, List.mem_map, List.mem_range, word, eq_comm]

theorem table_word (i : Nat) :
    pte_of physfree + ((1 : UInt32) <<< 10) * UInt32.ofNat i = word physfree (0x1000 + 256 * i) := by
  have hsize : (1 : UInt32) <<< 10 = 4 * UInt32.ofNat 256 := by decide
  rw [pte_of_eq, hsize, ← word_add, UInt32.ofNat_mul]
  grind

theorem mem_table_stores :
    q ∈ table_stores physfree (pte_of physfree) ↔ ∃ i < 20,
      q = (word physfree (0xC00 + i), table_entry physfree i) ∨
      q = (word physfree i, table_entry physfree i) ∨
      ∃ t < 256, q = (word physfree (0x1000 + 256 * i + t), 0) := by
  have hcount : ((1 : UInt32) <<< 10 / 4).toNat = 256 := by decide
  have htables : NR_KERN_PAGETABLE.toNat = 20 := by decide
  have hkern : ∀ i, physfree + 4 * (UInt32.ofNat i + (KERNBASE >>> PGDR_SHIFT)) =
      word physfree (0xC00 + i) := by
    intro i
    have hbase : KERNBASE >>> PGDR_SHIFT = UInt32.ofNat 0xC00 := by decide
    rw [hbase, word, UInt32.ofNat_add, UInt32.add_comm (UInt32.ofNat i)]
  simp only [table_stores, htables, table_word, hkern, memset_stores, hcount, word_add,
    List.mem_flatMap, List.mem_range, List.mem_append, List.mem_cons, List.not_mem_nil, or_false,
    List.mem_map, table_entry, or_assoc]
  constructor
  · rintro ⟨i, hi, h | h | ⟨t, ht, h⟩⟩
    · exact ⟨i, hi, Or.inl h⟩
    · exact ⟨i, hi, Or.inr (Or.inl h)⟩
    · exact ⟨i, hi, Or.inr (Or.inr ⟨t, ht, h.symm⟩)⟩
  · rintro ⟨i, hi, h | h | ⟨t, ht, h⟩⟩
    · exact ⟨i, hi, Or.inl h⟩
    · exact ⟨i, hi, Or.inr (Or.inl h)⟩
    · exact ⟨i, hi, Or.inr (Or.inr ⟨t, ht, h.symm⟩)⟩

theorem mem_identity_stores :
    q ∈ identity_stores (pte_of physfree) (tables_end physfree) ↔
      ∃ i < identity_count physfree, q = (word physfree (0x1000 + i), identity_entry i) := by
  simp only [identity_stores, pte_of_eq, word_add, List.mem_map, List.mem_range, identity_entry,
    identity_count, eq_comm]

theorem mem_device_stores :
    q ∈ device_stores (pte_of physfree) ↔
      ∃ i < 0x220, q = (word physfree (0x2000 + i), device_entry i) := by
  have hword : ∀ i, pte_of physfree + 4 * (0x1000 + UInt32.ofNat i) = word physfree (0x2000 + i) := by
    intro i
    have hadd : (0x1000 : UInt32) + UInt32.ofNat i = UInt32.ofNat (0x1000 + i) := by
      rw [UInt32.ofNat_add]
      rfl
    rw [pte_of_eq, hadd, word_add, ← Nat.add_assoc]
  simp only [device_stores, hword, List.mem_map, List.mem_range, device_entry, eq_comm]

theorem vector_store_eq :
    vector_store (pte_of physfree) = (word physfree (0x1000 + 0x14F0), PTE_V ||| PTE_W) := by
  have hindex : (4 : UInt32) * (20 * 256 + 0xF0) = 4 * UInt32.ofNat 0x14F0 := by decide
  rw [vector_store, hindex, pte_of_eq, word_add, UInt32.zero_or]

end Members

/-- The stores, one loop after the other. -/
theorem paged_eq (mem : Memory) (physfree : UInt32) :
    paged mem physfree =
      storeAll (storeAll (storeAll (storeAll (storeAll mem
        (memset_stores physfree ((1 : UInt32) <<< 14)))
        (table_stores physfree (pte_of physfree)))
        (identity_stores (pte_of physfree) (tables_end physfree)))
        (device_stores (pte_of physfree)))
        [vector_store (pte_of physfree)] := by
  simp only [paged, init_paging, storeAll_append]

theorem identity_count_le (physfree : UInt32) : identity_count physfree ≤ 0x100000 := by
  have hlt := (PAGE_ROUNDUP (tables_end physfree)).toNat_lt
  have hshift : (12 : UInt32).toNat % 32 = 12 := rfl
  rw [identity_count, UInt32.toNat_shiftRight, hshift, Nat.shiftRight_eq_div_pow]
  omega

section Lookups

variable (mem : Memory) (physfree : UInt32)

/-- No loop after the one that fills the directory in stores to it. -/
theorem paged_directory {k : Nat} (hk : k < 0x1000) :
    paged mem physfree (word physfree k) =
      storeAll (storeAll mem (memset_stores physfree ((1 : UInt32) <<< 14)))
        (table_stores physfree (pte_of physfree)) (word physfree k) := by
  have hcount := identity_count_le physfree
  rw [paged_eq, storeAll_of_not_mem, storeAll_of_not_mem, storeAll_of_not_mem]
  · intro hmem
    obtain ⟨q, hq, heq⟩ := List.mem_map.mp hmem
    obtain ⟨i, hi, rfl⟩ := mem_identity_stores.mp hq
    exact word_ne (by omega) (by omega) (by omega) heq
  · intro hmem
    obtain ⟨q, hq, heq⟩ := List.mem_map.mp hmem
    obtain ⟨i, hi, rfl⟩ := mem_device_stores.mp hq
    exact word_ne (by omega) (by omega) (by omega) heq
  · rw [vector_store_eq, List.map_singleton, List.mem_singleton]
    exact word_ne (by omega) (by omega) (by omega)

/-- The first 20 entries of the directory point to the page tables. -/
theorem directory_low {i : Nat} (hi : i < 20) :
    paged mem physfree (word physfree i) = table_entry physfree i := by
  rw [paged_directory mem physfree (by omega)]
  apply storeAll_of_forall
  · exact List.mem_map.mpr ⟨_, mem_table_stores.mpr ⟨i, hi, Or.inr (Or.inl rfl)⟩, rfl⟩
  · intro q hq heq
    obtain ⟨j, hj, rfl | rfl | ⟨t, ht, rfl⟩⟩ := mem_table_stores.mp hq
    · exact absurd heq (word_ne (by omega) (by omega) (by omega))
    · rw [word_inj (by omega) (by omega) heq]
    · exact absurd heq (word_ne (by omega) (by omega) (by omega))

/-- And so do the 20 entries from KERNBASE on. -/
theorem directory_high {i : Nat} (hi : i < 20) :
    paged mem physfree (word physfree (0xC00 + i)) = table_entry physfree i := by
  rw [paged_directory mem physfree (by omega)]
  apply storeAll_of_forall
  · exact List.mem_map.mpr ⟨_, mem_table_stores.mpr ⟨i, hi, Or.inl rfl⟩, rfl⟩
  · intro q hq heq
    obtain ⟨j, hj, rfl | rfl | ⟨t, ht, rfl⟩⟩ := mem_table_stores.mp hq
    · have hij := word_inj (by omega) (by omega) heq
      rw [Nat.add_left_cancel hij]
    · exact absurd heq (word_ne (by omega) (by omega) (by omega))
    · exact absurd heq (word_ne (by omega) (by omega) (by omega))

/-- The rest of the directory is empty. -/
theorem directory_empty {k : Nat} (hk : k < 0x1000) (hlow : 20 ≤ k)
    (hhigh : ¬ (0xC00 ≤ k ∧ k < 0xC14)) : paged mem physfree (word physfree k) = 0 := by
  rw [paged_directory mem physfree hk, storeAll_of_not_mem]
  · apply storeAll_of_forall
    · exact List.mem_map.mpr ⟨_, mem_directory_stores.mpr ⟨k, hk, rfl⟩, rfl⟩
    · intro q hq _
      obtain ⟨t, -, rfl⟩ := mem_directory_stores.mp hq
      rfl
  · intro hmem
    obtain ⟨q, hq, heq⟩ := List.mem_map.mp hmem
    obtain ⟨j, hj, rfl | rfl | ⟨t, ht, rfl⟩⟩ := mem_table_stores.mp hq
    · exact word_ne (by omega) (by omega) (by omega) heq
    · exact word_ne (by omega) (by omega) (by omega) heq
    · exact word_ne (by omega) (by omega) (by omega) heq

/-- The store for the exception vectors is past the last page table. -/
theorem paged_entry {j : Nat} (hj : j < 0x1400) :
    paged mem physfree (word physfree (0x1000 + j)) =
      storeAll (storeAll (storeAll (storeAll mem (memset_stores physfree ((1 : UInt32) <<< 14)))
        (table_stores physfree (pte_of physfree)))
        (identity_stores (pte_of physfree) (tables_end physfree)))
        (device_stores (pte_of physfree)) (word physfree (0x1000 + j)) := by
  rw [paged_eq, storeAll_of_not_mem]
  rw [vector_store_eq, List.map_singleton, List.mem_singleton]
  exact word_ne (by omega) (by omega) (by omega)

theorem entry_device {i : Nat} (hi : i < 0x220) :
    paged mem physfree (word physfree (0x2000 + i)) = device_entry i := by
  have hindex : 0x2000 + i = 0x1000 + (0x1000 + i) := by omega
  rw [hindex, paged_entry mem physfree (by omega), ← hindex]
  apply storeAll_of_forall
  · exact List.mem_map.mpr ⟨_, mem_device_stores.mpr ⟨i, hi, rfl⟩, rfl⟩
  · intro q hq heq
    obtain ⟨j, hj, rfl⟩ := mem_device_stores.mp hq
    have hij := word_inj (by omega) (by omega) heq
    rw [Nat.add_left_cancel hij]

theorem entry_not_device {j : Nat} (hj : j < 0x1400) (hout : ¬ (0x1000 ≤ j ∧ j < 0x1220)) :
    paged mem physfree (word physfree (0x1000 + j)) =
      storeAll (storeAll (storeAll mem (memset_stores physfree ((1 : UInt32) <<< 14)))
        (table_stores physfree (pte_of physfree)))
        (identity_stores (pte_of physfree) (tables_end physfree)) (word physfree (0x1000 + j)) := by
  rw [paged_entry mem physfree hj, storeAll_of_not_mem]
  intro hmem
  obtain ⟨q, hq, heq⟩ := List.mem_map.mp hmem
  obtain ⟨i, hi, rfl⟩ := mem_device_stores.mp hq
  exact word_ne (by omega) (by omega) (by omega) heq

theorem entry_identity {j : Nat} (hj : j < 0x1000) (hmapped : j < identity_count physfree) :
    paged mem physfree (word physfree (0x1000 + j)) = identity_entry j := by
  have hcount := identity_count_le physfree
  rw [entry_not_device mem physfree (by omega) (by omega)]
  apply storeAll_of_forall
  · exact List.mem_map.mpr ⟨_, mem_identity_stores.mpr ⟨j, hmapped, rfl⟩, rfl⟩
  · intro q hq heq
    obtain ⟨i, hi, rfl⟩ := mem_identity_stores.mp hq
    have hij := word_inj (by omega) (by omega) heq
    rw [Nat.add_left_cancel hij]

theorem entry_empty {j : Nat} (hj : j < 0x1400) (hout : ¬ (0x1000 ≤ j ∧ j < 0x1220))
    (hunmapped : identity_count physfree ≤ j) : paged mem physfree (word physfree (0x1000 + j)) = 0 := by
  have hcount := identity_count_le physfree
  rw [entry_not_device mem physfree hj hout, storeAll_of_not_mem]
  · apply storeAll_of_forall
    · have hsplit : 0x1000 + j = 0x1000 + 256 * (j / 256) + j % 256 := by omega
      rw [hsplit]
      exact List.mem_map.mpr
        ⟨_, mem_table_stores.mpr ⟨j / 256, by omega, Or.inr (Or.inr ⟨j % 256, by omega, rfl⟩)⟩, rfl⟩
    · intro q hq heq
      obtain ⟨i, hi, rfl | rfl | ⟨t, ht, rfl⟩⟩ := mem_table_stores.mp hq
      · exact absurd heq (word_ne (by omega) (by omega) (by omega))
      · exact absurd heq (word_ne (by omega) (by omega) (by omega))
      · rfl
  · intro hmem
    obtain ⟨q, hq, heq⟩ := List.mem_map.mp hmem
    obtain ⟨i, hi, rfl⟩ := mem_identity_stores.mp hq
    exact word_ne (by omega) (by omega) (by omega) heq

end Lookups

end epos.machdep
