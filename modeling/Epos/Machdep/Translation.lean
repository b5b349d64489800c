import Epos.Machdep.Map

open words epos.page

namespace epos.machdep

section Entries

variable (mem : Memory) (physfree : UInt32)

theorem identity_entry_eq (i : Nat) : identity_entry i = (UInt32.ofNat i <<< 12) ||| 3 := by
  rw [identity_entry, UInt32.or_assoc]
  rfl

theorem page_toNat {i : Nat} (hi : i < 0x100000) : (UInt32.ofNat i <<< 12).toNat = 4096 * i := by
  have hcount : (12 : UInt32).toNat % 32 = 12 := rfl
  rw [UInt32.toNat_shiftLeft, hcount, UInt32.toNat_ofNat', Nat.shiftLeft_eq]
  omega

theorem device_page_toNat {i : Nat} (hi : i < 0x220) :
    ((0x20000000 : UInt32) + (UInt32.ofNat i <<< 12)).toNat = 0x20000000 + 4096 * i := by
  have hbase : (0x20000000 : UInt32).toNat = 0x20000000 := rfl
  rw [UInt32.toNat_add, page_toNat (by omega), hbase]
  omega

theorem device_entry_eq {i : Nat} (hi : i < 0x220) :
    device_entry i = ((0x20000000 : UInt32) + (UInt32.ofNat i <<< 12)) ||| 3 := by
  have hpage := device_page_toNat hi
  rw [device_entry, and_high_of_aligned 12 (by decide) (by decide) (by omega), UInt32.or_assoc]
  rfl

variable {mem physfree} {va pa : UInt32} {d : Nat}

/-- What the kernel occupies is mapped at its physical address and at KERNBASE. -/
theorem walk_kernel (haligned : physfree &&& 0x3FFF = 0) (hend : kernel_end physfree ≤ 0x01000000)
    (hd : d < (kernel_end physfree).toNat) (hva : va.toNat = d ∨ va.toNat = KERNBASE.toNat + d)
    (hpa : pa.toNat = d) : walk (paged mem physfree) physfree va = some pa := by
  have hbound : (kernel_end physfree).toNat ≤ 0x01000000 := UInt32.le_iff_toNat_le.mp hend
  have hbase : KERNBASE.toNat = 0xC0000000 := by decide
  have hpage : (UInt32.ofNat (d / 4096) <<< 12).toNat = 4096 * (d / 4096) := page_toNat (by omega)
  have hsecond := second_level_window mem haligned (by omega : d < 0x1400000) hva
  have hentry := entry_identity mem physfree (by omega : d / 4096 < 0x1000)
    ((lt_kernel_end_iff physfree d).mp hd)
  rw [identity_entry_eq] at hentry
  exact walk_of_page hsecond hentry (by omega) (by omega)

/-- The window of the devices is the last 0x220 pages of the last page tables. -/
theorem walk_device (haligned : physfree &&& 0x3FFF = 0) (hd : d < 0x220000)
    (hva : va.toNat = 0x01000000 + d ∨ va.toNat = 0xC1000000 + d)
    (hpa : pa.toNat = 0x20000000 + d) : walk (paged mem physfree) physfree va = some pa := by
  have hbase : KERNBASE.toNat = 0xC0000000 := by decide
  have hpage := device_page_toNat (by omega : d / 4096 < 0x220)
  have hsecond := second_level_window mem haligned (by omega : 0x01000000 + d < 0x1400000)
    (by omega : va.toNat = _ ∨ va.toNat = _)
  have hentry := entry_device mem physfree (by omega : d / 4096 < 0x220)
  have hindex : 0x1000 + (0x01000000 + d) / 4096 = 0x2000 + d / 4096 := by omega
  rw [hindex] at hsecond
  rw [device_entry_eq (by omega)] at hentry
  exact walk_of_page hsecond hentry (by omega) (by omega)

theorem walk_unmapped (haligned : physfree &&& 0x3FFF = 0) (hd : d < 0x1400000)
    (hva : va.toNat = d ∨ va.toNat = KERNBASE.toNat + d) (hkernel : ¬ d < (kernel_end physfree).toNat)
    (hdevice : ¬ (0x01000000 ≤ d ∧ d < 0x01220000)) : walk (paged mem physfree) physfree va = none := by
  have hsecond := second_level_window mem haligned hd hva
  rw [lt_kernel_end_iff] at hkernel
  apply walk_of_empty hsecond
  exact entry_empty mem physfree (by omega) (by omega) (by omega)

end Entries

/-- The memory map of `init_paging`: the kernel, at its physical address and at
KERNBASE, and the devices, at 0xC1000000 and with an alias at 0x01000000. -/
theorem init_paging_map (mem : Memory) (physfree : UInt32) (haligned : physfree &&& 0x3FFF = 0)
    (hend : kernel_end physfree ≤ 0x01000000) :
    (∀ va < kernel_end physfree, walk (paged mem physfree) physfree va = some va) ∧
    (∀ va < kernel_end physfree, walk (paged mem physfree) physfree (KERNBASE + va) = some va) ∧
    (∀ off : UInt32, off < 0x220000 →
      walk (paged mem physfree) physfree (0xC1000000 + off) = some (0x20000000 + off)) ∧
    (∀ va, va < 0x1400000 ∨ KERNBASE ≤ va ∧ va < KERNBASE + 0x1400000 →
      ¬ va < kernel_end physfree → (∀ d < kernel_end physfree, va ≠ KERNBASE + d) →
      (∀ off : UInt32, off < 0x220000 → va ≠ 0xC1000000 + off) →
      (∀ off : UInt32, off < 0x220000 → va ≠ 0x01000000 + off) →
      walk (paged mem physfree) physfree va = none) := by
  have hbound : (kernel_end physfree).toNat ≤ 0x01000000 := UInt32.le_iff_toNat_le.mp hend
  have hbase : KERNBASE.toNat = 0xC0000000 := by decide
  have hsize : (0x220000 : UInt32).toNat = 0x220000 := rfl
  refine ⟨?_, ?_, ?_, ?_⟩
  · intro va hva
    exact walk_kernel haligned hend (UInt32.lt_iff_toNat_lt.mp hva) (Or.inl rfl) rfl
  · intro va hva
    have hlt := UInt32.lt_iff_toNat_lt.mp hva
    apply walk_kernel haligned hend hlt (Or.inr _) rfl
    rw [UInt32.toNat_add]
    omega
  · intro off hoff
    have hlt := UInt32.lt_iff_toNat_lt.mp hoff
    have hwindow : (0xC1000000 : UInt32).toNat = 0xC1000000 := rfl
    have hdevices : (0x20000000 : UInt32).toNat = 0x20000000 := rfl
    apply walk_device haligned (by omega : off.toNat < 0x220000) (Or.inr _)
    · rw [UInt32.toNat_add]
      omega
    · rw [UInt32.toNat_add]
      omega
  · intro va hrange hlow hkernel hwindow halias
    have htop : (KERNBASE + 0x1400000).toNat = 0xC1400000 := by decide
    have hlimit : (0x1400000 : UInt32).toNat = 0x1400000 := rfl
    have hout : ∀ (base size : UInt32), (∀ off < size, va ≠ base + off) → base ≤ va →
        base.toNat + size.toNat ≤ va.toNat := by
      intro base size hne hle
      have hnat := UInt32.le_iff_toNat_le.mp hle
      have hsub := UInt32.toNat_sub_of_le va base hle
      have hnot : ¬ va - base < size := by
        intro hlt
        apply hne (va - base) hlt
        grind
      rw [UInt32.lt_iff_toNat_lt] at hnot
      omega
    rw [UInt32.lt_iff_toNat_lt] at hlow
    obtain hva | ⟨hle, hlt⟩ := hrange
    · rw [UInt32.lt_iff_toNat_lt] at hva
      apply walk_unmapped haligned (by omega) (Or.inl rfl) (by omega)
      rintro ⟨hge, hbelow⟩
      have hpast := hout 0x01000000 0x220000 halias (UInt32.le_iff_toNat_le.mpr hge)
      have hstart : (0x01000000 : UInt32).toNat = 0x01000000 := rfl
      rw [hstart, hsize] at hpast
      omega
    · have hpast_kernel := hout _ _ hkernel hle
      rw [UInt32.le_iff_toNat_le] at hle
      rw [UInt32.lt_iff_toNat_lt] at hlt
      apply walk_unmapped (d := va.toNat - KERNBASE.toNat) haligned (by omega) (Or.inr (by omega)) (by omega)
      rintro ⟨hge, hbelow⟩
      have hstart : (0xC1000000 : UInt32).toNat = 0xC1000000 := rfl
      have hpast := hout 0xC1000000 0x220000 hwindow (UInt32.le_iff_toNat_le.mpr (by omega))
      rw [hstart, hsize] at hpast
      omega

theorem init_paging_map_kernel :
    walk (paged (fun _ => 0) 0x58000) 0x58000 (KERNBASE + 0x60123) = some 0x60123 :=
  (init_paging_map (fun _ => 0) 0x58000 (by decide) (by decide)).2.1 0x60123 (by decide)

/-! The flat array of entries. -/

/-- The entry that `vtopte` names is mapped, to the entry that the walk reads. -/
def EntryMapped (mem : Memory) (physfree va : UInt32) : Prop :=
  ∃ addr, second_level (paged mem physfree) physfree va = some addr ∧
    walk (paged mem physfree) physfree (vtopte va) = some addr

/-- The flat array is between the two windows, where the directory is empty. -/
theorem walk_vtopte (mem : Memory) {physfree : UInt32} (haligned : physfree &&& 0x3FFF = 0)
    (va : UInt32) : walk (paged mem physfree) physfree (vtopte va) = none := by
  have hlt := va.toNat_lt
  have haddr := vtopte_toNat va
  rw [PT_toNat] at haddr
  apply walk_of_no_table
  rw [first_level_eq haligned]
  exact directory_empty mem physfree (by omega) (by omega) (by omega)

/-- No entry is mapped, so `page_map` cannot reach the entry it names. -/
theorem not_entry_mapped (mem : Memory) (physfree : UInt32) (haligned : physfree &&& 0x3FFF = 0)
    (va : UInt32) : ¬ EntryMapped mem physfree va := by
  rintro ⟨addr, -, hmapped⟩
  rw [walk_vtopte mem haligned va] at hmapped
  cases hmapped

theorem not_entry_mapped_first : ¬ EntryMapped (fun _ => 0) 0x58000 0 :=
  not_entry_mapped (fun _ => 0) 0x58000 (by decide) 0

/-- The first page of the kernel, with its tables at 0x58000, has an entry at
0x5C000, and 0xBFC00000 is not mapped to it. -/
theorem first_entry_not_mapped :
    second_level (paged (fun _ => 0) 0x58000) 0x58000 0 = some 0x5C000 ∧
      ¬ EntryMapped (fun _ => 0) 0x58000 0 := by
  constructor
  · exact second_level_window _ (d := 0) (by decide) (by decide) (Or.inl rfl)
  · rintro ⟨addr, -, hmapped⟩
    rw [walk_vtopte (fun _ => 0) (by decide) 0] at hmapped
    cases hmapped

/-! The memory that `init_paging` reserves. -/

/-- Every store is in the memory from `physfree` up to what `init_paging` returns. -/
def StoresReserved (physfree : UInt32) : Prop :=
  ∀ q ∈ (init_paging physfree).2, physfree ≤ q.1 ∧ q.1 < (init_paging physfree).1

/-- The stores to second-level entries, other than those that clear the tables. -/
def entry_stores (physfree : UInt32) : Stores :=
  identity_stores (pte_of physfree) (tables_end physfree) ++ device_stores (pte_of physfree) ++
    [vector_store (pte_of physfree)]

/-- The entry at `addr` is one of a table that the directory points to. -/
def InTable (mem : Memory) (physfree addr : UInt32) : Prop :=
  ∃ k < 0x1000, mem (word physfree k) &&& 3 = 1 ∧
    ∃ t < 256, addr = (mem (word physfree k) &&& 0xFFFFFC00) + 4 * UInt32.ofNat t

/-- The page of the exception vectors is mapped to physical page 0. -/
def VectorsMapped (mem : Memory) (physfree : UInt32) : Prop :=
  ∀ off : UInt32, off < 0x1000 → walk mem physfree (0xFFFF0000 + off) = some off

section Reserved

variable {physfree : UInt32}

theorem vector_store_mem (physfree : UInt32) : vector_store (pte_of physfree) ∈ entry_stores physfree :=
  List.mem_append_right _ (List.mem_singleton_self _)

theorem vector_address_toNat (physfree : UInt32) :
    (vector_store (pte_of physfree)).1.toNat = (physfree.toNat + 0x93C0) % 2 ^ 32 := by
  have hfour : (4 : UInt32).toNat = 4 := rfl
  rw [vector_store_eq, word, UInt32.toNat_add, UInt32.toNat_mul, UInt32.toNat_ofNat', hfour]

theorem tables_end_toNat (physfree : UInt32) :
    (tables_end physfree).toNat = (physfree.toNat + 0x9000) % 2 ^ 32 := by
  have hsize : (((1 : UInt32) <<< 10) * NR_KERN_PAGETABLE).toNat = 0x5000 := by decide
  have hdirectory : ((1 : UInt32) <<< 14).toNat = 0x4000 := by decide
  rw [tables_end, pte_of, UInt32.toNat_add, UInt32.toNat_add, hsize, hdirectory]
  omega

/-- The last store is past the last page table. -/
theorem not_stores_reserved (haligned : physfree &&& 0x3FFF = 0) : ¬ StoresReserved physfree := by
  intro hreserved
  have hlow := aligned_toNat haligned
  have hlt := physfree.toNat_lt
  have haddr := vector_address_toNat physfree
  have hend := tables_end_toNat physfree
  have hmem : vector_store (pte_of physfree) ∈ (init_paging physfree).2 :=
    List.mem_append_right _ (List.mem_singleton_self _)
  obtain ⟨hge, hbelow⟩ := hreserved _ hmem
  rw [UInt32.le_iff_toNat_le] at hge
  have hnat : (vector_store (pte_of physfree)).1.toNat < (tables_end physfree).toNat :=
    UInt32.lt_iff_toNat_lt.mp hbelow
  omega

/-- The directory points to the 20 page tables and to nothing else. -/
theorem directory_table (mem : Memory) {k : Nat} (hk : k < 0x1000)
    (htable : paged mem physfree (word physfree k) &&& 3 = 1) :
    ∃ i < 20, paged mem physfree (word physfree k) = table_entry physfree i := by
  by_cases hlow : k < 20
  · exact ⟨k, hlow, directory_low mem physfree hlow⟩
  · by_cases hhigh : 0xC00 ≤ k ∧ k < 0xC14
    · have hindex : 0xC00 + (k - 0xC00) = k := by omega
      have hentry := directory_high mem physfree (by omega : k - 0xC00 < 20)
      rw [hindex] at hentry
      exact ⟨k - 0xC00, by omega, hentry⟩
    · rw [directory_empty mem physfree hk (by omega) hhigh, UInt32.zero_and] at htable
      exact absurd htable (by decide)

theorem vector_store_not_in_table (mem : Memory) (haligned : physfree &&& 0x3FFF = 0) :
    ¬ InTable (paged mem physfree) physfree (vector_store (pte_of physfree)).1 := by
  rintro ⟨k, hk, htable, t, ht, haddr⟩
  obtain ⟨i, hi, hentry⟩ := directory_table mem hk htable
  rw [hentry, table_entry_base haligned, word_add, vector_store_eq] at haddr
  exact word_ne (by omega) (by omega) (by omega) haddr

theorem walk_vectors (mem : Memory) (haligned : physfree &&& 0x3FFF = 0) :
    walk (paged mem physfree) physfree 0xFFFF0000 = none := by
  have hva : (0xFFFF0000 : UInt32).toNat = 0xFFFF0000 := rfl
  apply walk_of_no_table
  rw [first_level_eq haligned, hva]
  exact directory_empty mem physfree (by decide) (by decide) (by decide)

end Reserved

/-- The store for the exception vectors is past the reserved memory and in no page
table, and the vectors are not mapped. -/
theorem init_paging_not_reserved (mem : Memory) (physfree : UInt32)
    (haligned : physfree &&& 0x3FFF = 0) :
    ¬ StoresReserved physfree ∧
    ¬ (∀ q ∈ entry_stores physfree, InTable (paged mem physfree) physfree q.1) ∧
    ¬ VectorsMapped (paged mem physfree) physfree := by
  refine ⟨not_stores_reserved haligned, ?_, ?_⟩
  · intro htables
    exact vector_store_not_in_table mem haligned (htables _ (vector_store_mem physfree))
  · intro hmapped
    have hfirst := hmapped 0 (by decide)
    rw [UInt32.add_zero, walk_vectors mem haligned] at hfirst
    cases hfirst

theorem init_paging_not_reserved_first :
    ¬ StoresReserved 0x58000 ∧
    ¬ (∀ q ∈ entry_stores 0x58000, InTable (paged (fun _ => 0) 0x58000) 0x58000 q.1) ∧
    ¬ VectorsMapped (paged (fun _ => 0) 0x58000) 0x58000 :=
  init_paging_not_reserved (fun _ => 0) 0x58000 (by decide)

/-- With the directory at 0x58000, `init_paging` returns 0x61000 and has written
to 0x613C0. -/
theorem vector_store_outside :
    vector_store (pte_of 0x58000) ∈ (init_paging 0x58000).2 ∧
    (init_paging 0x58000).1 = 0x61000 ∧ (vector_store (pte_of 0x58000)).1 = 0x613C0 ∧
    ¬ StoresReserved 0x58000 ∧
    ¬ InTable (paged (fun _ => 0) 0x58000) 0x58000 (vector_store (pte_of 0x58000)).1 ∧
    ¬ VectorsMapped (paged (fun _ => 0) 0x58000) 0x58000 := by
  refine ⟨List.mem_append_right _ (List.mem_singleton_self _), by decide, by decide,
    not_stores_reserved (by decide), vector_store_not_in_table _ (by decide), ?_⟩
  intro hmapped
  have hfirst := hmapped 0 (by decide)
  rw [UInt32.add_zero, walk_vectors _ (by decide)] at hfirst
  cases hfirst

end epos.machdep
