import Epos.Heap.Init
import Epos.Heap.Realloc

open bytes tiles

namespace epos.tlsf

section Malloc

variable {mem : ByteMem} {t fin lo : Nat} {size : UInt32} {blocks : List Block}

/-- A request is refused exactly if no free block has the bytes that it is rounded up to. Otherwise it gets a
block from the first list that has one, without more bytes than would do for a block of their own. -/
theorem malloc_ex_good_fit (hheap : Heap mem t fin blocks) (hrequest : size.toNat ≤ 0xFC000000) :
    ((malloc_ex mem size (UInt32.ofNat t)).1 = NULL ↔ ∀ b ∈ blocks, b.free = true → b.size < fit (request size).toNat) ∧
      ((malloc_ex mem size (UInt32.ofNat t)).1 = NULL → (malloc_ex mem size (UInt32.ofNat t)).2 = mem) ∧
      ((malloc_ex mem size (UInt32.ofNat t)).1 ≠ NULL → ∃ a s s' blocks', ⟨a, s, true⟩ ∈ blocks ∧
        (malloc_ex mem size (UInt32.ofNat t)).1 = UInt32.ofNat (a + 8) ∧
        (∀ b ∈ blocks, b.free = true → fit (request size).toNat ≤ b.size → class_of s ≤ class_of b.size) ∧
        fit (request size).toNat ≤ s' ∧ s' < fit (request size).toNat + 16 ∧
        Heap (malloc_ex mem size (UInt32.ofNat t)).2 t fin blocks' ∧
        ∀ b, b ∈ used blocks' ↔ b = ⟨a, s', false⟩ ∨ b ∈ used blocks) := by
  obtain ⟨hnull, hsame, hnone⟩ | ⟨before, a, s, s', after, rfl, hresult, hgranted⟩ := malloc_ex_spec hheap hrequest
  · exact ⟨⟨fun _ => hnone, fun _ => hnull⟩, fun _ => hsame, fun hne => absurd hnull hne⟩
  · obtain ⟨⟨hfits, hle, hfew⟩, hbest, ⟨blocks', hheap', hused⟩, -⟩ := hgranted
    have hmem : (⟨a, s, true⟩ : Block) ∈ before ++ [⟨a, s, true⟩] ++ after := by simp
    have hne := hheap.buffer_ne_null hmem
    rw [hresult]
    refine ⟨⟨fun hnull => absurd hnull hne, fun hnone => ?_⟩, fun hnull => absurd hnull hne, fun _ => ?_⟩
    · have hshort := hnone _ hmem rfl
      simp only at hshort
      omega
    · refine ⟨a, s, s', blocks', hmem, rfl, hbest, hfits, hfew, hheap', fun b => ?_⟩
      have hfree : used [⟨a, s, true⟩] = [] := rfl
      rw [hused, used_append, used_append, hfree, List.append_nil, List.mem_append, List.mem_cons, List.mem_append]
      exact or_left_comm

theorem malloc_ex_good_fit_cleared :
    (malloc_ex (new_pool cleared 0x100000 0x10000).mem 100 (UInt32.ofNat 0x100000)).1 ≠ NULL ∧
      (∃ a s s' blocks', (malloc_ex (new_pool cleared 0x100000 0x10000).mem 100 (UInt32.ofNat 0x100000)).1 = UInt32.ofNat (a + 8) ∧
        (⟨a, s, true⟩ : Block) ∈ [⟨0x100000 + 3200, (0x10000 - 3180) / 8 * 8 - 32, true⟩] ∧ 104 ≤ s' ∧ s' < 120 ∧
        Heap (malloc_ex (new_pool cleared 0x100000 0x10000).mem 100 (UInt32.ofNat 0x100000)).2 0x100000
          (pool_end 0x100000 0x10000) blocks' ∧
        ∀ b, b ∈ used blocks' ↔ b = ⟨a, s', false⟩) ∧
      (malloc_ex (new_pool cleared 0x100000 0x10000).mem 0x20000 (UInt32.ofNat 0x100000)).1 = NULL := by
  have hfit : fit (request 100).toNat = 104 := by decide
  obtain ⟨hnull, -, hgranted⟩ := malloc_ex_good_fit cleared_region.heap (by decide : (100 : UInt32).toNat ≤ 0xFC000000)
  have hlarge := malloc_ex_good_fit cleared_region.heap (by decide : (0x20000 : UInt32).toNat ≤ 0xFC000000)
  have hne : (malloc_ex (new_pool cleared 0x100000 0x10000).mem 100 (UInt32.ofNat 0x100000)).1 ≠ NULL := fun h =>
    absurd (hnull.mp h _ List.mem_cons_self rfl) (by decide)
  obtain ⟨a, s, s', blocks', hmem, hresult, -, hlow, hhigh, hheap, hused⟩ := hgranted hne
  rw [hfit] at hlow hhigh
  refine ⟨hne, ⟨a, s, s', blocks', hresult, hmem, hlow, hhigh, hheap, fun b => ?_⟩, hlarge.1.mpr (by decide)⟩
  have hnone : b ∉ used [(⟨0x100000 + 3200, (0x10000 - 3180) / 8 * 8 - 32, true⟩ : Block)] := List.not_mem_nil
  rw [hused]
  exact or_iff_left hnone

/-- Bytes between the blocks in use are enough for any request that they have room for. -/
theorem malloc_ex_gap (hheap : Heap mem t fin blocks) (hrequest : size.toNat ≤ 0xFC000000) (hlo : t + 3200 ≤ lo)
    (hhi : lo + 8 + fit (request size).toNat ≤ fin)
    (hgap : ∀ b ∈ used blocks, b.stop ≤ lo ∨ lo + 8 + fit (request size).toNat ≤ b.addr) :
    (malloc_ex mem size (UInt32.ofNat t)).1 ≠ NULL := by
  obtain ⟨c, hc, hfree, hclo, hchi⟩ := hheap.gap hlo (by omega) hhi hgap
  obtain ⟨-, -, hnone⟩ | ⟨before, a, s, s', after, rfl, hresult, -⟩ := malloc_ex_spec hheap hrequest
  · have hshort := hnone c hc hfree
    unfold Block.stop at hchi
    omega
  · rw [hresult]
    exact hheap.buffer_ne_null (b := ⟨a, s, true⟩) (by simp)

theorem malloc_ex_gap_cleared : (malloc_ex (new_pool cleared 0x100000 0x10000).mem 5000 (UInt32.ofNat 0x100000)).1 ≠ NULL :=
  malloc_ex_gap cleared_region.heap (by decide) (Nat.le_refl _) (by decide) (by decide)

theorem request_wrapped (hlarge : 0xFFFFFFF8 < size.toNat) : request size = 0 := by
  have hlt := size.toNat_lt
  rw [← UInt32.toNat_inj, request_toNat, UInt32.toNat_zero, if_neg (by omega)]
  omega

theorem MAPPING_SEARCH_zero : MAPPING_SEARCH 0 = (0, 0, 0) := by decide

/-- The header of a block that keeps none of its bytes. -/
theorem found_nothing (mem : ByteMem) (b tlsf : UInt32) (hsize : 16 ≤ (block_size mem b &&& BLOCK_SIZE).toNat) :
    block_size (found mem b 0 tlsf) b &&& BLOCK_SIZE = 0 := by
  have hsplit : (block_size mem b &&& BLOCK_SIZE) - 0 ≥ sizeof_bhdr_t := by
    rw [UInt32.sub_zero, ge_iff_le, UInt32.le_iff_toNat_le]
    exact hsize
  have hbits : ∀ x : UInt32, (0 ||| (x &&& PREV_STATE)) &&& BLOCK_SIZE = 0 := by
    intro x
    have hdisjoint : PREV_STATE &&& BLOCK_SIZE = 0 := rfl
    rw [UInt32.zero_or, UInt32.and_assoc, hdisjoint, UInt32.and_zero]
  unfold found
  simp only [if_pos hsplit]
  rw [block_size, set_size, load32_store32, hbits]

/-- A request for more than 4294967288 bytes wraps when it is rounded up. It gets any free block at all,
which then keeps no bytes unless it is too short for a split. -/
theorem malloc_ex_wraps (hheap : Heap mem t fin blocks) (hlarge : 0xFFFFFFF8 < size.toNat) :
    ((malloc_ex mem size (UInt32.ofNat t)).1 = NULL ↔ ∀ b ∈ blocks, b.free = false) ∧
      ((malloc_ex mem size (UInt32.ofNat t)).1 ≠ NULL → ∃ a s, ⟨a, s, true⟩ ∈ blocks ∧
        (malloc_ex mem size (UInt32.ofNat t)).1 = UInt32.ofNat (a + 8) ∧
        (16 ≤ s → block_size (malloc_ex mem size (UInt32.ofNat t)).2 (UInt32.ofNat a) &&& BLOCK_SIZE = 0)) := by
  have hzero : class_of 0 = 0 := rfl
  have hsearch := hheap.search (n := 0) (by decide) fun m => by omega
  rw [hzero] at hsearch
  have hrow : UInt32.ofNat (0 / 32) = 0 := rfl
  rw [hrow] at hsearch
  unfold malloc_ex
  rw [request_wrapped hlarge, MAPPING_SEARCH_zero]
  simp only
  obtain ⟨a, s, hmem, -, -, hhead, hfind⟩ | ⟨hnone, hfind⟩ := hsearch
  · have hnode := hheap.node hmem
    have hsize := hheap.size_lt hmem
    simp only at hsize
    have hne : UInt32.ofNat a ≠ NULL := by
      have hroom := hheap.bounds hmem
      have hbound := hheap.bound
      simp only [Block.stop] at hroom
      exact (ofNat_ne_zero_iff (by omega)).mpr (by omega)
    have hbuffer := hheap.buffer_ne_null hmem
    simp only at hbuffer
    obtain ⟨before, after, hsplit⟩ := exists_split hmem
    obtain ⟨-, hword, -⟩ := (hsplit ▸ hheap).extracted hhead
    simp only [hfind, if_neg hne, buffer_eq]
    refine ⟨⟨fun hnull => absurd hnull hbuffer, fun hnone => ?_⟩, fun _ => ⟨a, s, hmem, rfl, fun hs => ?_⟩⟩
    · cases hnone _ hmem
    · refine found_nothing _ _ _ ?_
      rw [block_size_eq, hword, and_BLOCK_SIZE hsize.1 hsize.2, UInt32.toNat_ofNat', Nat.mod_eq_of_lt hsize.2]
      exact hs
  · simp only [hfind, if_true]
    refine ⟨⟨fun _ b hb => (Bool.not_eq_true _).mp fun hfree => ?_, fun _ => trivial⟩, fun hne => absurd rfl hne⟩
    have hlt := hnone b hb hfree
    omega

theorem malloc_ex_wraps_cleared :
    (malloc_ex (new_pool cleared 0x100000 0x10000).mem 0xFFFFFFFF (UInt32.ofNat 0x100000)).1 = UInt32.ofNat 0x100C88 ∧
      block_size (malloc_ex (new_pool cleared 0x100000 0x10000).mem 0xFFFFFFFF (UInt32.ofNat 0x100000)).2 (UInt32.ofNat 0x100C80) &&&
        BLOCK_SIZE = 0 := by
  obtain ⟨hnull, hgranted⟩ := malloc_ex_wraps cleared_region.heap (by decide : 0xFFFFFFF8 < (0xFFFFFFFF : UInt32).toNat)
  obtain ⟨a, s, hmem, hresult, hnothing⟩ := hgranted fun h => Bool.noConfusion (hnull.mp h _ List.mem_cons_self)
  cases List.mem_singleton.mp hmem
  exact ⟨hresult, hnothing (by decide)⟩

end Malloc

section Calloc

variable {mem : ByteMem} {t fin : Nat} {nelem elem_size : UInt32} {blocks : List Block}

/-- The product of the arguments may wrap. The block that is granted is cleared as far as the wrapped product
goes, and it is long enough exactly if nothing has wrapped. -/
theorem calloc_ex_enough_iff (hheap : Heap mem t fin blocks) (hrequest : (nelem * elem_size).toNat ≤ 0xFC000000)
    (hgranted : (calloc_ex mem nelem elem_size (UInt32.ofNat t)).1 ≠ NULL) :
    ∃ a z blocks', (calloc_ex mem nelem elem_size (UInt32.ofNat t)).1 = UInt32.ofNat (a + 8) ∧
      Heap (calloc_ex mem nelem elem_size (UInt32.ofNat t)).2 t fin blocks' ∧
      (∀ b, b ∈ used blocks' ↔ b = ⟨a, z, false⟩ ∨ b ∈ used blocks) ∧
      (∀ i < (nelem * elem_size).toNat, byte (calloc_ex mem nelem elem_size (UInt32.ofNat t)).2 (a + 8 + i) = 0) ∧
      (nelem.toNat * elem_size.toNat ≤ z ↔ nelem.toNat * elem_size.toNat < 2 ^ 32) := by
  obtain ⟨hnull, -⟩ | ⟨a, z, blocks', hresult, hz, hheap', hused, -, hzero, -⟩ := calloc_used hheap hrequest
  · exact absurd hnull hgranted
  · have hmem : (⟨a, z, false⟩ : Block) ∈ blocks' := (mem_used.mp ((hused _).mpr (Or.inl rfl))).1
    have hlt := hheap'.size_lt hmem
    have hle := (request_bounds hrequest).1
    have hproduct := UInt32.toNat_mul nelem elem_size
    simp only at hlt
    refine ⟨a, z, blocks', hresult, hheap', hused, hzero, fun h => by omega, fun h => ?_⟩
    rw [Nat.mod_eq_of_lt h] at hproduct
    omega

theorem calloc_ex_enough_iff_cleared :
    ∃ a z blocks', (calloc_ex (new_pool cleared 0x100000 0x10000).mem 0x1000001 0x100 (UInt32.ofNat 0x100000)).1 = UInt32.ofNat (a + 8) ∧
      Heap (calloc_ex (new_pool cleared 0x100000 0x10000).mem 0x1000001 0x100 (UInt32.ofNat 0x100000)).2 0x100000
        (pool_end 0x100000 0x10000) blocks' ∧
      (∀ b, b ∈ used blocks' ↔ b = ⟨a, z, false⟩ ∨
        b ∈ used [⟨0x100000 + 3200, (0x10000 - 3180) / 8 * 8 - 32, true⟩]) ∧
      (∀ i < ((0x1000001 : UInt32) * 0x100).toNat,
        byte (calloc_ex (new_pool cleared 0x100000 0x10000).mem 0x1000001 0x100 (UInt32.ofNat 0x100000)).2 (a + 8 + i) = 0) ∧
      ((0x1000001 : UInt32).toNat * (0x100 : UInt32).toNat ≤ z ↔ (0x1000001 : UInt32).toNat * (0x100 : UInt32).toNat < 2 ^ 32) := by
  have hsize : ((0x1000001 : UInt32) * 0x100).toNat ≤ 0xFC000000 := by decide
  have hfit : fit (request (0x1000001 * 0x100)).toNat ≤ (0x10000 - 3180) / 8 * 8 - 32 := by decide
  refine calloc_ex_enough_iff cleared_region.heap hsize ?_
  rw [calloc_ex_result _ _ (by decide) (by decide), malloc_ex_one_block cleared_region.heap hsize, if_pos hfit]
  decide

end Calloc

section Free

variable {mem : ByteMem} {t fin a s : Nat} {blocks : List Block}

/-- A block that is freed becomes one with its free neighbours. -/
theorem free_ex_merges (hheap : Heap mem t fin blocks) (hb : ⟨a, s, false⟩ ∈ blocks) :
    ∃ blocks', Heap (free_ex mem (UInt32.ofNat (a + 8)) (UInt32.ofNat t)) t fin blocks' ∧
      (∀ b, b ∈ used blocks' ↔ b ∈ used blocks ∧ b.addr ≠ a) ∧
      (∃ c ∈ blocks', c.free = true ∧ c.addr ≤ a ∧ a + 8 + s ≤ c.stop ∧
        ∀ b ∈ blocks, b.free = true → b.stop = a ∨ b.addr = a + 8 + s → c.addr ≤ b.addr ∧ b.stop ≤ c.stop) ∧
      ∀ b ∈ used blocks, b.addr ≠ a → ∀ y, b.addr + 8 ≤ y → y < b.stop →
        byte (free_ex mem (UInt32.ofNat (a + 8)) (UInt32.ofNat t)) y = byte mem y := by
  obtain ⟨blocks', hheap', hused, hsame⟩ := free_used hheap hb
  have hroom := hheap.bounds hb
  have hbound := hheap.bound
  simp only [Block.stop] at hroom
  -- the blocks that are still in use are beside the freed one and its free neighbours
  have hbeside : ∀ b ∈ used blocks', b.stop ≤ a ∨ a + 8 + s ≤ b.addr := fun b hb' => by
    obtain ⟨hb', hne⟩ := (hused b).mp hb'
    have := hheap.apart (mem_used.mp hb').1 hb hne
    exact this.imp_right fun h => h
  have hneighbour : ∀ d ∈ blocks, d.free = true → ∀ b ∈ used blocks', b.stop ≤ d.addr ∨ d.stop ≤ b.addr := fun d hd hfree b hb' => by
    obtain ⟨hb', -⟩ := (hused b).mp hb'
    obtain ⟨hmem, hbused⟩ := mem_used.mp hb'
    refine hheap.apart hmem hd fun heq => ?_
    obtain rfl := hheap.tiles.unique hmem hd heq
    rw [hfree] at hbused
    cases hbused
  obtain ⟨c, hc, hfree, hclo, hchi⟩ := hheap'.gap hroom.1 (r := a + 8 + s) (by omega) hroom.2.2 hbeside
  have hone : ∀ d ∈ blocks', d.addr ≤ a → a < d.stop → d = c := fun d hd hlo hhi => by
    refine hheap'.tiles.unique hd hc (Decidable.byContradiction fun hne => ?_)
    have := hheap'.apart hd hc hne
    omega
  refine ⟨blocks', hheap', hused, ⟨c, hc, hfree, hclo, hchi, fun d hd hdfree hadjacent => ?_⟩, fun b hb' hne y hlo hhi => ?_⟩
  · have hdroom := hheap.bounds hd
    obtain hbefore | hbehind := hadjacent
    · obtain ⟨e, he, -, helo, hehi⟩ := hheap'.gap hdroom.1 (r := a + 8 + s) (by omega) hroom.2.2 fun b hb' => by
        have := hbeside b hb'
        have := hneighbour d hd hdfree b hb'
        have hbroom := hheap'.bounds (mem_used.mp hb').1
        omega
      obtain rfl := hone e he (by omega) (by omega)
      exact ⟨helo, by omega⟩
    · obtain ⟨e, he, -, helo, hehi⟩ := hheap'.gap hroom.1 (r := d.stop) (by omega) hdroom.2.2 fun b hb' => by
        have := hbeside b hb'
        have := hneighbour d hd hdfree b hb'
        have hbroom := hheap'.bounds (mem_used.mp hb').1
        omega
      obtain rfl := hone e he helo (by omega)
      exact ⟨by omega, hehi⟩
  · have hmem := (mem_used.mp hb').1
    have hbroom := hheap.bounds hmem
    have hapart := hheap.apart hmem hb hne
    simp only [Block.stop] at hapart hbroom hhi
    refine hsame y (by omega) (guarded_iff.mpr (Or.inr (Or.inr ⟨b, hb', hlo, hhi⟩))) fun hin => ?_
    unfold Range at hin
    omega

theorem free_ex_merges_cleared : ∃ a z blocks', Heap (free_ex
      (malloc_ex (new_pool cleared 0x100000 0x10000).mem 100 (UInt32.ofNat 0x100000)).2 (UInt32.ofNat (a + 8)) (UInt32.ofNat 0x100000))
      0x100000 (pool_end 0x100000 0x10000) blocks' ∧ ∃ c ∈ blocks', c.free = true ∧ c.addr ≤ a ∧ a + 8 + z ≤ c.stop := by
  obtain ⟨z, blocks, -, -, -, hheap, hused⟩ := cleared_granted
  obtain ⟨blocks', hheap', -, ⟨c, hc, hfree, hlo, hhi, -⟩, -⟩ := free_ex_merges hheap (mem_used.mp ((hused _).mpr rfl)).1
  exact ⟨_, z, blocks', hheap', c, hc, hfree, hlo, hhi⟩

end Free

section Realloc

variable {mem : ByteMem} {t fin a s : Nat} {size : UInt32} {blocks : List Block}

/-- A block that is resized stays where it is unless it has to move for lack of room behind it, and then it
keeps its bytes. It is refused only if there is no free block to move it to, and then nothing changes. -/
theorem realloc_ex_keeps (hheap : Heap mem t fin blocks) (hb : ⟨a, s, false⟩ ∈ blocks) (hne : size ≠ 0)
    (hrequest : size.toNat ≤ 0xFC000000) :
    ((realloc_ex mem (UInt32.ofNat (a + 8)) size (UInt32.ofNat t)).1 = NULL →
      (realloc_ex mem (UInt32.ofNat (a + 8)) size (UInt32.ofNat t)).2 = mem ∧ Stuck blocks a s (request size).toNat ∧
        ∀ b ∈ blocks, b.free = true → b.size < fit (request size).toNat) ∧
      ((realloc_ex mem (UInt32.ofNat (a + 8)) size (UInt32.ofNat t)).1 ≠ NULL → ∃ a' z blocks',
        (realloc_ex mem (UInt32.ofNat (a + 8)) size (UInt32.ofNat t)).1 = UInt32.ofNat (a' + 8) ∧
        (a' = a ∨ Stuck blocks a s (request size).toNat) ∧ (request size).toNat ≤ z ∧
        Heap (realloc_ex mem (UInt32.ofNat (a + 8)) size (UInt32.ofNat t)).2 t fin blocks' ∧
        (∀ b, b ∈ used blocks' ↔ b = ⟨a', z, false⟩ ∨ b ∈ used blocks ∧ b.addr ≠ a) ∧
        (∀ i < min s size.toNat, byte (realloc_ex mem (UInt32.ofNat (a + 8)) size (UInt32.ofNat t)).2 (a' + 8 + i) =
          byte mem (a + 8 + i)) ∧
        ∀ b ∈ used blocks, b.addr ≠ a → ∀ y, b.addr + 8 ≤ y → y < b.stop →
          byte (realloc_ex mem (UInt32.ofNat (a + 8)) size (UInt32.ofNat t)).2 y = byte mem y) := by
  have hbound := hheap.bound
  obtain ⟨hnull, hsame, hstuck, hnone⟩ | ⟨a', hresult, ⟨⟨z, blocks', hz, hheap', hused⟩, -, hcontent, hsame⟩, hmoved⟩ :=
    realloc_used hheap hb hne hrequest
  · exact ⟨fun _ => ⟨hsame, hstuck, hnone⟩, fun hgranted => absurd hnull hgranted⟩
  · have hmem : (⟨a', z, false⟩ : Block) ∈ blocks' := (mem_used.mp ((hused _).mpr (Or.inl rfl))).1
    have hle := (request_bounds hrequest).1
    refine ⟨fun hnull => absurd (hresult.symm.trans hnull) (hheap'.buffer_ne_null hmem), fun _ => ?_⟩
    refine ⟨a', z, blocks', hresult, hmoved, hz, hheap', hused, fun i hi => hcontent i (by omega) (by omega),
      fun b hb' hne y hlo hhi => ?_⟩
    have hbmem := (mem_used.mp hb').1
    have hbroom := hheap.bounds hbmem
    have hapart := hheap.apart hbmem hb hne
    simp only [Block.stop] at hapart hbroom hhi
    refine hsame y (by omega) (guarded_iff.mpr (Or.inr (Or.inr ⟨b, hb', hlo, hhi⟩))) fun hin => ?_
    unfold Range at hin
    omega

/-- A block of 100 bytes is cut to 40 where it is, and is left alone by a request for more than the pool has. -/
theorem realloc_ex_keeps_cleared : ∃ a z blocks mem, (⟨a, z, false⟩ : Block) ∈ blocks ∧
    Heap mem 0x100000 (pool_end 0x100000 0x10000) blocks ∧
    (realloc_ex mem (UInt32.ofNat (a + 8)) 40 (UInt32.ofNat 0x100000)).1 = UInt32.ofNat (a + 8) ∧
    (∀ i < 40, byte (realloc_ex mem (UInt32.ofNat (a + 8)) 40 (UInt32.ofNat 0x100000)).2 (a + 8 + i) = byte mem (a + 8 + i)) ∧
    (realloc_ex mem (UInt32.ofNat (a + 8)) 0x20000 (UInt32.ofNat 0x100000)).1 = NULL ∧
    (realloc_ex mem (UInt32.ofNat (a + 8)) 0x20000 (UInt32.ofNat 0x100000)).2 = mem := by
  obtain ⟨z, blocks, -, hz, -, hheap, hused⟩ := cleared_granted
  have hmem := (mem_used.mp ((hused _).mpr rfl)).1
  have hforty : (request 40).toNat = 40 := by decide
  obtain ⟨hnull, hgranted⟩ := realloc_ex_keeps hheap hmem (by decide : (40 : UInt32) ≠ 0) (by decide)
  obtain ⟨hrefused, hlarge⟩ := realloc_ex_keeps hheap hmem (by decide : (0x20000 : UInt32) ≠ 0) (by decide)
  have hstuck : ¬ Stuck blocks 0x100C80 z (request 40).toNat := fun h => by
    have hlt := h.1
    omega
  obtain ⟨a, z', blocks', hresult, hmoved, -, -, -, hkept, -⟩ := hgranted fun h => hstuck (hnull h).2.1
  cases hmoved.resolve_right hstuck
  have hrefusal : (realloc_ex (malloc_ex (new_pool cleared 0x100000 0x10000).mem 100 (UInt32.ofNat 0x100000)).2
      (UInt32.ofNat (0x100C80 + 8)) 0x20000 (UInt32.ofNat 0x100000)).1 = NULL := by
    refine Decidable.byContradiction fun h => ?_
    -- no block is as long as the pool
    obtain ⟨a₂, z₂, blocks₂, -, -, hz₂, hheap₂, hused₂, -⟩ := hlarge h
    have hroom := hheap₂.bounds (mem_used.mp ((hused₂ _).mpr (Or.inl rfl))).1
    have hend : pool_end 0x100000 0x10000 = 0x110000 - 8 := by decide
    have hrequest : (request 0x20000).toNat = 0x20000 := by decide
    simp only [Block.stop] at hroom
    omega
  exact ⟨_, z, blocks, _, hmem, hheap, hresult, fun i hi => hkept i (Nat.lt_min.mpr ⟨by omega, hi⟩), hrefusal, (hrefused hrefusal).1⟩

end Realloc

end epos.tlsf
