import Epos.Heap.Malloc

open bytes tiles

namespace epos.tlsf

section Words

variable {mem mem' : ByteMem} {t fin : Nat} {blocks : List Block}

/-- What is written to bytes that the allocator leaves alone does not matter to it, and neither
do the first two words of the `tlsf_t`. -/
theorem Heap.congr (hheap : Heap mem t fin blocks)
    (htouches : Touches (fun y => Guarded t fin blocks y ∨ Range t 8 y) mem mem') : Heap mem' t fin blocks := by
  have hH := hheap.headers
  have hlo := hheap.lo_le
  have hheader : ∀ x, HeadersOf (blocks ++ [sentinel fin]) x → ∀ k : Field, k.offset < 8 →
      get mem' (.of x k) = get mem (.of x k) := by
    intro x hx k hk
    have hoff : k.offset + 4 ≤ 8 := by cases k <;> first | decide | exact absurd hk (by decide)
    have hinside := hH.inside x hx
    have habove := hH.above x hx
    refine htouches.word_eq (by simp only [Slot.addr]; omega) fun y hlow hhigh hy => ?_
    simp only [Slot.addr, Range] at hlow hhigh hy
    exact hheap.not_guarded_header hx ⟨by omega, by omega⟩ (hy.resolve_right (by omega))
  obtain ⟨bins, hlists, hbinned⟩ := hheap.lists
  have hlinks : ∀ c < 768, ∀ x ∈ bins c, ∀ k : Field, get mem' (.of x k) = get mem (.of x k) := by
    intro c hc x hx k
    have hnode := hlists.node c hc x hx
    obtain ⟨b, hb, hfree, rfl⟩ := hbinned.of_mem ⟨c, hc, hx⟩
    have hroom := hheap.bounds hb
    have hoff := k.offset_le
    refine htouches.word_eq ((hnode.valid t k).fits hH) fun y hlow hhigh hy => ?_
    simp only [Slot.addr, Range] at hlow hhigh hy
    exact hheap.not_guarded_free hb hfree ⟨by omega, by omega⟩ (hy.resolve_right (by omega))
  have hctl : ∀ s, s.Valid t (HeadersOf (blocks ++ [sentinel fin])) → (∀ x k, s ≠ .of x k) → get mem' s = get mem s := by
    intro s hs hout
    have hbelow := hs.below hout
    refine htouches.word_eq (hs.fits hH) fun y hlow hhigh => ?_
    rintro ((h | h | ⟨b, hb, -, h, -⟩) | h)
    · omega
    · omega
    · have := hheap.bounds hb
      omega
    · have := h.2
      omega
  refine ⟨⟨hheap.toShape, bins, hlists.congr hctl (fun c hc x hx => ⟨hlinks c hc x hx .next, hlinks c hc x hx .prev⟩)
    hlists.node, hbinned⟩, hheap.tagged.congr ?_ ?_, hheap.settled⟩
  · exact fun b hb => hheader b.addr ⟨b, hb, rfl⟩ .size (by decide)
  · exact fun b hb => hheader b.addr ⟨b, hb, rfl⟩ .prev_hdr (by decide)

end Words

section Used

variable {mem : ByteMem} {t fin y : Nat} {b : Block} {before after blocks : List Block}

theorem mem_used : b ∈ used blocks ↔ b ∈ blocks ∧ b.free = false := by
  rw [used, List.mem_filter, Bool.not_eq_true']

/-- The bytes that are guarded, by the blocks in use. -/
theorem guarded_iff : Guarded t fin blocks y ↔ y < t ∨ fin + 8 ≤ y ∨ ∃ b ∈ used blocks, b.addr + 8 ≤ y ∧ y < b.stop := by
  simp only [Guarded, mem_used, and_assoc]

theorem exists_split (hb : b ∈ blocks) : ∃ before after, blocks = before ++ [b] ++ after := by
  obtain ⟨before, after, rfl⟩ := List.append_of_mem hb
  exact ⟨before, after, by simp⟩

theorem Shape.apart {b' : Block} (h : Shape t fin blocks) (hb : b ∈ blocks) (hb' : b' ∈ blocks) (hne : b.addr ≠ b'.addr) :
    b.stop ≤ b'.addr ∨ b'.stop ≤ b.addr := by
  rcases Nat.lt_or_gt_of_ne hne with hlt | hgt
  · exact Or.inl (h.tiles.apart hb hb' hlt)
  · exact Or.inr (h.tiles.apart hb' hb hgt)

/-- The pointer to a block is none to nothing. -/
theorem Shape.buffer_ne_null {b : Block} (h : Shape t fin blocks) (hb : b ∈ blocks) : UInt32.ofNat (b.addr + 8) ≠ NULL := by
  have hroom := h.bounds hb
  have hbound := h.bound
  exact (ofNat_ne_zero_iff (by omega)).mpr (by omega)

theorem Shape.aligned (h : Shape t fin blocks) (hb : b ∈ blocks) : b.addr % 8 = t % 8 := by
  have hmod := h.tiles.mod (m := 8) (fun c hc => by
    have hsize := (h.sizes c hc).2
    unfold Block.stop
    omega) hb
  omega

/-- The blocks in use beside one of them. -/
theorem Shape.mem_used_other {a s : Nat} (h : Shape t fin (before ++ [⟨a, s, false⟩] ++ after)) :
    b ∈ used before ++ used after ↔ b ∈ used (before ++ [⟨a, s, false⟩] ++ after) ∧ b.addr ≠ a := by
  have hmem : (⟨a, s, false⟩ : Block) ∈ before ++ [⟨a, s, false⟩] ++ after := by simp
  have haround := h.tiles
  rw [List.append_assoc] at haround
  obtain ⟨hbefore, hafter⟩ := haround.around
  simp only [used_append, List.mem_append, mem_used, List.mem_singleton]
  constructor
  · rintro (⟨hb, hfree⟩ | ⟨hb, hfree⟩)
    · have hroom := h.bounds (b := b) (by simp [hb])
      have hle := hbefore b hb
      exact ⟨Or.inl (Or.inl ⟨hb, hfree⟩), by simp only at hle; omega⟩
    · have hle := hafter b hb
      exact ⟨Or.inr ⟨hb, hfree⟩, by simp only [Block.stop] at hle; omega⟩
  · rintro ⟨(⟨hb, hfree⟩ | ⟨rfl, -⟩) | ⟨hb, hfree⟩, hne⟩
    · exact Or.inl ⟨hb, hfree⟩
    · exact absurd rfl hne
    · exact Or.inr ⟨hb, hfree⟩

/-- A block right behind a free one is in use. -/
theorem Heap.behind_free {c d : Block} (hheap : Heap mem t fin blocks) (hc : c ∈ blocks) (hd : d ∈ blocks) (hfree : c.free = true)
    (hadjacent : d.addr = c.stop) : d.free = false := by
  have hroom := hheap.bounds hd
  obtain ⟨before, after, rfl⟩ := exists_split hc
  have hsettled := hheap.settled
  have htiles := hheap.tiles
  rw [List.append_assoc] at hsettled htiles
  obtain ⟨mid, -, -, -, hafter⟩ := tiles_append.mp htiles
  have hnext := (settled_append.mp hsettled).2.2
  cases after with
  | nil =>
    have hend : c.stop = fin := hafter
    omega
  | cons e after =>
    obtain rfl := hheap.tiles.unique (a := e) (by simp) hd (hafter.1.trans hadjacent.symm)
    exact (Bool.not_eq_true _).mp fun hd' => hnext.1 ⟨hfree, hd'⟩

/-- Bytes that no block in use has are all in one free block. -/
theorem Heap.gap {l r : Nat} (hheap : Heap mem t fin blocks) (hlo : t + 3200 ≤ l) (hlt : l < r) (hhi : r ≤ fin)
    (hgap : ∀ b ∈ used blocks, b.stop ≤ l ∨ r ≤ b.addr) : ∃ c ∈ blocks, c.free = true ∧ c.addr ≤ l ∧ r ≤ c.stop := by
  have hfree : ∀ c ∈ blocks, c.addr < r → l < c.stop → c.free = true := fun c hc hclo hchi =>
    (Bool.not_eq_false _).mp fun hused => by
      have hout := hgap c (mem_used.mpr ⟨hc, hused⟩)
      omega
  obtain ⟨c, hc, hclo, hchi⟩ := hheap.tiles.cover hlo (Nat.lt_of_lt_of_le hlt hhi)
  have hcfree := hfree c hc (by omega) hchi
  refine ⟨c, hc, hcfree, hclo, Nat.le_of_not_lt fun hshort => ?_⟩
  obtain ⟨d, hd, hdlo, hdhi⟩ := hheap.tiles.cover (x := c.stop) (by omega) (by omega)
  have hadjacent : d.addr = c.stop := by
    have hroom := hheap.bounds hc
    have hne : c.addr ≠ d.addr := fun heq => by
      obtain rfl := hheap.tiles.unique hc hd heq
      omega
    have := hheap.apart hc hd hne
    omega
  have hdused := hheap.behind_free hc hd hcfree hadjacent
  rw [hfree d hd (by omega) (by omega)] at hdused
  cases hdused

/-- Without blocks in use there is one block, which has all the bytes of the area. -/
theorem Heap.all_free (hheap : Heap mem t fin blocks) (hnone : used blocks = []) (hne : t + 3200 < fin) :
    blocks = [⟨t + 3200, fin - (t + 3208), true⟩] := by
  have hfree : ∀ b ∈ blocks, b.free = true := by
    intro b hb
    refine (Bool.not_eq_false _).mp fun hused => ?_
    have hmem := mem_used.mpr ⟨hb, hused⟩
    rw [hnone] at hmem
    cases hmem
  have htiles := hheap.tiles
  have hsettled := hheap.settled
  match blocks with
  | [] =>
    have heq : t + 3200 = fin := htiles
    omega
  | [⟨a, s, f⟩] =>
    obtain ⟨haddr, -, hstop⟩ := htiles
    obtain rfl : f = true := hfree ⟨a, s, f⟩ List.mem_cons_self
    simp only [Tiles, Block.stop] at haddr hstop
    have hs : s = fin - (t + 3208) := by omega
    rw [haddr, hs]
  | b :: c :: _ => exact absurd ⟨hfree b (by simp), hfree c (by simp)⟩ hsettled.2.1

end Used

section Calls

variable {mem : ByteMem} {t fin a s : Nat} {size : UInt32} {blocks : List Block}

/-- A block that is granted is new, and those in use stay as they are. -/
theorem malloc_used (hheap : Heap mem t fin blocks) (hrequest : size.toNat ≤ 0xFC000000) :
    ((malloc_ex mem size (UInt32.ofNat t)).1 = NULL ∧ (malloc_ex mem size (UInt32.ofNat t)).2 = mem ∧
        ∀ b ∈ blocks, b.free = true → b.size < fit (request size).toNat) ∨
      ∃ a s' blocks', (malloc_ex mem size (UInt32.ofNat t)).1 = UInt32.ofNat (a + 8) ∧ (request size).toNat ≤ s' ∧
        Heap (malloc_ex mem size (UInt32.ofNat t)).2 t fin blocks' ∧
        (∀ b, b ∈ used blocks' ↔ b = ⟨a, s', false⟩ ∨ b ∈ used blocks) ∧ (∀ b ∈ used blocks, b.addr ≠ a) ∧
        ∀ y < 2 ^ 32, Guarded t fin blocks y → byte (malloc_ex mem size (UInt32.ofNat t)).2 y = byte mem y := by
  obtain hrefused | ⟨before, a, s, s', after, rfl, hresult, hgranted⟩ := malloc_ex_spec hheap hrequest
  · exact Or.inl hrefused
  · right
    obtain ⟨⟨hfits, -, -⟩, -, ⟨blocks', hheap', hused⟩, hsame⟩ := hgranted
    refine ⟨a, s', blocks', hresult, Nat.le_trans (le_fit _) hfits, hheap', fun b => ?_, fun b hb haddr => ?_, hsame⟩
    · have hfree : used [⟨a, s, true⟩] = [] := rfl
      rw [hused, used_append, used_append, hfree, List.append_nil, List.mem_append, List.mem_cons, List.mem_append]
      exact or_left_comm
    · obtain ⟨hb, hfree⟩ := mem_used.mp hb
      rw [hheap.tiles.unique hb (b := ⟨a, s, true⟩) (by simp) haddr] at hfree
      cases hfree

/-- The result of `calloc_ex` is that of `malloc_ex`. -/
theorem calloc_ex_result {nelem elem_size : UInt32} (mem : ByteMem) (tlsf : UInt32) (hnelem : nelem ≠ 0) (helem : elem_size ≠ 0) :
    (calloc_ex mem nelem elem_size tlsf).1 = (malloc_ex mem (nelem * elem_size) tlsf).1 := by
  unfold calloc_ex
  rw [if_neg (by simp [hnelem, helem])]
  simp only
  split
  · next hnull => exact hnull.symm
  · rfl

/-- A block that is granted with its bytes cleared. -/
theorem calloc_used {nelem elem_size : UInt32} (hheap : Heap mem t fin blocks)
    (hrequest : (nelem * elem_size).toNat ≤ 0xFC000000) :
    ((calloc_ex mem nelem elem_size (UInt32.ofNat t)).1 = NULL ∧ (calloc_ex mem nelem elem_size (UInt32.ofNat t)).2 = mem) ∨
      ∃ a s' blocks', (calloc_ex mem nelem elem_size (UInt32.ofNat t)).1 = UInt32.ofNat (a + 8) ∧
        (request (nelem * elem_size)).toNat ≤ s' ∧ Heap (calloc_ex mem nelem elem_size (UInt32.ofNat t)).2 t fin blocks' ∧
        (∀ b, b ∈ used blocks' ↔ b = ⟨a, s', false⟩ ∨ b ∈ used blocks) ∧ (∀ b ∈ used blocks, b.addr ≠ a) ∧
        (∀ i < (nelem * elem_size).toNat, byte (calloc_ex mem nelem elem_size (UInt32.ofNat t)).2 (a + 8 + i) = 0) ∧
        ∀ y < 2 ^ 32, Guarded t fin blocks y → byte (calloc_ex mem nelem elem_size (UInt32.ofNat t)).2 y = byte mem y := by
  unfold calloc_ex
  split
  · exact Or.inl ⟨rfl, rfl⟩
  simp only
  obtain ⟨hnull, hsame, -⟩ | ⟨a, z, blocks', hresult, hz, hheap', hused, hfresh, hsame⟩ := malloc_used hheap hrequest
  · rw [if_pos hnull]
    exact Or.inl ⟨rfl, hsame⟩
  · right
    have hle := (request_bounds hrequest).1
    have hmem : (⟨a, z, false⟩ : Block) ∈ blocks' := (mem_used.mp ((hused _).mpr (Or.inl rfl))).1
    have hroom := hheap'.bounds hmem
    have hbound := hheap'.bound
    simp only [Block.stop] at hroom
    have hne : UInt32.ofNat (a + 8) ≠ NULL := (ofNat_ne_zero_iff (by omega)).mpr (by omega)
    rw [hresult, if_neg hne, memory.memset_eq]
    generalize (malloc_ex mem (nelem * elem_size) (UInt32.ofNat t)).2 = m at hheap' hsame ⊢
    generalize (nelem * elem_size).toNat = n at hle ⊢
    -- the bytes that are cleared are those of the new block
    have hfilled : Touches (Range (a + 8) n) m (filled m (UInt32.ofNat (a + 8)) n (0 : Int32).toUInt32.toUInt8) :=
      touches_written (by omega)
    have hheap2 := hheap'.congr (hfilled.mono fun y hy => Or.inl (Or.inr (Or.inr ⟨_, hmem, rfl, hy.1, by
      have := hy.2
      simp only [Block.stop]
      omega⟩)))
    refine ⟨a, z, blocks', rfl, hz, hheap2, hused, hfresh, fun i hi => byte_written (f := fun _ => 0) hi (by omega),
      fun y hy hguard => ?_⟩
    rw [hfilled y hy fun hin => ?_, hsame y hy hguard]
    simp only [Range] at hin
    obtain h | h | ⟨b, hb, h⟩ := guarded_iff.mp hguard
    · omega
    · omega
    · have hapart := hheap'.apart (mem_used.mp ((hused b).mpr (Or.inr hb))).1 hmem (hfresh b hb)
      simp only [Block.stop] at hapart h
      omega

/-- A block that is freed is no more in use, and the others stay as they are. -/
theorem free_used (hheap : Heap mem t fin blocks) (hb : ⟨a, s, false⟩ ∈ blocks) :
    ∃ blocks', Heap (free_ex mem (UInt32.ofNat (a + 8)) (UInt32.ofNat t)) t fin blocks' ∧
      (∀ b, b ∈ used blocks' ↔ b ∈ used blocks ∧ b.addr ≠ a) ∧
      ∀ y < 2 ^ 32, Guarded t fin blocks y → ¬ Range (a + 8) s y →
        byte (free_ex mem (UInt32.ofNat (a + 8)) (UInt32.ofNat t)) y = byte mem y := by
  obtain ⟨before, after, rfl⟩ := exists_split hb
  obtain ⟨hopen, hword⟩ := hheap.opened (K := fun y => Guarded t fin (before ++ [⟨a, s, false⟩] ++ after) y ∧ ¬ Range (a + 8) s y)
    fun _ h => h.1
  obtain ⟨blocks', hheap', hused, hsame⟩ := free_ex_spec hopen hword fun _ h => h.2
  refine ⟨blocks', hheap', fun b => ?_, fun y hy hguard hout => hsame y hy ⟨hguard, hout⟩⟩
  rw [hused]
  exact hheap.mem_used_other

end Calls

end epos.tlsf
