import Epos.Heap.Split

open bytes tiles

namespace epos.tlsf

section Requests

variable {size : UInt32}

/-- A request is rounded up to a multiple of 8, which wraps if it is too large. -/
theorem request_toNat (size : UInt32) :
    (request size).toNat = if size.toNat < 8 then 8 else (size.toNat + 7) % 2 ^ 32 / 8 * 8 := by
  have hmin : MIN_BLOCK_SIZE.toNat = 8 := rfl
  have hmask : (~~~MEM_ALIGN).toNat = 2 ^ 32 - 2 ^ 3 := rfl
  have hseven : MEM_ALIGN.toNat = 7 := rfl
  have height : 2 ^ 3 = 8 := rfl
  unfold request
  simp only [UInt32.lt_iff_toNat_lt, hmin]
  split
  · rfl
  · rw [ROUNDUP_SIZE, UInt32.toNat_and, hmask, and_high_bits (UInt32.toNat_lt _) (by decide), UInt32.toNat_add, hseven, height]

theorem request_bounds (hsize : size.toNat ≤ 0xFC000000) :
    size.toNat ≤ (request size).toNat ∧ 8 ≤ (request size).toNat ∧ (request size).toNat % 8 = 0 ∧
      (request size).toNat ≤ 0xFC000000 := by
  rw [request_toNat]
  split
  · omega
  · omega

end Requests

section Search

variable {mem : ByteMem} {t fin n : Nat} {blocks : List Block} {bins : Nat → List Nat}

/-- No block is so small that it is in one of the first two lists. -/
theorem Stock.first_bins (h : Stock mem t fin blocks) (hbinned : Binned bins blocks) : bins 0 = [] ∧ bins 1 = [] := by
  have hempty : ∀ c < 2, bins c = [] := by
    intro c hc
    refine List.eq_nil_iff_forall_not_mem.mpr fun x hx => ?_
    obtain ⟨b, hb, -, -, hclass⟩ := (hbinned c (by omega) x).mp hx
    have htwo : class_of 8 = 2 := rfl
    have hmono := class_of_mono (h.sizes b hb).1
    omega
  exact ⟨hempty 0 (by decide), hempty 1 (by decide)⟩

theorem class_lt_of_lt (hn : n < 2 ^ 32) : class_of n < 832 := by
  have hlower : lower 832 = 2 ^ 32 := rfl
  have hiff := le_class_of_iff (c := 832) (n := n)
  omega

/-- A search from the list of `n` bytes on finds a free block that is the first one of its list, and no list
before has one that would do, or there is none. -/
theorem Stock.search (h : Stock mem t fin blocks) (hn : n < 2 ^ 32) (hexact : ∀ m, class_of n ≤ class_of m ↔ n ≤ m) :
    (∃ a s, ⟨a, s, true⟩ ∈ blocks ∧ n ≤ s ∧ (∀ b ∈ blocks, b.free = true → n ≤ b.size → class_of s ≤ class_of b.size) ∧
        get mem (.head t (class_of s)) = a ∧
        FIND_SUITABLE_BLOCK mem (UInt32.ofNat t) (UInt32.ofNat (class_of n / 32)) (UInt32.ofNat (class_of n % 32)) =
          (UInt32.ofNat a, UInt32.ofNat (class_of s / 32), UInt32.ofNat (class_of s % 32))) ∨
      (∀ b ∈ blocks, b.free = true → b.size < n) ∧
        (FIND_SUITABLE_BLOCK mem (UInt32.ofNat t) (UInt32.ofNat (class_of n / 32)) (UInt32.ofNat (class_of n % 32))).1 = NULL := by
  obtain ⟨bins, hlists, hbinned⟩ := h.lists
  obtain ⟨hfirst, hsecond⟩ := h.first_bins hbinned
  obtain ⟨c, hle, hc, hne, hbefore, hfind⟩ | ⟨hnone, hfind⟩ := FIND_SUITABLE_BLOCK_eq hlists (class_lt_of_lt hn) hfirst hsecond
  · left
    have hhead := (hlists.lists c hc).chain.head
    cases hbin : bins c with
    | nil => exact absurd hbin hne
    | cons x rest =>
      rw [hbin] at hhead
      obtain ⟨⟨a, s, f⟩, hb, hfree, rfl, rfl⟩ := (hbinned c hc x).mp (hbin ▸ List.mem_cons_self)
      obtain rfl : f = true := hfree
      refine ⟨a, s, hb, (hexact s).mp hle, fun b' hb' hfree' hns => Nat.le_of_not_lt fun hlt => ?_, hhead, ?_⟩
      · have hin := (hbinned _ (h.class_lt hb') b'.addr).mpr ⟨b', hb', hfree', rfl, rfl⟩
        rw [hbefore _ ((hexact b'.size).mpr hns) hlt] at hin
        cases hin
      · rw [hfind, hhead]
        rfl
  · right
    refine ⟨fun b hb hfree => Nat.lt_of_not_le fun hle => ?_, hfind⟩
    have hin := (hbinned _ (h.class_lt hb) b.addr).mpr ⟨b, hb, hfree, rfl, rfl⟩
    rw [hnone _ ((hexact b.size).mpr hle) (h.class_lt hb)] at hin
    cases hin

end Search

section Malloc

variable {mem : ByteMem} {t fin a s n : Nat} {size : UInt32} {before after blocks : List Block}

/-- The block that is found is taken out of its list. -/
theorem Heap.extracted (hheap : Heap mem t fin (before ++ [⟨a, s, true⟩] ++ after)) (hhead : get mem (.head t (class_of s)) = a) :
    Open mem (Guarded t fin (before ++ [⟨a, s, true⟩] ++ after))
        (EXTRACT_BLOCK_HDR mem (UInt32.ofNat a) (UInt32.ofNat t) (UInt32.ofNat (class_of s / 32)) (UInt32.ofNat (class_of s % 32)))
        t fin before [⟨a, s, false⟩] true after ∧
      get (EXTRACT_BLOCK_HDR mem (UInt32.ofNat a) (UInt32.ofNat t) (UInt32.ofNat (class_of s / 32)) (UInt32.ofNat (class_of s % 32)))
        (.of a .size) = tag s true (before.getLastD (first t)).free ∧
      (behind fin after).free = false ∧ ∀ y, Guarded t fin (before ++ [⟨a, s, true⟩] ++ after) y → ¬ Range (a + 8) s y := by
  obtain ⟨bins, hlists, -⟩ := hheap.lists
  have hmem : (⟨a, s, true⟩ : Block) ∈ before ++ [⟨a, s, true⟩] ++ after := by simp
  have hne : a ≠ 0 := (hheap.node hmem).ne_zero hheap.headers
  have hsettled := hheap.settled
  rw [List.append_assoc, settled_append] at hsettled
  obtain ⟨hopen, hword⟩ := hheap.opened fun _ h => h
  obtain ⟨hextract, hheaders⟩ := Open.extract (l := []) (r := []) hopen
  rw [EXTRACT_BLOCK_HDR_eq hlists hheap.headers (hheap.class_lt hmem) hhead hne]
  refine ⟨hextract, (hheaders a ⟨⟨a, s, true⟩, by simp, rfl⟩ .size (by decide)).trans hword,
    Settled.behind_used hsettled.2.2, fun y hy hin => ?_⟩
  refine hheap.not_guarded_free hmem rfl ?_ hy
  simp only [Range, Block.stop] at hin ⊢
  omega

/-- The free block at `a` has been taken for `n` bytes, of which it keeps `s'`. -/
structure Granted (mem mem' : ByteMem) (t fin : Nat) (before : List Block) (a s s' n : Nat) (after : List Block) :
    Prop where
  fits : n ≤ s' ∧ s' ≤ s ∧ s' < n + 16
  best : ∀ b ∈ before ++ [⟨a, s, true⟩] ++ after, b.free = true → n ≤ b.size → class_of s ≤ class_of b.size
  heap : ∃ blocks', Heap mem' t fin blocks' ∧ used blocks' = used before ++ ⟨a, s', false⟩ :: used after
  same : ∀ y < 2 ^ 32, Guarded t fin (before ++ [⟨a, s, true⟩] ++ after) y → byte mem' y = byte mem y

/-- What is too little for a block of its own stays with the block. -/
theorem found_whole {start : ByteMem} {K : Nat → Prop} (hopen : Open start K mem t fin before [⟨a, s, false⟩] true after)
    (hsize : get mem (.of a .size) = tag s true (before.getLastD (first t)).free) (hns : n ≤ s) (hfew : s < n + 16) :
    Heap (found mem (UInt32.ofNat a) (UInt32.ofNat n) (UInt32.ofNat t)) t fin (before ++ [⟨a, s, false⟩] ++ after) ∧
      ∀ y < 2 ^ 32, K y → byte (found mem (UInt32.ofNat a) (UInt32.ofNat n) (UInt32.ofNat t)) y = byte start y := by
  have hs := hopen.size_lt (b := ⟨a, s, false⟩) (by simp)
  simp only at hs
  have hbsize := hopen.behind_size
  have hbehind := hopen.behind_addr
  have hbword := hopen.behind_word
  have htmp : ¬ UInt32.ofNat s - UInt32.ofNat n ≥ sizeof_bhdr_t := by
    have hsizeof : sizeof_bhdr_t.toNat = 16 := rfl
    rw [ge_iff_le, UInt32.le_iff_toNat_le, UInt32.toNat_sub, UInt32.toNat_ofNat', UInt32.toNat_ofNat', hsizeof]
    omega
  have h1 := hopen.put_behind_size (by simp) false
  have hsize1 := (hopen.get_put_behind (k := .size) (b := ⟨a, s, false⟩) (by simp) (by decide) (by decide)
    (tag (behind fin after).size (behind fin after).free false)).trans hsize
  obtain ⟨h2, hsize2⟩ := h1.put_tag false
  have hcode : found mem (UInt32.ofNat a) (UInt32.ofNat n) (UInt32.ofNat t) =
      put (put mem (.of (behind fin after).addr .size) (tag (behind fin after).size (behind fin after).free false))
        (.of a .size) (tag s false (before.getLastD (first t)).free) := by
    unfold found
    simp only [block_size_eq, hsize, and_BLOCK_SIZE hs.1 hs.2, if_neg htmp, buffer_eq, GET_NEXT_BLOCK_eq, ← hbehind, hbword,
      and_not_PREV_FREE hbsize.1 hbsize.2, set_size_eq, hsize1, and_not_FREE_BLOCK hs.1 hs.2]
  rw [hcode]
  exact ⟨Open.closed h2 hsize2 (fun h => nomatch h) (fun h => nomatch h) (fun h => nomatch h), h2.same⟩

theorem found_split {start : ByteMem} {K : Nat → Prop} {r : Nat}
    (hopen : Open start K mem t fin before [⟨a, n + 8 + r, false⟩] true after)
    (hsize : get mem (.of a .size) = tag (n + 8 + r) true (before.getLastD (first t)).free)
    (hn : 8 ≤ n) (hmod : n % 8 = 0) (hr : 8 ≤ r) (hmod' : r % 8 = 0) (hafter : (behind fin after).free = false)
    (hK : ∀ y, K y → ¬ Range (a + 8 + n) (8 + r) y) :
    Heap (found mem (UInt32.ofNat a) (UInt32.ofNat n) (UInt32.ofNat t)) t fin
        (before ++ [⟨a, n, false⟩] ++ [⟨a + 8 + n, r, true⟩] ++ after) ∧
      ∀ y < 2 ^ 32, K y → byte (found mem (UInt32.ofNat a) (UInt32.ofNat n) (UInt32.ofNat t)) y = byte start y := by
  have hs := hopen.size_lt (b := ⟨a, n + 8 + r, false⟩) (by simp)
  simp only at hs
  have hbehind := hopen.behind_addr
  obtain ⟨hlarge, hrest⟩ := rest_size hr (by omega)
  have htmp : UInt32.ofNat (n + 8 + r) - UInt32.ofNat n = UInt32.ofNat (8 + r) := by
    rw [Nat.add_assoc, UInt32.ofNat_add n, UInt32.add_comm, UInt32.add_sub_cancel]
  obtain ⟨hbword, hheaded⟩ := hopen.headed hsize hn hmod hr hmod' hK
  -- the block behind has the free state already
  rw [← hbword, put_get] at hheaded
  obtain ⟨hsize', hheap, hsame⟩ := hheaded.listed hafter hK
  have hcode : found mem (UInt32.ofNat a) (UInt32.ofNat n) (UInt32.ofNat t) =
      put (insert (put (put mem (.of (a + 8 + n) .size) (tag r true false)) (.of (behind fin after).addr .prev_hdr) (a + 8 + n))
        (UInt32.ofNat (a + 8 + n)) (UInt32.ofNat r) (UInt32.ofNat t)) (.of a .size) (tag n false (before.getLastD (first t)).free) := by
    unfold found
    simp only [block_size_eq, hsize, and_BLOCK_SIZE hs.1 hs.2, htmp, if_pos hlarge, hrest, buffer_eq, GET_NEXT_BLOCK_eq,
      free_word hmod' (by omega), set_size_eq, ← hbehind, set_prev_hdr_eq, hsize', or_PREV_STATE hmod (by omega) hs.1 hs.2]
  rw [hcode]
  exact ⟨hheap, hsame⟩

/-- A request is refused when no block is large enough for what it is rounded up to; nothing is
written then. -/
theorem malloc_ex_spec (hheap : Heap mem t fin blocks) (hrequest : size.toNat ≤ 0xFC000000) :
    ((malloc_ex mem size (UInt32.ofNat t)).1 = NULL ∧ (malloc_ex mem size (UInt32.ofNat t)).2 = mem ∧
        ∀ b ∈ blocks, b.free = true → b.size < fit (request size).toNat) ∨
      ∃ before a s s' after, blocks = before ++ [⟨a, s, true⟩] ++ after ∧
        (malloc_ex mem size (UInt32.ofNat t)).1 = UInt32.ofNat (a + 8) ∧
        Granted mem (malloc_ex mem size (UInt32.ofNat t)).2 t fin before a s s' (fit (request size).toNat) after := by
  obtain ⟨-, hmin, hmod, hmax⟩ := request_bounds hrequest
  have hle := le_fit (request size).toNat
  have hlt := fit_lt hmax
  have hfmod := fit_mod hmod
  have hexact := class_of_fit_le_iff (n := (request size).toNat) (by omega)
  unfold malloc_ex
  rw [MAPPING_SEARCH_eq hmax]
  generalize fit (request size).toNat = n at hle hlt hfmod hexact ⊢
  simp only
  obtain ⟨a, s, hmem, hns, hbest, hhead, hfind⟩ | ⟨hnone, hfind⟩ := hheap.search hlt hexact
  · right
    obtain ⟨before, after, rfl⟩ := List.append_of_mem hmem
    have hsplit : before ++ ⟨a, s, true⟩ :: after = before ++ [⟨a, s, true⟩] ++ after := by simp
    rw [hsplit] at hheap hbest ⊢
    have hnode := hheap.node (b := ⟨a, s, true⟩) (by simp)
    have hsize := hheap.size_lt (b := ⟨a, s, true⟩) (by simp)
    simp only at hsize
    have hne : UInt32.ofNat a ≠ NULL := (ofNat_ne_zero_iff (Nat.lt_of_lt_of_le (Nat.lt_add_of_pos_right (by decide)) hnode.2)).mpr
      (hnode.ne_zero hheap.headers)
    obtain ⟨hopen, hword, hafter, hK⟩ := hheap.extracted hhead
    simp only [hfind, if_neg hne, buffer_eq]
    by_cases hfew : s < n + 16
    · obtain ⟨hheap', hsame⟩ := found_whole hopen hword hns hfew
      refine ⟨before, a, s, s, after, rfl, rfl, ⟨hns, Nat.le_refl s, hfew⟩, hbest, ⟨_, hheap', ?_⟩, hsame⟩
      rw [used_append, used_append, List.append_assoc]
      rfl
    · obtain ⟨r, rfl⟩ : ∃ r, s = n + 8 + r := ⟨s - (n + 8), by omega⟩
      obtain ⟨hheap', hsame⟩ := found_split hopen hword (by omega) hfmod (by omega) (by omega) hafter fun y hy hin =>
        hK y hy ⟨by have := hin.1; omega, by have := hin.2; omega⟩
      refine ⟨before, a, n + 8 + r, n, after, rfl, rfl, ⟨Nat.le_refl n, by omega, by omega⟩, hbest, ⟨_, hheap', ?_⟩, hsame⟩
      simp only [used_append, List.append_assoc]
      rfl
  · left
    simp only [hfind, if_true]
    exact ⟨trivial, trivial, hnone⟩

/-- A pool of one free block has what is asked for if that is no longer than the block. -/
theorem malloc_ex_one_block (hheap : Heap mem t fin [⟨a, s, true⟩])
    (hsize : size.toNat ≤ 0xFC000000) :
    (malloc_ex mem size (UInt32.ofNat t)).1 =
      if fit (request size).toNat ≤ s then UInt32.ofNat (a + 8) else NULL := by
  obtain ⟨hnull, -, hnone⟩ | ⟨before, a', s', z', after, hblocks, hresult, hgranted⟩ := malloc_ex_spec hheap hsize
  · have hlt := hnone ⟨a, s, true⟩ List.mem_cons_self rfl
    rw [hnull, if_neg (Nat.not_le_of_lt hlt)]
  · have hmem : (⟨a', s', true⟩ : Block) ∈ [⟨a, s, true⟩] := hblocks ▸ by simp
    obtain ⟨rfl, rfl, -⟩ := Block.mk.inj (List.mem_singleton.mp hmem)
    obtain ⟨hle, hle', -⟩ := hgranted.fits
    rw [hresult, if_pos (Nat.le_trans hle hle')]

end Malloc

end epos.tlsf
