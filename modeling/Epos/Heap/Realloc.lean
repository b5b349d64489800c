import Epos.Heap.Users

open bytes tiles

namespace epos.tlsf

section InPlace

variable {start mem : ByteMem} {K : Nat → Prop} {t fin a s n : Nat} {f x : Bool} {before after : List Block}

/-- What is too little for a block of its own is not split. -/
theorem split_few (mem : ByteMem) (b next_b new_size tlsf : UInt32) {k : Nat} (hk : k < 16) :
    split mem b next_b new_size (UInt32.ofNat k) tlsf = mem := by
  have hsizeof : sizeof_bhdr_t.toNat = 16 := rfl
  have hfew : ¬ UInt32.ofNat k ≥ sizeof_bhdr_t := by
    rw [ge_iff_le, UInt32.le_iff_toNat_le, UInt32.toNat_ofNat', hsizeof]
    omega
  exact if_neg hfew

/-- A block in use keeps `n` of its bytes, or a few more. -/
structure Kept (start : ByteMem) (K : Nat → Prop) (mem : ByteMem) (t fin : Nat) (before : List Block) (a n : Nat)
    (after : List Block) : Prop where
  heap : ∃ s' blocks', n ≤ s' ∧ Heap mem t fin blocks' ∧ used blocks' = used before ++ ⟨a, s', false⟩ :: used after
  same : ∀ y < 2 ^ 32, K y → byte mem y = byte start y

/-- The bytes behind `n` are split off, if there are enough. -/
theorem Open.split_off {z : Nat} (hopen : Open start K mem t fin before [⟨a, s, false⟩] x after)
    (hsize : get mem (.of a .size) = tag z f (before.getLastD (first t)).free) (hz : z % 8 = 0) (hlt : z < 2 ^ 32)
    (hn : 8 ≤ n) (hmod : n % 8 = 0) (hns : n + 16 ≤ s) (hafter : (behind fin after).free = false)
    (hK : ∀ y, K y → ¬ Range (a + 8 + n) (s - n) y) :
    Kept start K (split mem (UInt32.ofNat a) (UInt32.ofNat (a + 8 + s)) (UInt32.ofNat n) (UInt32.ofNat (s - n)) (UInt32.ofNat t))
      t fin before a n after := by
  have hs := hopen.size_lt (b := ⟨a, s, false⟩) (by simp)
  simp only at hs
  obtain ⟨r, rfl⟩ : ∃ r, s = n + 8 + r := ⟨s - (n + 8), by omega⟩
  have hsub : n + 8 + r - n = 8 + r := by omega
  rw [hsub] at hK ⊢
  obtain ⟨hheap, hsame⟩ := split_spec hopen hsize hz hlt hn hmod (by omega) (by omega) hafter hK
  refine ⟨⟨n, _, Nat.le_refl n, hheap, ?_⟩, hsame⟩
  simp only [used_append, List.append_assoc]
  rfl

/-- A block in use that is left as it is. -/
theorem Open.whole (hopen : Open start K mem t fin before [⟨a, s, false⟩] false after)
    (hsize : get mem (.of a .size) = tag s false (before.getLastD (first t)).free) (hns : n ≤ s) :
    Kept start K mem t fin before a n after := by
  refine ⟨⟨s, _, hns, Open.closed hopen hsize (fun h => nomatch h) (fun h => nomatch h) (fun h => nomatch h), ?_⟩, hopen.same⟩
  simp only [used_append, List.append_assoc]
  rfl

/-- A free block behind is taken in, and what is too much is split off again. -/
theorem realloc_shrink_spec (hopen : Open start K mem t fin before [⟨a, s, false⟩] false after)
    (hsize : get mem (.of a .size) = tag s false (before.getLastD (first t)).free) (hn : 8 ≤ n) (hmod : n % 8 = 0) (hns : n ≤ s)
    (hK : ∀ y, K y → ¬ Range (a + 8 + n) (s - n) y) :
    Kept start K (realloc_shrink mem (UInt32.ofNat a) (UInt32.ofNat (a + 8 + s)) (UInt32.ofNat n) (UInt32.ofNat t))
      t fin before a n after := by
  have hs := hopen.size_lt (b := ⟨a, s, false⟩) (by simp)
  simp only at hs
  have hbehind := hopen.behind_size
  have hword := hopen.behind_word
  rw [hopen.behind_addr] at hword
  unfold realloc_shrink
  simp only [block_size_eq, hsize, and_BLOCK_SIZE hs.1 hs.2, hword, and_FREE_BLOCK hbehind.1 hbehind.2]
  split
  · next hfree =>
    cases after with
    | nil => cases hfree
    | cons b after =>
      obtain ⟨m, s', f⟩ := b
      obtain rfl : f = true := hfree
      obtain ⟨rfl, hnword, hmerged, hheaders, hin⟩ := hopen.absorb_next
      have hb := hopen.sizes ⟨a + 8 + s, s', true⟩ (by simp)
      have hblt := hopen.size_lt (b := ⟨a + 8 + s, s', true⟩) (by simp)
      simp only at hb hblt
      have haword := (hheaders a ⟨⟨a, s, false⟩, by simp, rfl⟩ .size (by decide)).trans hsize
      have hnword' := (hheaders (a + 8 + s) ⟨⟨a + 8 + s, s', true⟩, by simp, rfl⟩ .size (by decide)).trans hnword
      have htmp : UInt32.ofNat s + (UInt32.ofNat s' + BHDR_OVERHEAD) - UInt32.ofNat n = UInt32.ofNat (s + 8 + s' - n) := by
        rw [← sub_ofNat (by omega)]
        exact congrArg (· - UInt32.ofNat n) (size_add s s' false false)
      have hnext : a + 8 + s + 8 + s' = a + 8 + (s + 8 + s') := by omega
      simp only [hnword', and_BLOCK_SIZE hblt.1 hblt.2, buffer_eq, GET_NEXT_BLOCK_eq, htmp, hnext]
      have hkept := hmerged.split_off haword hs.1 hs.2 hn hmod (by omega) hopen.after_settled.2.behind_used fun y hy hy' => by
        have hold := hin y hy ⟨by have := hy'.1; omega, by have := hy'.2; omega⟩
        exact hK y hy ⟨hy'.1, by have := hold.2; omega⟩
      exact ⟨hkept.heap, hkept.same⟩
  · next hfree =>
    rw [sub_ofNat hns]
    by_cases hfew : s < n + 16
    · rw [split_few _ _ _ _ _ (by omega)]
      exact hopen.whole hsize hns
    · exact hopen.split_off hsize hs.1 hs.2 hn hmod (by omega) (by simpa using hfree) hK

/-- The free block behind is taken in to make room, and what is too much is split off again. -/
theorem realloc_grow_spec {s' : Nat} (hopen : Open start K mem t fin before [⟨a, s, false⟩] false (⟨a + 8 + s, s', true⟩ :: after))
    (hsize : get mem (.of a .size) = tag s false (before.getLastD (first t)).free) (hn : 8 ≤ n) (hmod : n % 8 = 0) (hsn : s < n)
    (hns : n ≤ s + s') :
    Kept start K (realloc_grow mem (UInt32.ofNat a) (UInt32.ofNat (a + 8 + s)) (UInt32.ofNat n) (UInt32.ofNat t))
      t fin before a n after := by
  obtain ⟨-, hnword, hmerged, hheaders, hin⟩ := hopen.absorb_next
  have hb := hopen.sizes ⟨a + 8 + s, s', true⟩ (by simp)
  have hblt := hopen.size_lt (b := ⟨a + 8 + s, s', true⟩) (by simp)
  simp only at hb hblt
  have hsum := hmerged.size_lt (b := ⟨a, s + 8 + s', false⟩) (by simp)
  simp only at hsum
  have haword := (hheaders a ⟨⟨a, s, false⟩, by simp, rfl⟩ .size (by decide)).trans hsize
  have hnword' := (hheaders (a + 8 + s) ⟨⟨a + 8 + s, s', true⟩, by simp, rfl⟩ .size (by decide)).trans hnword
  have hbsize := hmerged.behind_size
  have hbehind := hmerged.behind_addr
  have hfirst : (⟨a, s + 8 + s', false⟩ : Block) ∈ [⟨a, s + 8 + s', false⟩] := List.mem_cons_self
  -- the sizes of the block and of the one behind
  obtain ⟨h1, hsize1⟩ := hmerged.put_tag false
  have h2 := h1.put_behind_prev (by simp) a
  have hsize2 := (h1.get_put_behind (k := .prev_hdr) hfirst (by decide) (by decide) a).trans hsize1
  have hbword2 := h2.behind_word
  have h3 := h2.put_behind_size (by simp) false
  have hsize3 := (h2.get_put_behind (k := .size) hfirst (by decide) (by decide)
    (tag (behind fin after).size (behind fin after).free false)).trans hsize2
  have hcode : realloc_grow mem (UInt32.ofNat a) (UInt32.ofNat (a + 8 + s)) (UInt32.ofNat n) (UInt32.ofNat t) =
      split (put (put (put (extract mem (UInt32.ofNat (a + 8 + s)) (UInt32.ofNat t)) (.of a .size)
          (tag (s + 8 + s') false (before.getLastD (first t)).free)) (.of (behind fin after).addr .prev_hdr) a)
          (.of (behind fin after).addr .size) (tag (behind fin after).size (behind fin after).free false))
        (UInt32.ofNat a) (UInt32.ofNat (behind fin after).addr) (UInt32.ofNat n) (UInt32.ofNat (s + 8 + s' - n))
        (UInt32.ofNat t) := by
    unfold realloc_grow
    simp only [block_size_eq, haword, hnword', and_BLOCK_SIZE hblt.1 hblt.2, size_add, set_size_eq, hsize1,
      and_BLOCK_SIZE hsum.1 hsum.2, buffer_eq, GET_NEXT_BLOCK_eq, ← hbehind, set_prev_hdr_eq, hbword2,
      and_not_PREV_FREE hbsize.1 hbsize.2, hsize3]
    rw [sub_ofNat (by omega)]
  rw [hcode, hbehind]
  rw [hbehind] at h3 hsize3
  by_cases hfew : s + 8 + s' < n + 16
  · rw [split_few _ _ _ _ _ (by omega)]
    have hkept := h3.whole (n := n) hsize3 (by omega)
    exact ⟨hkept.heap, hkept.same⟩
  · have hkept := h3.split_off hsize3 hsum.1 hsum.2 hn hmod (by omega) hopen.after_settled.2.behind_used fun y hy hy' => by
      have hold := hin y hy ⟨by have := hy'.1; omega, by have := hy'.2; omega⟩
      have := hold.2
      have := hy'.1
      omega
    exact ⟨hkept.heap, hkept.same⟩

end InPlace

section Move

variable {mem : ByteMem} {t fin a s a' s' n : Nat} {size : UInt32} {blocks : List Block}

/-- Blocks in use do not overlap, whichever is first. -/
theorem Shape.ahead (h : Shape t fin blocks) (hb : ⟨a, s, false⟩ ∈ blocks) (hb' : ⟨a', s', false⟩ ∈ blocks) (hne : a ≠ a')
    (hs : n ≤ s) (hs' : n ≤ s') : Ahead (UInt32.ofNat (a' + 8)) (UInt32.ofNat (a + 8)) n := by
  have hroom := h.bounds hb
  have hroom' := h.bounds hb'
  have hbound := h.bound
  have hapart := h.apart hb hb' hne
  simp only [Block.stop] at hroom hroom' hapart
  apply Ahead.of_apart <;> rw [UInt32.toNat_sub, UInt32.toNat_ofNat', UInt32.toNat_ofNat'] <;> omega

theorem byte_copied {dst src i : Nat} (mem : ByteMem) (hi : i < n) (hdst : dst + n ≤ 2 ^ 32) :
    byte (copied mem (UInt32.ofNat dst) (UInt32.ofNat src) n) (dst + i) = byte mem (src + i) := by
  rw [byte, UInt32.ofNat_add, copied_inside hi (by omega), ← UInt32.ofNat_add]
  rfl

/-- A block moves to one that `malloc_ex` grants, with all its bytes. -/
theorem realloc_move_spec (hheap : Heap mem t fin blocks) (hb : ⟨a, s, false⟩ ∈ blocks) (hn : n ≤ 0xFC000000) (hsn : s < n) :
    ((realloc_move mem (UInt32.ofNat (a + 8)) (UInt32.ofNat a) (UInt32.ofNat n) (UInt32.ofNat t)).1 = NULL ∧
        (realloc_move mem (UInt32.ofNat (a + 8)) (UInt32.ofNat a) (UInt32.ofNat n) (UInt32.ofNat t)).2 = mem ∧
        ∀ b ∈ blocks, b.free = true → b.size < fit (request (UInt32.ofNat n)).toNat) ∨
      ∃ a' s' blocks', (realloc_move mem (UInt32.ofNat (a + 8)) (UInt32.ofNat a) (UInt32.ofNat n) (UInt32.ofNat t)).1 =
          UInt32.ofNat (a' + 8) ∧ n ≤ s' ∧
        Heap (realloc_move mem (UInt32.ofNat (a + 8)) (UInt32.ofNat a) (UInt32.ofNat n) (UInt32.ofNat t)).2 t fin blocks' ∧
        (∀ b, b ∈ used blocks' ↔ b = ⟨a', s', false⟩ ∨ b ∈ used blocks ∧ b.addr ≠ a) ∧
        (∀ b ∈ used blocks, b.addr ≠ a') ∧
        (∀ i < s, byte (realloc_move mem (UInt32.ofNat (a + 8)) (UInt32.ofNat a) (UInt32.ofNat n) (UInt32.ofNat t)).2 (a' + 8 + i) =
          byte mem (a + 8 + i)) ∧
        ∀ y < 2 ^ 32, Guarded t fin blocks y → ¬ Range (a + 8) s y →
          byte (realloc_move mem (UInt32.ofNat (a + 8)) (UInt32.ofNat a) (UInt32.ofNat n) (UInt32.ofNat t)).2 y = byte mem y := by
  have hnat : (UInt32.ofNat n).toNat = n := by
    rw [UInt32.toNat_ofNat']
    omega
  have hle : (UInt32.ofNat n).toNat ≤ 0xFC000000 := hnat.symm ▸ hn
  unfold realloc_move
  simp only
  obtain ⟨hnull, hsame, hnone⟩ | ⟨a', s', blocks', hresult, hns, hheap', hused, hnew, hsame⟩ :=
    malloc_used hheap hle
  · rw [if_pos hnull]
    exact Or.inl ⟨rfl, hsame, hnone⟩
  · right
    have hrequest := (request_bounds hle).1
    have hb1 : (⟨a, s, false⟩ : Block) ∈ blocks' := (mem_used.mp ((hused _).mpr (Or.inr (mem_used.mpr ⟨hb, rfl⟩)))).1
    have hb1' : (⟨a', s', false⟩ : Block) ∈ blocks' := (mem_used.mp ((hused _).mpr (Or.inl rfl))).1
    have hne : a ≠ a' := hnew ⟨a, s, false⟩ (mem_used.mpr ⟨hb, rfl⟩)
    have hroom := hheap'.bounds hb1
    have hroom' := hheap'.bounds hb1'
    have hbound := hheap'.bound
    have hs := hheap'.size_lt hb1
    have hapart := hheap'.apart hb1 hb1' hne
    simp only [Block.stop] at hroom hroom' hs hapart
    have hnonnull : UInt32.ofNat (a' + 8) ≠ NULL := (ofNat_ne_zero_iff (by omega)).mpr (by omega)
    rw [hresult, if_neg hnonnull]
    generalize (malloc_ex mem (UInt32.ofNat n) (UInt32.ofNat t)).2 = m1 at hheap' hsame ⊢
    -- the size is still in the header
    obtain ⟨before, after, hsplit⟩ := exists_split hb1
    obtain ⟨-, hword⟩ := (hsplit ▸ hheap').opened (K := fun _ => False) fun _ h => h.elim
    have hsnat : (UInt32.ofNat s).toNat = s := by rw [UInt32.toNat_ofNat', Nat.mod_eq_of_lt hs.2]
    have hless : ¬ UInt32.ofNat s > UInt32.ofNat n := by
      rw [gt_iff_lt, UInt32.lt_iff_toNat_lt, hnat, hsnat]
      omega
    have hahead := hheap'.ahead hb1 hb1' hne (Nat.le_refl s) (by omega)
    have hcopy : memory.memcpy m1 (UInt32.ofNat (a' + 8)) (UInt32.ofNat (a + 8)) (UInt32.ofNat s) =
        (UInt32.ofNat (a' + 8), copied m1 (UInt32.ofNat (a' + 8)) (UInt32.ofNat (a + 8)) s) := by
      rw [memory.memcpy_eq (hsnat.symm ▸ hahead), hsnat]
    simp only [block_size_eq, hword, and_BLOCK_SIZE hs.1 hs.2, if_neg hless, hcopy]
    have hcopied : Touches (Range (a' + 8) s) m1 (copied m1 (UInt32.ofNat (a' + 8)) (UInt32.ofNat (a + 8)) s) :=
      touches_written (by omega)
    have hheap2 := hheap'.congr (hcopied.mono fun y hy => Or.inl (Or.inr (Or.inr ⟨_, hb1', rfl, hy.1, by
      have := hy.2
      simp only [Block.stop]
      omega⟩)))
    obtain ⟨blocks2, hheap3, hused2, hsame2⟩ := free_used hheap2 hb1
    refine ⟨a', s', blocks2, rfl, by omega, hheap3, fun b => ?_, hnew, fun i hi => ?_, fun y hy hguard hout => ?_⟩
    · rw [hused2, hused]
      constructor
      · rintro ⟨rfl | hb, haddr⟩
        · exact Or.inl rfl
        · exact Or.inr ⟨hb, haddr⟩
      · rintro (rfl | ⟨hb, haddr⟩)
        · exact ⟨Or.inl rfl, fun h => hne h.symm⟩
        · exact ⟨Or.inr hb, haddr⟩
    · have hguard : Guarded t fin blocks' (a' + 8 + i) := Or.inr (Or.inr ⟨_, hb1', rfl, by simp only; omega, by simp only [Block.stop]; omega⟩)
      have hguard' : Guarded t fin blocks (a + 8 + i) := Or.inr (Or.inr ⟨_, hb, rfl, by simp only; omega, by simp only [Block.stop]; omega⟩)
      have hout : ¬ Range (a + 8) s (a' + 8 + i) := by
        unfold Range
        omega
      rw [hsame2 _ (by omega) hguard hout, byte_copied m1 hi (by omega)]
      exact hsame _ (by omega) hguard'
    · have hguard' : Guarded t fin blocks' y := by
        rw [guarded_iff] at hguard ⊢
        refine hguard.imp_right (Or.imp_right fun hblock => ?_)
        obtain ⟨b, hb, hin⟩ := hblock
        exact ⟨b, (hused b).mpr (Or.inr hb), hin⟩
      have hnotnew : ¬ Range (a' + 8) s y := by
        intro hin
        simp only [Range] at hin
        obtain h | h | ⟨b, hb, h⟩ := guarded_iff.mp hguard
        · omega
        · omega
        · have hmem := (mem_used.mp ((hused b).mpr (Or.inr hb))).1
          have := hheap'.apart hmem hb1' (hnew b hb)
          simp only [Block.stop] at this h
          omega
      rw [hsame2 y hy hguard' hout, hcopied y hy hnotnew]
      exact hsame y hy hguard

end Move

section Realloc

variable {mem mem' : ByteMem} {t fin a s n : Nat} {size : UInt32} {before after blocks : List Block}

/-- What the block at `a` becomes when it is asked for `n` bytes: a block at `a'`, with what was in it. -/
structure Resized (mem mem' : ByteMem) (t fin : Nat) (blocks : List Block) (a s n a' : Nat) : Prop where
  heap : ∃ s' blocks', n ≤ s' ∧ Heap mem' t fin blocks' ∧
    ∀ b, b ∈ used blocks' ↔ b = ⟨a', s', false⟩ ∨ b ∈ used blocks ∧ b.addr ≠ a
  fresh : ∀ b ∈ used blocks, b.addr ≠ a → b.addr ≠ a'
  content : ∀ i < s, i < n → byte mem' (a' + 8 + i) = byte mem (a + 8 + i)
  same : ∀ y < 2 ^ 32, Guarded t fin blocks y → ¬ Range (a + 8) s y → byte mem' y = byte mem y

/-- A block that is kept in place. -/
theorem Kept.resized (hheap : Heap mem t fin (before ++ [⟨a, s, false⟩] ++ after))
    (hkept : Kept mem (fun y => Guarded t fin (before ++ [⟨a, s, false⟩] ++ after) y ∧ ¬ Range (a + 8 + n) (s - n) y) mem' t fin
      before a n after) : Resized mem mem' t fin (before ++ [⟨a, s, false⟩] ++ after) a s n a := by
  obtain ⟨⟨s', blocks', hns, hheap', hused⟩, hsame⟩ := hkept
  have hmem : (⟨a, s, false⟩ : Block) ∈ before ++ [⟨a, s, false⟩] ++ after := by simp
  have hroom := hheap.bounds hmem
  have hbound := hheap.bound
  simp only [Block.stop] at hroom
  refine ⟨⟨s', blocks', hns, hheap', fun b => ?_⟩, fun b _ hne => hne, fun i hs hn => ?_, fun y hy hguard hout => ?_⟩
  · rw [← hheap.mem_used_other, hused, List.mem_append, List.mem_cons, List.mem_append]
    exact or_left_comm
  · refine hsame _ (by omega) ⟨Or.inr (Or.inr ⟨_, hmem, rfl, by simp only; omega, by simp only [Block.stop]; omega⟩), ?_⟩
    unfold Range
    omega
  · refine hsame y hy ⟨hguard, fun hin => hout ?_⟩
    unfold Range at hin ⊢
    omega

/-- There are not `n` bytes in the block and the free one behind it. -/
def Stuck (blocks : List Block) (a s n : Nat) : Prop := s < n ∧ ∀ s', ⟨a + 8 + s, s', true⟩ ∈ blocks → s + s' < n

/-- What has been rounded up stays as it is. -/
theorem request_request (hrequest : size.toNat ≤ 0xFC000000) : request (request size) = request size := by
  obtain ⟨-, hmin, hmod, hmax⟩ := request_bounds hrequest
  rw [← UInt32.toNat_inj, request_toNat, if_neg (by omega)]
  omega

/-- A block in use is resized in place, or moved because it has no room to grow. Or the request is refused,
and nothing is written. -/
theorem realloc_used (hheap : Heap mem t fin blocks) (hb : ⟨a, s, false⟩ ∈ blocks) (hne : size ≠ 0)
    (hrequest : size.toNat ≤ 0xFC000000) :
    ((realloc_ex mem (UInt32.ofNat (a + 8)) size (UInt32.ofNat t)).1 = NULL ∧
        (realloc_ex mem (UInt32.ofNat (a + 8)) size (UInt32.ofNat t)).2 = mem ∧
        Stuck blocks a s (request size).toNat ∧ ∀ b ∈ blocks, b.free = true → b.size < fit (request size).toNat) ∨
      ∃ a', (realloc_ex mem (UInt32.ofNat (a + 8)) size (UInt32.ofNat t)).1 = UInt32.ofNat (a' + 8) ∧
        Resized mem (realloc_ex mem (UInt32.ofNat (a + 8)) size (UInt32.ofNat t)).2 t fin blocks a s (request size).toNat a' ∧
        (a' = a ∨ Stuck blocks a s (request size).toNat) := by
  obtain ⟨-, hmin, hmod, hmax⟩ := request_bounds hrequest
  have hroom := hheap.bounds hb
  have hbound := hheap.bound
  have hs := hheap.size_lt hb
  simp only [Block.stop] at hroom hs
  have hnonnull : UInt32.ofNat (a + 8) ≠ NULL := (ofNat_ne_zero_iff (by omega)).mpr (by omega)
  obtain ⟨n, hn, hreq⟩ : ∃ n, (request size).toNat = n ∧ request size = UInt32.ofNat n :=
    ⟨_, rfl, UInt32.ofNat_toNat.symm⟩
  have hagain := request_request hrequest
  rw [hreq] at hagain
  rw [hn] at hmin hmod hmax ⊢
  obtain ⟨before, after, rfl⟩ := exists_split hb
  obtain ⟨hopen, hword⟩ := hheap.opened
    (K := fun y => Guarded t fin (before ++ [⟨a, s, false⟩] ++ after) y ∧ ¬ Range (a + 8 + n) (s - n) y) fun _ h => h.1
  have hbsize := hopen.behind_size
  have hbword := hopen.behind_word
  rw [hopen.behind_addr] at hbword
  have hsnat : (UInt32.ofNat s).toNat = s := by rw [UInt32.toNat_ofNat', Nat.mod_eq_of_lt hs.2]
  have hnnat : (UInt32.ofNat n).toNat = n := by rw [UInt32.toNat_ofNat', Nat.mod_eq_of_lt (by omega)]
  have hshrink : UInt32.ofNat n ≤ UInt32.ofNat s ↔ n ≤ s := by rw [UInt32.le_iff_toNat_le, hsnat, hnnat]
  unfold realloc_ex
  simp only [if_neg hnonnull, if_neg hne, block_of_buffer, block_size_eq, hword, and_BLOCK_SIZE hs.1 hs.2, buffer_eq,
    GET_NEXT_BLOCK_eq, hreq, hshrink, hbword, and_FREE_BLOCK hbsize.1 hbsize.2, and_BLOCK_SIZE hbsize.1 hbsize.2]
  by_cases hns : n ≤ s
  · rw [if_pos hns]
    exact Or.inr ⟨a, rfl, Kept.resized hheap (realloc_shrink_spec hopen hword hmin hmod hns fun _ h => h.2), Or.inl rfl⟩
  rw [if_neg hns]
  split
  · next hgrow =>
    obtain ⟨hfree, hroom⟩ := hgrow
    cases after with
    | nil => cases hfree
    | cons b after =>
      obtain ⟨m, s', f⟩ := b
      obtain rfl : f = true := hfree
      obtain ⟨rfl, -⟩ := hopen.absorb_next
      have hb' := hheap.bounds (b := ⟨a + 8 + s, s', true⟩) (by simp)
      simp only [Block.stop] at hb'
      have hns' : n ≤ s + s' := by
        change UInt32.ofNat n ≤ UInt32.ofNat s + UInt32.ofNat s' at hroom
        rw [UInt32.le_iff_toNat_le, hnnat, UInt32.toNat_add, hsnat, UInt32.toNat_ofNat'] at hroom
        omega
      have hkept := realloc_grow_spec hopen hword hmin hmod (by omega) hns'
      exact Or.inr ⟨a, rfl, Kept.resized hheap ⟨hkept.heap, hkept.same⟩, Or.inl rfl⟩
  · next hgrow =>
    have hstuck : Stuck (before ++ [⟨a, s, false⟩] ++ after) a s n := by
      refine ⟨Nat.lt_of_not_le hns, fun s' hb' => Nat.lt_of_not_le fun hns' => hgrow ?_⟩
      have hb'room := hheap.bounds hb'
      simp only [Block.stop] at hb'room
      have hbehind := hopen.behind_addr
      cases after with
      | nil =>
        simp only [behind, List.headD_nil, sentinel] at hbehind
        omega
      | cons b after =>
        obtain rfl : b = ⟨a + 8 + s, s', true⟩ := hheap.tiles.unique (by simp) hb' hbehind
        refine ⟨rfl, ?_⟩
        change UInt32.ofNat n ≤ UInt32.ofNat s + UInt32.ofNat s'
        rw [UInt32.le_iff_toNat_le, hnnat, UInt32.toNat_add, hsnat, UInt32.toNat_ofNat']
        omega
    obtain ⟨hnull, hsame, hnone⟩ | ⟨a', s', blocks', hresult, hns', hheap', hused, hnew, hcontent, hsame⟩ :=
      realloc_move_spec hheap hb hmax (Nat.lt_of_not_le hns)
    · rw [hagain, hnnat] at hnone
      exact Or.inl ⟨hnull, hsame, hstuck, hnone⟩
    · exact Or.inr ⟨a', hresult, ⟨⟨s', blocks', hns', hheap', hused⟩, fun b hb _ => hnew b hb, fun i hi _ => hcontent i hi, hsame⟩,
        Or.inr hstuck⟩

end Realloc

end epos.tlsf
