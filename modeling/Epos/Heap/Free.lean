import Epos.Heap.Open

open bytes tiles

namespace epos.tlsf

/-- The blocks in use. -/
def used (l : List Block) : List Block := l.filter fun b => !b.free

theorem used_append (l l' : List Block) : used (l ++ l') = used l ++ used l' := List.filter_append ..

theorem used_cons_free (l : List Block) (a s : Nat) : used (⟨a, s, true⟩ :: l) = used l := rfl

section Addresses

theorem buffer_eq (a : Nat) : buffer (UInt32.ofNat a) = UInt32.ofNat (a + 8) := (UInt32.ofNat_add a 8).symm

theorem GET_NEXT_BLOCK_eq (a r : Nat) : GET_NEXT_BLOCK (UInt32.ofNat a) (UInt32.ofNat r) = UInt32.ofNat (a + r) :=
  (UInt32.ofNat_add a r).symm

theorem block_of_buffer (a : Nat) : UInt32.ofNat (a + 8) - BHDR_OVERHEAD = UInt32.ofNat a := by
  have hover : BHDR_OVERHEAD = UInt32.ofNat 8 := rfl
  rw [hover, UInt32.ofNat_add, UInt32.add_sub_cancel]

theorem sub_ofNat {s n : Nat} (hle : n ≤ s) : UInt32.ofNat s - UInt32.ofNat n = UInt32.ofNat (s - n) := by
  obtain ⟨k, rfl⟩ := Nat.exists_eq_add_of_le hle
  rw [UInt32.ofNat_add, UInt32.add_comm, UInt32.add_sub_cancel, Nat.add_sub_cancel_left]

/-- The size of a block that takes in `s'` bytes and their header. -/
theorem size_add (s s' : Nat) (f p : Bool) :
    UInt32.ofNat (tag s f p) + (UInt32.ofNat s' + BHDR_OVERHEAD) = UInt32.ofNat (tag (s + 8 + s') f p) := by
  have hover : BHDR_OVERHEAD = UInt32.ofNat 8 := rfl
  rw [hover, ← UInt32.ofNat_add, ← UInt32.ofNat_add]
  congr 1
  unfold tag
  omega

theorem extract_eq {mem : ByteMem} {a s t : Nat} {f p : Bool} (hword : get mem (.of a .size) = tag s f p)
    (hmod : s % 8 = 0) (hlt : s < 2 ^ 32) : extract mem (UInt32.ofNat a) (UInt32.ofNat t) =
      EXTRACT_BLOCK mem (UInt32.ofNat a) (UInt32.ofNat t) (UInt32.ofNat (class_of s / 32)) (UInt32.ofNat (class_of s % 32)) := by
  have hnat : (UInt32.ofNat s).toNat = s := by rw [UInt32.toNat_ofNat', Nat.mod_eq_of_lt hlt]
  unfold extract
  rw [block_size_eq, hword, and_BLOCK_SIZE hmod hlt, MAPPING_INSERT_eq, hnat]

theorem insert_eq (mem : ByteMem) (a t : Nat) {s : Nat} (hlt : s < 2 ^ 32) :
    insert mem (UInt32.ofNat a) (UInt32.ofNat s) (UInt32.ofNat t) =
      INSERT_BLOCK mem (UInt32.ofNat a) (UInt32.ofNat t) (UInt32.ofNat (class_of s / 32)) (UInt32.ofNat (class_of s % 32)) := by
  have hnat : (UInt32.ofNat s).toNat = s := by rw [UInt32.toNat_ofNat', Nat.mod_eq_of_lt hlt]
  unfold insert
  rw [MAPPING_INSERT_eq, hnat]

end Addresses

section Neighbours

variable {start mem : ByteMem} {K : Nat → Prop} {t fin a s s' n p : Nat} {x : Bool} {before after : List Block}

theorem Shape.size_lt {blocks : List Block} {b : Block} (h : Shape t fin blocks) (hb : b ∈ blocks) :
    b.size % 8 = 0 ∧ b.size < 2 ^ 32 := by
  have hroom := h.bounds hb
  have hbound := h.bound
  unfold Block.stop at hroom
  exact ⟨(h.sizes b hb).2, by omega⟩

/-- The block behind is taken in, when it is free. -/
theorem Open.absorb_next (hopen : Open start K mem t fin before [⟨a, s, false⟩] x (⟨n, s', true⟩ :: after)) :
    n = a + 8 + s ∧ get mem (.of n .size) = tag s' true x ∧
      Open start K (tlsf.extract mem (UInt32.ofNat n) (UInt32.ofNat t)) t fin before [⟨a, s + 8 + s', false⟩] true after ∧
      (∀ y, HeadersOf (before ++ [⟨a, s, false⟩, ⟨n, s', true⟩] ++ after ++ [sentinel fin]) y → ∀ k : Field, k.offset < 8 →
        get (tlsf.extract mem (UInt32.ofNat n) (UInt32.ofNat t)) (.of y k) = get mem (.of y k)) ∧
      ∀ y, K y → Range (a + 8) (s + 8 + s') y → Range (a + 8) s y := by
  obtain ⟨hnext, hword⟩ := hopen.next_block
  obtain ⟨-, -, haddr, -⟩ := hnext.parts.2.1
  have haddr : n = a + 8 + s := haddr
  have hsize := hnext.size_lt (b := ⟨n, s', true⟩) (by simp)
  obtain ⟨hextract, hheaders⟩ := Open.extract (l := [⟨a, s, false⟩]) (r := []) hnext
  rw [← extract_eq hword hsize.1 hsize.2] at hextract hheaders
  refine ⟨haddr, hword, ?_, hheaders, fun y hy hin => ⟨hin.1, Nat.lt_of_not_le fun hge => ?_⟩⟩
  · have hjoin := hextract
    rw [haddr] at hjoin ⊢
    exact Open.join hjoin
  · have hfree := hnext.not_guarded_free (a := y) (c := ⟨n, s', true⟩) (by simp) rfl
    simp only [Range, Block.stop] at hin hfree
    exact hfree (by omega) (hnext.kept y hy)

/-- The block before is taken in, when it is free. -/
theorem Open.absorb_prev (hopen : Open start K mem t fin (before ++ [⟨p, s', true⟩]) [⟨a, s, false⟩] x after)
    (hK : ∀ y, K y → ¬ Range (a + 8) s y) :
    a = p + 8 + s' ∧ get mem (.of p .size) = tag s' true (before.getLastD (first t)).free ∧
      Open start K (tlsf.extract mem (UInt32.ofNat p) (UInt32.ofNat t)) t fin before [⟨p, s' + 8 + s, false⟩] x after ∧
      (∀ y, HeadersOf (before ++ [⟨p, s', true⟩, ⟨a, s, false⟩] ++ after ++ [sentinel fin]) y → ∀ k : Field, k.offset < 8 →
        get (tlsf.extract mem (UInt32.ofNat p) (UInt32.ofNat t)) (.of y k) = get mem (.of y k)) ∧
      ∀ y, K y → ¬ Range (p + 8) (s' + 8 + s) y := by
  obtain ⟨hprev, hword⟩ := hopen.prev_block
  obtain ⟨-, -, haddr, -⟩ := hprev.parts.2.1
  have haddr : a = p + 8 + s' := haddr
  have hsize := hprev.size_lt (b := ⟨p, s', true⟩) (by simp)
  obtain ⟨hextract, hheaders⟩ := Open.extract (l := []) (r := [⟨a, s, false⟩]) hprev
  rw [← extract_eq hword hsize.1 hsize.2] at hextract hheaders
  refine ⟨haddr, hword, ?_, hheaders, fun y hy hin => ?_⟩
  · have hjoin := hextract
    rw [haddr] at hjoin
    exact Open.join hjoin
  · have hfree := hprev.not_guarded_free (a := y) (c := ⟨p, s', true⟩) (by simp) rfl
    have hheader := hprev.not_guarded_header (a := y) (x := a) ⟨⟨a, s, false⟩, by simp, rfl⟩
    have hnot := hK y hy
    have hguard := hprev.kept y hy
    simp only [Range, Block.stop] at hin hnot hfree hheader
    by_cases hlow : y < a
    · exact hfree (by omega) hguard
    · exact hheader (by omega) hguard

end Neighbours

section Merges

variable {start mem : ByteMem} {K : Nat → Prop} {t fin a s n p : Nat} {x : Bool} {before mid after : List Block}

/-- The word of the header behind the blocks that are being worked on. -/
theorem Open.behind_word (hopen : Open start K mem t fin before mid x after) :
    get mem (.of (behind fin after).addr .size) = tag (behind fin after).size (behind fin after).free x := by
  obtain ⟨rest, hrest⟩ := behind_eq fin after
  have htail := hopen.after_tagged
  rw [hrest] at htail
  exact htail.1

theorem Open.behind_addr (hopen : Open start K mem t fin before [⟨a, s, false⟩] x after) :
    (behind fin after).addr = a + 8 + s := hopen.parts.2.1.2.2.symm

theorem Settled.behind_used (hsettled : Settled true after) : (behind fin after).free = false := by
  cases after with
  | nil => rfl
  | cons n after => simpa [behind] using hsettled.1

theorem Settled.last_used (hsettled : Settled false (before ++ [⟨p, s, true⟩])) :
    (before.getLastD (first t)).free = false := by
  rw [settled_append, getLastD_free t] at hsettled
  simpa using hsettled.2.1

/-- The size word of the block that is being worked on. -/
theorem Open.put_tag (hopen : Open start K mem t fin before [⟨a, s, false⟩] x after) (f : Bool) :
    Open start K (put mem (.of a .size) (tag s f (before.getLastD (first t)).free)) t fin before [⟨a, s, false⟩] x after ∧
      get (put mem (.of a .size) (tag s f (before.getLastD (first t)).free)) (.of a .size) =
        tag s f (before.getLastD (first t)).free := by
  have hs := hopen.size_lt (b := ⟨a, s, false⟩) (by simp)
  have htag := tag_lt (f := f) (p := (before.getLastD (first t)).free) hs.1 hs.2
  refine ⟨?_, get_put_self mem _ htag⟩
  refine hopen.put_size (b := ⟨a, s, false⟩) List.mem_cons_self htag fun _ => ?_
  rw [testBit_tag hs.1, if_neg (by decide), if_pos rfl]

theorem merge_next_spec (hopen : Open start K mem t fin before [⟨a, s, false⟩] x after)
    (hsize : get mem (.of a .size) = tag s true (before.getLastD (first t)).free) (hK : ∀ y, K y → ¬ Range (a + 8) s y) :
    ∃ s' x' after', Open start K (merge_next mem (UInt32.ofNat a) (UInt32.ofNat t)) t fin before [⟨a, s', false⟩] x' after' ∧
      get (merge_next mem (UInt32.ofNat a) (UInt32.ofNat t)) (.of a .size) = tag s' true (before.getLastD (first t)).free ∧
      (∀ y, K y → ¬ Range (a + 8) s' y) ∧ (behind fin after').free = false ∧ used after' = used after := by
  have hs := hopen.size_lt (b := ⟨a, s, false⟩) (by simp)
  have hbehind := hopen.behind_size
  have hword := hopen.behind_word
  unfold merge_next
  simp only [block_size_eq, hsize, and_BLOCK_SIZE hs.1 hs.2, buffer_eq, GET_NEXT_BLOCK_eq]
  rw [hopen.behind_addr] at hword
  simp only [hword, and_FREE_BLOCK hbehind.1 hbehind.2]
  split
  · next hfree =>
    cases after with
    | nil => cases hfree
    | cons b after =>
      obtain ⟨n, s', f⟩ := b
      obtain rfl : f = true := hfree
      obtain ⟨rfl, hnword, hmerged, hheaders, hin⟩ := hopen.absorb_next
      have hn := hopen.size_lt (b := ⟨a + 8 + s, s', true⟩) (by simp)
      have haword := (hheaders a ⟨⟨a, s, false⟩, by simp, rfl⟩ .size (by decide)).trans hsize
      have hnword' := (hheaders (a + 8 + s) ⟨⟨a + 8 + s, s', true⟩, by simp, rfl⟩ .size (by decide)).trans hnword
      obtain ⟨htagged, hword'⟩ := hmerged.put_tag true
      simp only [haword, hnword', and_BLOCK_SIZE hn.1 hn.2, size_add, set_size_eq]
      exact ⟨s + 8 + s', true, after, htagged, hword', fun y hy h => hK y hy (hin y hy h), hopen.after_settled.2.behind_used, used_cons_free after (a + 8 + s) s'⟩
  · next hfree => exact ⟨s, x, after, hopen, hsize, hK, by simpa using hfree, rfl⟩

theorem merge_prev_spec (hopen : Open start K mem t fin before [⟨a, s, false⟩] x after)
    (hsize : get mem (.of a .size) = tag s true (before.getLastD (first t)).free) (hK : ∀ y, K y → ¬ Range (a + 8) s y) :
    ∃ a' s' before', (merge_prev mem (UInt32.ofNat a) (UInt32.ofNat t)).1 = UInt32.ofNat a' ∧
      Open start K (merge_prev mem (UInt32.ofNat a) (UInt32.ofNat t)).2 t fin before' [⟨a', s', false⟩] x after ∧
      get (merge_prev mem (UInt32.ofNat a) (UInt32.ofNat t)).2 (.of a' .size) = tag s' true (before'.getLastD (first t)).free ∧
      (∀ y, K y → ¬ Range (a' + 8) s' y) ∧ (before'.getLastD (first t)).free = false ∧ used before' = used before := by
  have hs := hopen.size_lt (b := ⟨a, s, false⟩) (by simp)
  have haddr : a = edge t before := hopen.parts.2.1.1
  unfold merge_prev
  simp only [block_size_eq, hsize, prev_hdr_eq, and_PREV_FREE hs.1 hs.2]
  split
  · next hfree =>
    obtain rfl | ⟨before, b, rfl⟩ := List.eq_nil_or_concat before
    · cases hfree
    · rw [List.concat_eq_append] at *
      have hback := hopen.back hfree
      rw [← haddr] at hback
      rw [List.getLastD_concat] at hfree hback hsize
      obtain ⟨p, s', f⟩ := b
      obtain rfl : f = true := hfree
      obtain ⟨rfl, hpword, hmerged, hheaders, hK'⟩ := hopen.absorb_prev hK
      have hp := hopen.size_lt (b := ⟨p, s', true⟩) (by simp)
      have haword := (hheaders (p + 8 + s') ⟨⟨p + 8 + s', s, false⟩, by simp, rfl⟩ .size (by decide)).trans hsize
      have hpword' := (hheaders p ⟨⟨p, s', true⟩, by simp, rfl⟩ .size (by decide)).trans hpword
      obtain ⟨htagged, hword⟩ := hmerged.put_tag true
      simp only [hback, haword, hpword', and_BLOCK_SIZE hs.1 hs.2, size_add, set_size_eq]
      refine ⟨p, s' + 8 + s, before, rfl, htagged, hword, hK', hopen.before_settled.last_used, ?_⟩
      rw [used_append, used_cons_free]
      exact (List.append_nil _).symm
  · next hfree => exact ⟨a, s, before, rfl, hopen, hsize, hK, by simpa using hfree, rfl⟩

/-- A block is marked free, with no links. -/
theorem Open.marked (hopen : Open start K mem t fin before [⟨a, s, false⟩] x after) (hK : ∀ y, K y → ¬ Range (a + 8) s y) :
    Open start K (put (put (put mem (.of a .size) (tag s true (before.getLastD (first t)).free)) (.of a .prev) 0) (.of a .next) 0)
        t fin before [⟨a, s, false⟩] x after ∧
      get (put (put (put mem (.of a .size) (tag s true (before.getLastD (first t)).free)) (.of a .prev) 0) (.of a .next) 0)
        (.of a .size) = tag s true (before.getLastD (first t)).free := by
  have height := (hopen.sizes ⟨a, s, false⟩ (by simp)).1
  have hlinks : ∀ y, K y → ¬ Range (a + 8) 8 y := by
    intro y hy hin
    simp only [Range] at hin height
    exact hK y hy ⟨hin.1, by omega⟩
  obtain ⟨h1, hword⟩ := hopen.put_tag true
  have h2 := h1.put_link (b := ⟨a, s, false⟩) (k := .prev) List.mem_cons_self rfl hlinks (by decide) 0
  refine ⟨h2.put_link (b := ⟨a, s, false⟩) (k := .next) List.mem_cons_self rfl hlinks (by decide) 0, ?_⟩
  have hnode := h1.node (b := ⟨a, s, false⟩) (by simp)
  rw [get_put_of_ne _ h1.headers (hnode.valid t .next) (hnode.valid t .size) (fun h => Field.noConfusion (Slot.of.inj h).2),
    get_put_of_ne _ h1.headers (hnode.valid t .prev) (hnode.valid t .size) (fun h => Field.noConfusion (Slot.of.inj h).2)]
  exact hword

/-- A block that is freed makes one block with its free neighbours. -/
theorem free_ex_spec (hopen : Open start K mem t fin before [⟨a, s, false⟩] x after)
    (hsize : get mem (.of a .size) = tag s false (before.getLastD (first t)).free) (hK : ∀ y, K y → ¬ Range (a + 8) s y) :
    ∃ blocks', Heap (free_ex mem (UInt32.ofNat (a + 8)) (UInt32.ofNat t)) t fin blocks' ∧
      used blocks' = used before ++ used after ∧
      ∀ y < 2 ^ 32, K y → byte (free_ex mem (UInt32.ofNat (a + 8)) (UInt32.ofNat t)) y = byte start y := by
  have hs := hopen.size_lt (b := ⟨a, s, false⟩) (by simp)
  have hroom := hopen.bounds (b := ⟨a, s, false⟩) (by simp)
  have hbound := hopen.bound
  have hnull : UInt32.ofNat (a + 8) ≠ NULL := by
    refine (ofNat_ne_zero_iff (a := a + 8) ?_).mpr (by omega)
    simp only [Block.stop] at hroom
    omega
  have hinit : NULL = UInt32.ofNat 0 := rfl
  -- the neighbours are taken in
  obtain ⟨h1, hword1⟩ := hopen.marked hK
  obtain ⟨s2, x2, after', h2, hword2, hK2, hafter, hused⟩ := merge_next_spec h1 hword1 hK
  obtain ⟨a', s', before', ha', h3, hword3, hK3, hbefore, hused'⟩ := merge_prev_spec h2 hword2 hK2
  have hs' := h3.size_lt (b := ⟨a', s', false⟩) (by simp)
  -- the block is put into its list, and the one behind is told
  obtain ⟨h4, hheaders⟩ := Open.insert (l := []) (r := []) h3 hK3
  have hword4 := (hheaders a' ⟨⟨a', s', false⟩, by simp, rfl⟩ .size (by decide)).trans hword3
  rw [← insert_eq _ _ _ hs'.2] at h4 hword4
  have hbehind : (behind fin after').addr = a' + 8 + s' := h3.behind_addr
  have hbsize := h4.behind_size
  have hbword := h4.behind_word
  have h5 := h4.put_behind_size (by simp) true
  have h6 := h5.put_behind_prev (by simp) a'
  have hcode : free_ex mem (UInt32.ofNat (a + 8)) (UInt32.ofNat t) = put (put (insert
      (merge_prev (merge_next (put (put (put mem (.of a .size) (tag s true (before.getLastD (first t)).free)) (.of a .prev) 0)
        (.of a .next) 0) (UInt32.ofNat a) (UInt32.ofNat t)) (UInt32.ofNat a) (UInt32.ofNat t)).2
      (UInt32.ofNat a') (UInt32.ofNat s') (UInt32.ofNat t))
      (.of (behind fin after').addr .size) (tag (behind fin after').size (behind fin after').free true))
      (.of (behind fin after').addr .prev_hdr) a' := by
    unfold free_ex
    rw [if_neg hnull]
    simp only [block_of_buffer, block_size_eq, hsize, or_FREE_BLOCK hs.1 hs.2, set_size_eq, hinit, set_free_prev_eq,
      set_free_next_eq, ha', hword3, and_BLOCK_SIZE hs'.1 hs'.2, hword4, buffer_eq, GET_NEXT_BLOCK_eq, ← hbehind, hbword,
      or_PREV_FREE hbsize.1 hbsize.2, set_prev_hdr_eq]
  rw [hcode]
  refine ⟨before' ++ [⟨a', s', true⟩] ++ after', Open.closed h6 ?_ (fun _ => ?_) (fun _ => hbefore) (fun _ => hafter), ?_, h6.same⟩
  · have hb : (⟨a', s', true⟩ : Block) ∈ [⟨a', s', true⟩] := List.mem_cons_self
    exact (h5.get_put_behind hb (by decide) (by decide) _).trans
      ((h4.get_put_behind hb (by decide) (by decide) _).trans (hbefore ▸ hword4))
  · have hlt : a' + 16 ≤ 2 ^ 32 := (h3.node (b := ⟨a', s', false⟩) (by simp)).2
    exact get_put_self _ _ (by omega)
  · rw [used_append, used_append, hused, hused']
    exact congrArg (· ++ used after) (List.append_nil _)

end Merges

end epos.tlsf
