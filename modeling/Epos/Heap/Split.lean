import Epos.Heap.Free

open bytes tiles

namespace epos.tlsf

section Split

variable {start mem : ByteMem} {K : Nat → Prop} {t fin a m r z : Nat} {f x : Bool} {before after : List Block}

/-- What the words of the headers are when a block is cut in two, the second of which has still
to be put into its list. -/
structure Headed (start : ByteMem) (K : Nat → Prop) (mem : ByteMem) (t fin : Nat) (before : List Block) (a m r z : Nat)
    (f : Bool) (after : List Block) : Prop where
  work : Open start K mem t fin before [⟨a, m, false⟩, ⟨a + 8 + m, r, false⟩] true after
  size : get mem (.of a .size) = tag z f (before.getLastD (first t)).free
  rest : get mem (.of (a + 8 + m) .size) = tag r true false
  back : get mem (.of (behind fin after).addr .prev_hdr) = a + 8 + m

/-- The headers of the second block and of the one behind it. -/
theorem Open.headed (hopen : Open start K mem t fin before [⟨a, m + 8 + r, false⟩] x after)
    (hsize : get mem (.of a .size) = tag z f (before.getLastD (first t)).free)
    (hm : 8 ≤ m) (hmod : m % 8 = 0) (hr : 8 ≤ r) (hmod' : r % 8 = 0) (hK : ∀ y, K y → ¬ Range (a + 8 + m) (8 + r) y) :
    get (put (put mem (.of (a + 8 + m) .size) (tag r true false)) (.of (behind fin after).addr .prev_hdr) (a + 8 + m))
        (.of (behind fin after).addr .size) = tag (behind fin after).size (behind fin after).free x ∧
      Headed start K (put (put (put mem (.of (a + 8 + m) .size) (tag r true false)) (.of (behind fin after).addr .prev_hdr) (a + 8 + m))
        (.of (behind fin after).addr .size) (tag (behind fin after).size (behind fin after).free true))
        t fin before a m r z f after := by
  have haddr : a = edge t before := hopen.parts.2.1.1
  have h1 := hopen.cut hm hmod hr hmod' hK
  have hfirst : (⟨a, m, false⟩ : Block) ∈ [⟨a, m, false⟩, ⟨a + 8 + m, r, false⟩] := by simp
  have hsecond : (⟨a + 8 + m, r, false⟩ : Block) ∈ [⟨a, m, false⟩, ⟨a + 8 + m, r, false⟩] := by simp
  have hrlt := h1.size_lt (b := ⟨a + 8 + m, r, false⟩) (by simp)
  have hnode := h1.node (b := ⟨a, m, false⟩) (by simp)
  have hnode' := h1.node (b := ⟨a + 8 + m, r, false⟩) (by simp)
  have hne : Slot.of a .size ≠ .of (a + 8 + m) .size := fun h => by have := (Slot.of.inj h).1; omega
  have htag := tag_lt (f := true) (p := false) hrlt.1 hrlt.2
  have hlt : a + 8 + m < 2 ^ 32 := Nat.lt_of_lt_of_le (Nat.lt_add_of_pos_right (by decide)) hnode'.2
  have h2 := h1.put_size hsecond htag fun h => by simp only at h; omega
  have h3 := h2.put_behind_prev (by simp) (a + 8 + m)
  refine ⟨h3.behind_word, h3.put_behind_size (by simp) true, ?_, ?_, ?_⟩
  · rw [h3.get_put_behind hfirst (by decide) (by decide), h2.get_put_behind hfirst (by decide) (by decide), ← hsize]
    exact get_put_of_ne mem h1.headers (hnode'.valid t .size) (hnode.valid t .size) hne _
  · rw [h3.get_put_behind hsecond (by decide) (by decide), h2.get_put_behind hsecond (by decide) (by decide)]
    exact get_put_self mem _ htag
  · have hvalid := header_valid (k := .size) h3.headers headers_behind (by decide)
    have hvalid' := header_valid (k := .prev_hdr) h3.headers headers_behind (by decide)
    rw [get_put_of_ne _ h3.headers hvalid hvalid' fun h => Field.noConfusion (Slot.of.inj h).2]
    exact get_put_self _ _ hlt

/-- The second block is put into its list, and the first one gets its size. -/
theorem Headed.listed (h : Headed start K mem t fin before a m r z f after) (hafter : (behind fin after).free = false)
    (hK : ∀ y, K y → ¬ Range (a + 8 + m) (8 + r) y) :
    get (insert mem (UInt32.ofNat (a + 8 + m)) (UInt32.ofNat r) (UInt32.ofNat t)) (.of a .size) =
        tag z f (before.getLastD (first t)).free ∧
      Heap (put (insert mem (UInt32.ofNat (a + 8 + m)) (UInt32.ofNat r) (UInt32.ofNat t)) (.of a .size)
        (tag m false (before.getLastD (first t)).free)) t fin
        (before ++ [⟨a, m, false⟩] ++ [⟨a + 8 + m, r, true⟩] ++ after) ∧
      ∀ y < 2 ^ 32, K y → byte (put (insert mem (UInt32.ofNat (a + 8 + m)) (UInt32.ofNat r) (UInt32.ofNat t)) (.of a .size)
        (tag m false (before.getLastD (first t)).free)) y = byte start y := by
  obtain ⟨h1, hsize, hrest, hback⟩ := h
  have hrlt := h1.size_lt (b := ⟨a + 8 + m, r, false⟩) (by simp)
  have hmlt := h1.size_lt (b := ⟨a, m, false⟩) (by simp)
  obtain ⟨h2, hheaders⟩ := Open.insert (l := [⟨a, m, false⟩]) (r := []) h1 fun y hy hin => hK y hy ⟨by have := hin.1; omega, by have := hin.2; omega⟩
  rw [← insert_eq mem (a + 8 + m) t hrlt.2] at h2 hheaders
  have hsize2 := (hheaders a ⟨⟨a, m, false⟩, by simp, rfl⟩ .size (by decide)).trans hsize
  have hrest2 := (hheaders (a + 8 + m) ⟨⟨a + 8 + m, r, false⟩, by simp, rfl⟩ .size (by decide)).trans hrest
  have hback2 := (hheaders _ headers_behind .prev_hdr (by decide)).trans hback
  refine ⟨hsize2, ?_⟩
  simp only at h2 hsize2 hrest2 hback2
  generalize insert mem _ _ _ = m2 at h2 hsize2 hrest2 hback2 ⊢
  have hnode := h2.node (b := ⟨a, m, false⟩) (by simp)
  have hnode' := h2.node (b := ⟨a + 8 + m, r, true⟩) (by simp)
  have htag := tag_lt (f := false) (p := (before.getLastD (first t)).free) hmlt.1 hmlt.2
  have hfirst : (⟨a, m, false⟩ : Block) ∈ [⟨a, m, false⟩] ++ [⟨a + 8 + m, r, true⟩] := by simp
  have hother : ∀ k : Field, k.offset < 8 → ∀ y, HeadersOf (before ++ ([⟨a, m, false⟩] ++ [⟨a + 8 + m, r, true⟩]) ++ after ++ [sentinel fin]) y →
      y ≠ a → get (put m2 (.of a .size) (tag m false (before.getLastD (first t)).free)) (.of y k) = get m2 (.of y k) :=
    fun k hk y hy hya => get_put_of_ne m2 h2.headers (hnode.valid t .size) (header_valid h2.headers hy hk)
      (fun h => hya (Slot.of.inj h).1) _
  have h3 := h2.put_size hfirst htag fun _ => by rw [testBit_tag hmlt.1, if_neg (by decide), if_pos rfl]
  have hrest3 := (hother .size (by decide) (a + 8 + m) ⟨⟨a + 8 + m, r, true⟩, by simp, rfl⟩ (by omega)).trans hrest2
  have hbehind : (behind fin after).addr = a + 8 + m + 8 + r := h2.parts.2.1.2.2.2.2.symm
  have hback3 := (hother .prev_hdr (by decide) _ headers_behind (by omega)).trans hback2
  have h4 := Open.done h3 rfl (get_put_self m2 _ htag) (by
    rw [show (⟨a, m, false⟩ : Block).stop = a + 8 + m from rfl, hrest3, testBit_tag hrlt.1, if_neg (by decide), if_pos rfl])
  refine ⟨Open.closed h4 ?_ (fun _ => hback3) (fun _ => ?_) fun _ => hafter, h4.same⟩
  · rw [List.getLastD_concat]
    exact hrest3
  · rw [List.getLastD_concat]

theorem free_word (hr : r % 8 = 0) (hlt : r < 2 ^ 32) :
    UInt32.ofNat r ||| FREE_BLOCK ||| PREV_USED = UInt32.ofNat (tag r true false) := by
  have hused : PREV_USED = 0 := rfl
  rw [hused, UInt32.or_zero]
  exact or_FREE_BLOCK (f := false) (p := false) hr hlt

theorem rest_size (hr : 8 ≤ r) (hlt : 8 + r < 2 ^ 32) :
    UInt32.ofNat (8 + r) ≥ sizeof_bhdr_t ∧ UInt32.ofNat (8 + r) - BHDR_OVERHEAD = UInt32.ofNat r := by
  constructor
  · have hnat : (UInt32.ofNat (8 + r)).toNat = 8 + r := by rw [UInt32.toNat_ofNat', Nat.mod_eq_of_lt hlt]
    have hsizeof : sizeof_bhdr_t.toNat = 16 := rfl
    rw [ge_iff_le, UInt32.le_iff_toNat_le, hnat, hsizeof]
    omega
  · rw [Nat.add_comm 8 r]
    exact block_of_buffer r

/-- What is left behind the first `m` bytes is made a block of its own, which is free. -/
theorem split_spec (hopen : Open start K mem t fin before [⟨a, m + 8 + r, false⟩] x after)
    (hsize : get mem (.of a .size) = tag z f (before.getLastD (first t)).free) (hz : z % 8 = 0) (hlt : z < 2 ^ 32)
    (hm : 8 ≤ m) (hmod : m % 8 = 0) (hr : 8 ≤ r) (hmod' : r % 8 = 0) (hafter : (behind fin after).free = false)
    (hK : ∀ y, K y → ¬ Range (a + 8 + m) (8 + r) y) :
    Heap (split mem (UInt32.ofNat a) (UInt32.ofNat (a + 8 + (m + 8 + r))) (UInt32.ofNat m) (UInt32.ofNat (8 + r)) (UInt32.ofNat t))
        t fin (before ++ [⟨a, m, false⟩] ++ [⟨a + 8 + m, r, true⟩] ++ after) ∧
      ∀ y < 2 ^ 32, K y → byte (split mem (UInt32.ofNat a) (UInt32.ofNat (a + 8 + (m + 8 + r))) (UInt32.ofNat m)
        (UInt32.ofNat (8 + r)) (UInt32.ofNat t)) y = byte start y := by
  have hs := hopen.size_lt (b := ⟨a, m + 8 + r, false⟩) (by simp)
  simp only at hs
  have hbsize := hopen.behind_size
  have hbehind := hopen.behind_addr
  obtain ⟨hlarge, hrest⟩ := rest_size hr (by omega)
  obtain ⟨hbword, hheaded⟩ := hopen.headed hsize hm hmod hr hmod' hK
  obtain ⟨hsize', hheap, hsame⟩ := hheaded.listed hafter hK
  have hcode : split mem (UInt32.ofNat a) (UInt32.ofNat (a + 8 + (m + 8 + r))) (UInt32.ofNat m) (UInt32.ofNat (8 + r)) (UInt32.ofNat t) =
      put (insert (put (put (put mem (.of (a + 8 + m) .size) (tag r true false)) (.of (behind fin after).addr .prev_hdr) (a + 8 + m))
        (.of (behind fin after).addr .size) (tag (behind fin after).size (behind fin after).free true))
        (UInt32.ofNat (a + 8 + m)) (UInt32.ofNat r) (UInt32.ofNat t)) (.of a .size) (tag m false (before.getLastD (first t)).free) := by
    unfold split
    rw [if_pos hlarge]
    simp only [hrest, buffer_eq, GET_NEXT_BLOCK_eq, free_word hmod' (by omega), set_size_eq, ← hbehind, set_prev_hdr_eq,
      block_size_eq, hbword, or_PREV_FREE hbsize.1 hbsize.2, hsize', or_PREV_STATE hmod (by omega) hz hlt]
  rw [hcode]
  exact ⟨hheap, hsame⟩

end Split

end epos.tlsf
