import Epos.Heap.Users

open bytes tiles

namespace epos.tlsf

section Area

variable {mem : ByteMem} {t A : Nat}

/-- The headers of `process_area`: of the `area_info_t`, of the block behind it, and of the last one. -/
def Area (t A x : Nat) : Prop := x = t + 3184 ∨ x = t + 3200 ∨ x = t + 3176 + A

theorem area_headers (hA : 64 ≤ A) (hfits : t + 3184 + A ≤ 2 ^ 32) : Headers t (Area t A) := by
  refine ⟨by omega, fun x hx => ?_, fun x hx => ?_, fun x y hx hy hlt => ?_⟩
  · unfold Area at hx
    omega
  · unfold Area at hx
    omega
  · unfold Area at hx hy
    omega

theorem ROUNDDOWN_SIZE_eq (n : Nat) (hn : n < 2 ^ 32) : ROUNDDOWN_SIZE (UInt32.ofNat n) = UInt32.ofNat (n / 8 * 8) := by
  have hmask : (~~~MEM_ALIGN).toNat = 2 ^ 32 - 2 ^ 3 := rfl
  have height : 2 ^ 3 = 8 := rfl
  rw [← UInt32.toNat_inj, ROUNDDOWN_SIZE, UInt32.toNat_and, hmask, and_high_bits (UInt32.toNat_lt _) (by decide), height,
    UInt32.toNat_ofNat', UInt32.toNat_ofNat']
  omega

/-- The stores of `process_area`, one for each word. -/
theorem process_area_eq (mem : ByteMem) (hA : 64 ≤ A) (hmod : A % 8 = 0) (hfits : t + 3184 + A ≤ 2 ^ 32) :
    process_area mem (UInt32.ofNat (t + 3184)) (UInt32.ofNat A) = (UInt32.ofNat (t + 3184),
      put (put (put (put (put (put (put (put mem (.of (t + 3184) .size) 8) (.of (t + 3200) .size) (A - 32)) (.of (t + 3200) .next) 0)
        (.of (t + 3200) .prev) 0) (.of (t + 3176 + A) .prev_hdr) (t + 3200)) (.of (t + 3176 + A) .size) 2)
        (.of (t + 3184) .next) 0) (.of (t + 3184) .prev) (t + 3176 + A)) := by
  have hH := area_headers hA hfits
  have hlink : ∀ x, Area t A x → x + 16 ≤ 2 ^ 32 → ∀ k, (Slot.of x k).Valid t (Area t A) := fun x hx hlt k => (Node.valid ⟨hx, hlt⟩ t k)
  have hb := hlink (t + 3200) (Or.inr (Or.inl rfl)) (by omega)
  have hfirst : (if sizeof_area_info_t < MIN_BLOCK_SIZE then MIN_BLOCK_SIZE
      else ROUNDUP_SIZE sizeof_area_info_t ||| USED_BLOCK ||| PREV_USED) = UInt32.ofNat 8 := rfl
  have hsize1 : block_size (put mem (.of (t + 3184) .size) 8) (UInt32.ofNat (t + 3184)) &&& BLOCK_SIZE = UInt32.ofNat 8 := by
    rw [block_size_eq, get_put_self _ _ (by decide)]
    rfl
  have hnext : GET_NEXT_BLOCK (UInt32.ofNat (t + 3184 + 8)) (UInt32.ofNat 8) = UInt32.ofNat (t + 3200) := GET_NEXT_BLOCK_eq (t + 3192) 8
  have hrest : ROUNDDOWN_SIZE (UInt32.ofNat A - 3 * BHDR_OVERHEAD - UInt32.ofNat 8) ||| USED_BLOCK ||| PREV_USED =
      UInt32.ofNat (A - 32) := by
    have hthree : 3 * BHDR_OVERHEAD = UInt32.ofNat 24 := rfl
    have hused : USED_BLOCK = 0 := rfl
    have hprev : PREV_USED = 0 := rfl
    rw [hthree, sub_ofNat (by omega), sub_ofNat (by omega), ROUNDDOWN_SIZE_eq _ (by omega), hused, hprev, UInt32.or_zero,
      UInt32.or_zero]
    congr 1
    omega
  have hsize2 : ∀ m, get m (.of (t + 3200) .size) = A - 32 → block_size m (UInt32.ofNat (t + 3200)) &&& BLOCK_SIZE = UInt32.ofNat (A - 32) := by
    intro m hm
    rw [block_size_eq, hm]
    exact and_BLOCK_SIZE (s := A - 32) (f := false) (p := false) (by omega) (by omega)
  have hlast : GET_NEXT_BLOCK (UInt32.ofNat (t + 3200 + 8)) (UInt32.ofNat (A - 32)) = UInt32.ofNat (t + 3176 + A) := by
    rw [GET_NEXT_BLOCK_eq]
    congr 1
    omega
  -- the size of the block is read again when its links are reset
  have hword := get_put_self (put mem (.of (t + 3184) .size) 8) (.of (t + 3200) .size) (v := A - 32) (by omega)
  have hword' : get (put (put (put (put mem (.of (t + 3184) .size) 8) (.of (t + 3200) .size) (A - 32)) (.of (t + 3200) .next) 0)
      (.of (t + 3200) .prev) 0) (.of (t + 3200) .size) = A - 32 := by
    rw [get_put_of_ne _ hH (hb .prev) (hb .size) (fun h => Field.noConfusion (Slot.of.inj h).2),
      get_put_of_ne _ hH (hb .next) (hb .size) (fun h => Field.noConfusion (Slot.of.inj h).2), hword]
  have hzero : (0 : UInt32) = UInt32.ofNat 0 := rfl
  have htwo : UInt32.ofNat 0 ||| USED_BLOCK ||| PREV_FREE = UInt32.ofNat 2 := rfl
  have hinfo : ∀ m v, store32 m (UInt32.ofNat (t + 3184 + 8) + 4) (UInt32.ofNat v) = put m (.of (t + 3184) .next) v := by
    intro m v
    have haddr : UInt32.ofNat (t + 3184 + 8) + 4 = UInt32.ofNat (t + 3184) + 12 := by
      rw [UInt32.ofNat_add (t + 3184) 8, UInt32.add_assoc]
      rfl
    rw [← set_free_next_eq, set_free_next, haddr]
  have hinfo' : ∀ m v, store32 m (UInt32.ofNat (t + 3184 + 8)) (UInt32.ofNat v) = put m (.of (t + 3184) .prev) v := fun m v => rfl
  unfold process_area
  simp only [hfirst, set_size_eq, hsize1, buffer_eq, hnext, hrest, hzero, set_free_next_eq, set_free_prev_eq, hsize2 _ hword',
    hlast, set_prev_hdr_eq, htwo, hinfo, hinfo']

/-- The memory that `process_area` leaves behind. -/
def area_mem (mem : ByteMem) (t A : Nat) : ByteMem :=
  (process_area mem (UInt32.ofNat (t + 3184)) (UInt32.ofNat A)).2

theorem area_touches (mem : ByteMem) (hA : 64 ≤ A) (hmod : A % 8 = 0) (hfits : t + 3184 + A ≤ 2 ^ 32) :
    Touches (Range (t + 3184) A) mem (area_mem mem t A) := by
  have hput : ∀ m x k, t + 3184 ≤ x → x + k.offset + 4 ≤ t + 3184 + A → ∀ v,
      Touches (Range (t + 3184) A) m (put m (.of x k) v) := by
    intro m x k hlow hroom v
    refine (touches_store32 (by simp only [Slot.addr]; omega) _).mono fun y hy => ?_
    simp only [Range, Slot.addr] at hy ⊢
    omega
  unfold area_mem
  rw [process_area_eq mem hA hmod hfits]
  have h1 := hput mem (t + 3184) .size (by omega) (by simp only [Field.offset]; omega) 8
  have h2 := h1.trans (hput _ (t + 3200) .size (by omega) (by simp only [Field.offset]; omega) (A - 32))
  have h3 := h2.trans (hput _ (t + 3200) .next (by omega) (by simp only [Field.offset]; omega) 0)
  have h4 := h3.trans (hput _ (t + 3200) .prev (by omega) (by simp only [Field.offset]; omega) 0)
  have h5 := h4.trans (hput _ (t + 3176 + A) .prev_hdr (by omega) (by simp only [Field.offset]; omega) (t + 3200))
  have h6 := h5.trans (hput _ (t + 3176 + A) .size (by omega) (by simp only [Field.offset]; omega) 2)
  have h7 := h6.trans (hput _ (t + 3184) .next (by omega) (by simp only [Field.offset]; omega) 0)
  exact h7.trans (hput _ (t + 3184) .prev (by omega) (by simp only [Field.offset]; omega) (t + 3176 + A))

/-- The sizes of the three blocks. -/
theorem area_words (mem : ByteMem) (hA : 64 ≤ A) (hmod : A % 8 = 0) (hfits : t + 3184 + A ≤ 2 ^ 32) :
    get (area_mem mem t A) (.of (t + 3184) .size) = 8 ∧ get (area_mem mem t A) (.of (t + 3200) .size) = A - 32 ∧
      get (area_mem mem t A) (.of (t + 3176 + A) .size) = 2 := by
  have hH := area_headers hA hfits
  have hinfo : ∀ k, (Slot.of (t + 3184) k).Valid t (Area t A) := fun k => Node.valid ⟨Or.inl rfl, by omega⟩ t k
  have hb : ∀ k, (Slot.of (t + 3200) k).Valid t (Area t A) := fun k => Node.valid ⟨Or.inr (Or.inl rfl), by omega⟩ t k
  have hlb : ∀ k : Field, k.offset < 8 → (Slot.of (t + 3176 + A) k).Valid t (Area t A) := fun k hk =>
    header_valid hH (Or.inr (Or.inr rfl)) hk
  have hne : Slot.of (t + 3200) .size ≠ .of (t + 3176 + A) .size := fun h => by have := (Slot.of.inj h).1; omega
  have hfield : ∀ {x y k k'}, k ≠ k' → Slot.of x k ≠ .of y k' := fun hk h => hk (Slot.of.inj h).2
  unfold area_mem
  rw [process_area_eq mem hA hmod hfits]
  have hne' : Slot.of (t + 3184) .size ≠ .of (t + 3176 + A) .size := fun h => by have := (Slot.of.inj h).1; omega
  have hne'' : Slot.of (t + 3184) .size ≠ .of (t + 3200) .size := fun h => by have := (Slot.of.inj h).1; omega
  refine ⟨?_, ?_, ?_⟩
  · rw [get_put_of_ne _ hH (hinfo _) (hinfo _) (hfield (by decide)), get_put_of_ne _ hH (hinfo _) (hinfo _) (hfield (by decide)),
      get_put_of_ne _ hH (hlb _ (by decide)) (hinfo _) hne', get_put_of_ne _ hH (hlb _ (by decide)) (hinfo _) (hfield (by decide)),
      get_put_of_ne _ hH (hb _) (hinfo _) (hfield (by decide)), get_put_of_ne _ hH (hb _) (hinfo _) (hfield (by decide)),
      get_put_of_ne _ hH (hb _) (hinfo _) hne'']
    exact get_put_self _ _ (by decide)
  · rw [get_put_of_ne _ hH (hinfo _) (hb _) (hfield (by decide)), get_put_of_ne _ hH (hinfo _) (hb _) (hfield (by decide)),
      get_put_of_ne _ hH (hlb _ (by decide)) (hb _) hne, get_put_of_ne _ hH (hlb _ (by decide)) (hb _) (hfield (by decide)),
      get_put_of_ne _ hH (hb _) (hb _) (hfield (by decide)), get_put_of_ne _ hH (hb _) (hb _) (hfield (by decide))]
    exact get_put_self _ _ (by omega)
  · rw [get_put_of_ne _ hH (hinfo _) (hlb _ (by decide)) (hfield (by decide)),
      get_put_of_ne _ hH (hinfo _) (hlb _ (by decide)) (hfield (by decide))]
    exact get_put_self _ _ (by decide)

/-- All bytes of the area are in one block, which is still in use. -/
theorem area_open (hzero : ∀ y, t + 8 ≤ y → y < t + 3180 → byte mem y = 0) (hA : 64 ≤ A) (hmod : A % 8 = 0)
    (hfits : t + 3184 + A ≤ 2 ^ 32) (hsmall : A + 3176 < 2 ^ 30) :
    Open mem (fun y => y < t ∨ t + 3184 + A ≤ y) (area_mem mem t A) t (t + 3176 + A) [] [⟨t + 3200, A - 32, false⟩] true [] := by
  have htouches := area_touches mem hA hmod hfits
  obtain ⟨-, hsize, hlast⟩ := area_words mem hA hmod hfits
  have hshape : Shape t (t + 3176 + A) ([] ++ [⟨t + 3200, A - 32, false⟩] ++ []) := by
    refine ⟨⟨rfl, ?_, ?_⟩, fun b hb => ?_, by omega, by omega⟩
    · simp only [Block.stop]
      omega
    · change t + 3200 + 8 + (A - 32) = t + 3176 + A
      omega
    · obtain rfl : b = ⟨t + 3200, A - 32, false⟩ := by simpa using hb
      simp only
      omega
  -- the words of the `tlsf_t` are zero
  have hcontrol : ∀ s, s.Valid t (HeadersOf ([⟨t + 3200, A - 32, false⟩] ++ [sentinel (t + 3176 + A)])) →
      (∀ x k, s ≠ .of x k) → get (area_mem mem t A) s = 0 := by
    intro s hs hout
    have hbelow := hs.below hout
    refine word_zero fun x hx hlt => ?_
    rw [htouches x (by omega) (by unfold Range; omega)]
    exact hzero x (by omega) (by omega)
  have hrows := hcontrol (.rows t) rfl fun x k h => Slot.noConfusion h
  have hrow := fun f (hf : f < 24) => hcontrol (.row t f) ⟨rfl, hf⟩ fun x k h => Slot.noConfusion h
  refine { hshape with
    lists := ⟨fun _ => [], ⟨fun c hc => ?_, fun c hc => ?_, fun f hf => ?_, ?_, fun c hc x hx => ?_, fun c hc c' hc' x hx => ?_⟩,
      fun c hc x => ?_⟩
    before_tagged := trivial
    state := ?_
    back := fun h => ?_
    after_tagged := ⟨hlast, trivial⟩
    before_settled := trivial
    after_settled := trivial
    kept := fun y hy => ?_
    same := fun y hy hK => htouches y hy ?_ }
  · exact hcontrol (.head t c) ⟨rfl, hc⟩ fun x k h => Slot.noConfusion h
  · rw [hrow _ (by omega), Nat.zero_testBit]
    exact ⟨Bool.noConfusion, fun h => absurd rfl h⟩
  · rw [hrows, hrow f hf, Nat.zero_testBit]
    exact ⟨Bool.noConfusion, fun h => absurd rfl h⟩
  · rw [hrows]
    decide
  · cases hx
  · cases hx
  · refine ⟨fun h => absurd h List.not_mem_nil, fun hfound => ?_⟩
    obtain ⟨b, hb, hfree, -⟩ := hfound
    obtain rfl : b = ⟨t + 3200, A - 32, false⟩ := by simpa using hb
    cases hfree
  · change (get (area_mem mem t A) (.of (t + 3200) .size)).testBit 1 = false
    rw [hsize]
    exact testBit_low (by omega) (by decide)
  · cases h
  · rcases hy with hlow | hhigh
    · exact Or.inl hlow
    · exact Or.inr (Or.inl (by omega))
  · unfold Range
    omega

end Area

section Init

variable {s : Pool} {n t : Nat}

/-- The `tlsf_t` before its area is there. -/
theorem cleared_bytes (mem : ByteMem) (ht : t + 3180 ≤ 2 ^ 32) :
    Touches (Range t 3180) mem (store32 (memory.memset mem (UInt32.ofNat t) 0 sizeof_tlsf_t).2 (UInt32.ofNat t) TLSF_SIGNATURE) ∧
      ∀ y, t + 8 ≤ y → y < t + 3180 →
        byte (store32 (memory.memset mem (UInt32.ofNat t) 0 sizeof_tlsf_t).2 (UInt32.ofNat t) TLSF_SIGNATURE) y = 0 := by
  have hsizeof : sizeof_tlsf_t.toNat = 3180 := rfl
  rw [memory.memset_eq, hsizeof]
  have hstore : ∀ m, Touches (Range t 4) m (store32 m (UInt32.ofNat t) TLSF_SIGNATURE) := fun m => touches_store32 (by omega) _
  have hfill : Touches (Range t 3180) mem (filled mem (UInt32.ofNat t) 3180 (0 : Int32).toUInt32.toUInt8) := touches_written ht
  refine ⟨hfill.trans ((hstore _).mono fun y hy => ⟨hy.1, by have := hy.2; omega⟩), fun y hlow hhigh => ?_⟩
  rw [hstore _ y (by omega) (by unfold Range; omega)]
  obtain ⟨i, rfl⟩ := Nat.exists_eq_add_of_le (Nat.le_trans (Nat.le_add_right t 8) hlow)
  have hi : i < 3180 := by omega
  exact byte_written (f := fun _ => 0) hi ht

/-- A new pool has one block, which is free; it has the bytes of the pool, rounded down, but for the
`tlsf_t` and the headers of the area. -/
theorem init_memory_pool_spec (ht : t ≠ 0) (halign : t % 4 = 0) (hmin : 3244 ≤ n) (hmax : n ≤ 2 ^ 30) (hfits : t + n < 2 ^ 32)
    (hnew : load32 s.mem (UInt32.ofNat t) ≠ TLSF_SIGNATURE) :
    (init_memory_pool s (UInt32.ofNat n) (UInt32.ofNat t)).2.mp = UInt32.ofNat t ∧
      (init_memory_pool s (UInt32.ofNat n) (UInt32.ofNat t)).1 = UInt32.ofNat ((n - 3180) / 8 * 8 - 32) ∧
      Heap (init_memory_pool s (UInt32.ofNat n) (UInt32.ofNat t)).2.mem t (t + 3176 + (n - 3180) / 8 * 8)
        [⟨t + 3200, (n - 3180) / 8 * 8 - 32, true⟩] ∧
      ∀ y < 2 ^ 32, y < t ∨ t + 3184 + (n - 3180) / 8 * 8 ≤ y →
        byte (init_memory_pool s (UInt32.ofNat n) (UInt32.ofNat t)).2.mem y = byte s.mem y := by
  obtain ⟨A, hA⟩ : ∃ A, (n - 3180) / 8 * 8 = A := ⟨_, rfl⟩
  rw [hA]
  have hlow : 64 ≤ A := by omega
  have hmod : A % 8 = 0 := by omega
  have hroom : t + 3184 + A ≤ 2 ^ 32 := by omega
  obtain ⟨hcleared, hzero⟩ := cleared_bytes s.mem (t := t) (by omega)
  obtain ⟨m, hm⟩ : ∃ m, store32 (memory.memset s.mem (UInt32.ofNat t) 0 sizeof_tlsf_t).2 (UInt32.ofNat t) TLSF_SIGNATURE = m := ⟨_, rfl⟩
  rw [hm] at hcleared hzero
  have hopen := area_open hzero hlow hmod hroom (by omega)
  obtain ⟨hinfo, hsize, -⟩ := area_words m hlow hmod hroom
  obtain ⟨blocks', hheap, hused, hsame⟩ := free_ex_spec hopen hsize fun y hy hin => by
    unfold Range at hin
    omega
  have hall := hheap.all_free hused (by omega)
  have hrest : t + 3176 + A - (t + 3208) = A - 32 := by omega
  rw [hrest] at hall
  subst hall
  have hhead : Touches (Range t 8) (free_ex (area_mem m t A) (UInt32.ofNat (t + 3200 + 8)) (UInt32.ofNat t))
      (store32 (free_ex (area_mem m t A) (UInt32.ofNat (t + 3200 + 8)) (UInt32.ofNat t)) (UInt32.ofNat (t + 4))
        (UInt32.ofNat (t + 3184 + 8))) :=
    (touches_store32 (by omega) _).mono fun y hy => ⟨by have := hy.1; omega, by have := hy.2; omega⟩
  have hheap' := hheap.congr (hhead.mono fun y hy => Or.inr hy)
  have hword := hheap'.tagged.1
  have hcode : init_memory_pool s (UInt32.ofNat n) (UInt32.ofNat t) = (UInt32.ofNat (A - 32),
      { mem := store32 (free_ex (area_mem m t A) (UInt32.ofNat (t + 3200 + 8)) (UInt32.ofNat t)) (UInt32.ofNat (t + 4))
          (UInt32.ofNat (t + 3184 + 8)),
        mp := UInt32.ofNat t }) := by
    have hnat : (UInt32.ofNat n).toNat = n := by
      rw [UInt32.toNat_ofNat']
      omega
    have htnat : (UInt32.ofNat t).toNat = t := by
      rw [UInt32.toNat_ofNat']
      omega
    have hzero : (UInt32.ofNat t) ≠ NULL := (ofNat_ne_zero_iff (by omega)).mpr ht
    have hnzero : (UInt32.ofNat n) ≠ 0 := (ofNat_ne_zero_iff (by omega)).mpr (by omega)
    have hlarge : ¬ UInt32.ofNat n < sizeof_tlsf_t + BHDR_OVERHEAD * 8 := by
      have hleast : (sizeof_tlsf_t + BHDR_OVERHEAD * 8).toNat = 3244 := rfl
      rw [UInt32.lt_iff_toNat_lt, hnat, hleast]
      omega
    have haligned : UInt32.ofNat t &&& PTR_MASK = 0 := by
      have hmask : PTR_MASK.toNat = 2 ^ 2 - 1 := rfl
      rw [← UInt32.toNat_inj, UInt32.toNat_and, htnat, hmask, Nat.and_two_pow_sub_one_eq_mod]
      exact halign
    have harea : GET_NEXT_BLOCK (UInt32.ofNat t) (ROUNDUP_SIZE sizeof_tlsf_t) = UInt32.ofNat (t + 3184) := GET_NEXT_BLOCK_eq t 3184
    have hround : ROUNDDOWN_SIZE (UInt32.ofNat n - sizeof_tlsf_t) = UInt32.ofNat A := by
      have hsizeof : sizeof_tlsf_t = UInt32.ofNat 3180 := rfl
      rw [hsizeof, sub_ofNat (by omega), ROUNDDOWN_SIZE_eq _ (by omega), hA]
    have hprocess : process_area m (UInt32.ofNat (t + 3184)) (UInt32.ofNat A) = (UInt32.ofNat (t + 3184), area_mem m t A) := by
      rw [area_mem, process_area_eq m hlow hmod hroom]
    have hblock : GET_NEXT_BLOCK (UInt32.ofNat (t + 3184 + 8)) (UInt32.ofNat 8) = UInt32.ofNat (t + 3200) := GET_NEXT_BLOCK_eq (t + 3192) 8
    have hfirst : UInt32.ofNat 8 &&& BLOCK_SIZE = UInt32.ofNat 8 := rfl
    have hhead_at : area_head_at (UInt32.ofNat t) = UInt32.ofNat (t + 4) := (UInt32.ofNat_add t 4).symm
    unfold init_memory_pool
    rw [if_neg (by simp [hzero, hnzero, hlarge]), if_neg (not_not.mpr haligned), if_neg hnew]
    simp only [hm, harea, hround, hprocess, buffer_eq, block_size_eq, hinfo, hfirst, hblock, hhead_at]
    rw [hword]
    simp only [and_BLOCK_SIZE (s := A - 32) (by omega) (by omega)]
  rw [hcode]
  refine ⟨rfl, rfl, hheap', fun y hy hout => ?_⟩
  rw [hhead y hy (by unfold Range; omega), hsame y hy hout]
  exact hcleared y hy (by unfold Range; omega)

end Init

section Regions

/-- A region that `init_memory_pool` makes a new pool of. -/
structure Region (mem : ByteMem) (t n : Nat) : Prop where
  nonnull : t ≠ 0
  aligned : t % 4 = 0
  least : 3244 ≤ n
  most : n ≤ 2 ^ 30
  fits : t + n < 2 ^ 32
  new : load32 mem (UInt32.ofNat t) ≠ TLSF_SIGNATURE

/-- The sentinel of the pool that is made of a region. -/
def pool_end (t n : Nat) : Nat := t + 3176 + (n - 3180) / 8 * 8

/-- The bytes that are not of the pool are as they were at the start. -/
def Outside (start mem : ByteMem) (t fin : Nat) : Prop := ∀ y < 2 ^ 32, y < t ∨ fin + 8 ≤ y → byte mem y = byte start y

def new_pool (s : Pool) (t n : Nat) : Pool := (init_memory_pool s (UInt32.ofNat n) (UInt32.ofNat t)).2

variable {s : Pool} {t n : Nat}

theorem Region.mp (hregion : Region s.mem t n) : (new_pool s t n).mp = UInt32.ofNat t :=
  (init_memory_pool_spec hregion.nonnull hregion.aligned hregion.least hregion.most hregion.fits hregion.new).1

theorem Region.heap (hregion : Region s.mem t n) :
    Heap (new_pool s t n).mem t (pool_end t n) [⟨t + 3200, (n - 3180) / 8 * 8 - 32, true⟩] :=
  (init_memory_pool_spec hregion.nonnull hregion.aligned hregion.least hregion.most hregion.fits hregion.new).2.2.1

theorem Region.outside (hregion : Region s.mem t n) : Outside s.mem (new_pool s t n).mem t (pool_end t n) := by
  intro y hy hout
  refine (init_memory_pool_spec hregion.nonnull hregion.aligned hregion.least hregion.most hregion.fits hregion.new).2.2.2 y hy ?_
  unfold pool_end at hout
  omega

/-- The sentinel is in use, and the block before it is not. -/
theorem Region.sentinel_size (hregion : Region s.mem t n) : word (new_pool s t n).mem (pool_end t n + 4) = 2 :=
  hregion.heap.tagged.2.2.1

/-- Memory that has the signature already is taken for a pool as it is. -/
theorem new_pool_signed (haligned : t % 4 = 0) (hsigned : load32 s.mem (UInt32.ofNat t) = TLSF_SIGNATURE) :
    (new_pool s t n).mem = s.mem := by
  have hmask : UInt32.ofNat t &&& PTR_MASK = 0 := by
    have hthree : PTR_MASK.toNat = 2 ^ 2 - 1 := rfl
    rw [← UInt32.toNat_inj, UInt32.toNat_and, hthree, Nat.and_two_pow_sub_one_eq_mod, UInt32.toNat_ofNat', UInt32.toNat_zero]
    omega
  unfold new_pool init_memory_pool
  rw [if_neg (not_not.mpr hmask), if_pos hsigned]
  split
  · rfl
  · rfl

/-- `sizeof(tlsf_t)` is no multiple of 8, so the pool may end behind the region. Nothing behind the region is
written exactly if its size is at most 3 more than a multiple of 8. -/
theorem new_pool_inside_iff (hnonnull : t ≠ 0) (haligned : t % 4 = 0) (hleast : 3244 ≤ n) (hmost : n ≤ 2 ^ 30)
    (hfits : t + n < 2 ^ 32) :
    (∀ s : Pool, ∀ y < 2 ^ 32, y < t ∨ t + n ≤ y → byte (new_pool s t n).mem y = byte s.mem y) ↔ n % 8 < 4 := by
  constructor
  · intro hinside
    refine Nat.lt_of_not_le fun hover => ?_
    -- the highest byte of the sentinel's size is behind the region
    obtain ⟨s, hs⟩ : ∃ s : Pool, ∀ a, s.mem a = 0xFF := ⟨⟨fun _ => 0xFF, 0⟩, fun _ => rfl⟩
    have hsignature : load32 s.mem (UInt32.ofNat t) ≠ TLSF_SIGNATURE := by
      rw [load32, hs, hs, hs, hs]
      decide
    have hregion : Region s.mem t n := ⟨hnonnull, haligned, hleast, hmost, hfits, hsignature⟩
    have hbound := hregion.heap.bound
    have hbytes := word_eq (new_pool s t n).mem (pool_end t n + 4)
    have hhighest : (byte s.mem (pool_end t n + 4 + 3)).toNat = 255 := by
      rw [byte, hs]
      rfl
    rw [hregion.sentinel_size, hinside s (pool_end t n + 4 + 3) (by omega) (by unfold pool_end; omega), hhighest] at hbytes
    omega
  · intro hmod s y hy hout
    by_cases hnew : load32 s.mem (UInt32.ofNat t) = TLSF_SIGNATURE
    · rw [new_pool_signed haligned hnew]
    · refine Region.outside ⟨hnonnull, haligned, hleast, hmost, hfits, hnew⟩ y hy ?_
      unfold pool_end
      omega

/-- A region of 64 KiB keeps what is around it, one that is a byte shorter does not. -/
theorem new_pool_inside_iff_whole :
    (∀ s : Pool, ∀ y < 2 ^ 32, y < 0x100000 ∨ 0x100000 + 0x10000 ≤ y → byte (new_pool s 0x100000 0x10000).mem y = byte s.mem y) ∧
      ¬ ∀ s : Pool, ∀ y < 2 ^ 32, y < 0x100000 ∨ 0x100000 + 0xFFFF ≤ y → byte (new_pool s 0x100000 0xFFFF).mem y = byte s.mem y := by
  have hwhole := new_pool_inside_iff (t := 0x100000) (n := 0x10000) (by decide) (by decide) (by decide) (by decide) (by decide)
  have hodd := new_pool_inside_iff (t := 0x100000) (n := 0xFFFF) (by decide) (by decide) (by decide) (by decide) (by decide)
  exact ⟨hwhole.mpr (by decide), fun h => absurd (hodd.mp h) (by decide)⟩

/-- 64 KiB of cleared memory. -/
def cleared : Pool := { mem := fun _ => 0, mp := 0 }

theorem cleared_region : Region cleared.mem 0x100000 0x10000 :=
  ⟨by decide, by decide, by decide, by decide, by decide, by decide⟩

/-- The first request is granted the first bytes of the pool. -/
theorem cleared_granted : ∃ z blocks,
    (malloc_ex (new_pool cleared 0x100000 0x10000).mem 100 (UInt32.ofNat 0x100000)).1 = UInt32.ofNat 0x100C88 ∧ 104 ≤ z ∧ z < 120 ∧
      Heap (malloc_ex (new_pool cleared 0x100000 0x10000).mem 100 (UInt32.ofNat 0x100000)).2 0x100000
        (pool_end 0x100000 0x10000) blocks ∧
      ∀ b, b ∈ used blocks ↔ b = ⟨0x100C80, z, false⟩ := by
  have hsize : (100 : UInt32).toNat ≤ 0xFC000000 := by decide
  have hfit : fit (request 100).toNat = 104 := by decide
  obtain ⟨-, -, hnone⟩ | ⟨before, a, s, z, after, hone, hresult, hgranted⟩ := malloc_ex_spec cleared_region.heap hsize
  · exact absurd (hnone _ List.mem_cons_self rfl) (by decide)
  · obtain ⟨⟨hlow, -, hhigh⟩, -, ⟨blocks, hheap, hused⟩, -⟩ := hgranted
    have hmem : (⟨a, s, true⟩ : Block) ∈ before ++ [⟨a, s, true⟩] ++ after := by simp
    have hnone : used before ++ used after = [] := by
      have hall := congrArg used hone
      have hfree : used [⟨a, s, true⟩] = [] := rfl
      rw [used_append, used_append, hfree, List.append_nil] at hall
      exact hall.symm
    obtain ⟨hbefore, hafter⟩ := List.append_eq_nil_iff.mp hnone
    rw [← hone] at hmem
    cases List.mem_singleton.mp hmem
    rw [hbefore, hafter, List.nil_append] at hused
    rw [hfit] at hlow hhigh
    exact ⟨z, blocks, hresult, hlow, hhigh, hheap, fun b => by rw [hused, List.mem_singleton]⟩

end Regions

end epos.tlsf
