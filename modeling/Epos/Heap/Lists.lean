import Epos.Heap.Slots
import Epos.Lib.DoubleList

open bits bytes chains

namespace epos.tlsf

/-- The links of the free blocks. -/
def next (mem : ByteMem) (x : Nat) : Nat := get mem (.of x .next)

def prev (mem : ByteMem) (x : Nat) : Nat := get mem (.of x .prev)

/-- A header with room for the links of a free block. -/
def Node (H : Nat → Prop) (x : Nat) : Prop := H x ∧ x + 16 ≤ 2 ^ 32

/-- The lists of free blocks, and the bitmaps that tell which of them are not empty. -/
structure FreeLists (mem : ByteMem) (t : Nat) (H : Nat → Prop) (bins : Nat → List Nat) : Prop where
  lists : ∀ c < 768, Double 0 (next mem) (prev mem) 0 (get mem (.head t c)) (bins c)
  row : ∀ c < 768, (get mem (.row t (c / 32))).testBit (c % 32) = true ↔ bins c ≠ []
  rows : ∀ f < 24, (get mem (.rows t)).testBit f = true ↔ get mem (.row t f) ≠ 0
  rows_lt : get mem (.rows t) < 2 ^ 24
  node : ∀ c < 768, ∀ x ∈ bins c, Node H x
  apart : ∀ c < 768, ∀ c' < 768, ∀ x ∈ bins c, x ∈ bins c' → c = c'

/-- The bytes of the `tlsf_t` and of the links of the blocks in `L`. -/
def Links (t : Nat) (L : Nat → Prop) (a : Nat) : Prop := Range (t + 8) 3172 a ∨ ∃ x, L x ∧ Range (x + 8) 8 a

section Words

variable {t : Nat} {H L : Nat → Prop} {mem mem' : ByteMem} {s : Slot}

theorem Node.valid {x : Nat} (hx : Node H x) (t : Nat) (k : Field) : (Slot.of x k).Valid t H := by
  have hk := k.offset_le
  exact ⟨hx.1, by have := hx.2; omega⟩

theorem touches_put (hH : Headers t H) (hs : s.Valid t H) (v : Nat) : Touches (Range s.addr 4) mem (put mem s v) :=
  touches_store32 (hs.fits hH) _

theorem Node.ne_zero {x : Nat} (hx : Node H x) (hH : Headers t H) : x ≠ 0 := by
  have habove := hH.above x hx.1
  omega

/-- Writing a word of the `tlsf_t`. -/
theorem touches_control (hH : Headers t H) (hs : s.Valid t H) (hout : ∀ x k, s ≠ .of x k) (v : Nat) :
    Touches (Links t L) mem (put mem s v) := by
  apply (touches_put hH hs v).mono
  intro a ha
  have hbelow := hs.below hout
  unfold Range at ha
  exact Or.inl ⟨by omega, by omega⟩

theorem touches_prev (hH : Headers t H) {x : Nat} (hx : Node H x) (hL : L x) (v : Nat) :
    Touches (Links t L) mem (put mem (.of x .prev) v) := by
  apply (touches_put hH (hx.valid t .prev) v).mono
  intro a ha
  simp only [Range, Slot.addr, Field.offset] at ha
  exact Or.inr ⟨x, hL, by omega, by omega⟩

theorem touches_next (hH : Headers t H) {x : Nat} (hx : Node H x) (hL : L x) (v : Nat) :
    Touches (Links t L) mem (put mem (.of x .next) v) := by
  apply (touches_put hH (hx.valid t .next) v).mono
  intro a ha
  simp only [Range, Slot.addr, Field.offset] at ha
  exact Or.inr ⟨x, hL, by omega, by omega⟩

/-- The header proper is not among the links. -/
theorem header_of_touches (htouches : Touches (Links t L) mem mem') (hH : Headers t H) (hL : ∀ x, L x → H x)
    {y : Nat} (hy : H y) {k : Field} (hk : k.offset < 8) : get mem' (.of y k) = get mem (.of y k) := by
  have hinside := hH.inside y hy
  have habove := hH.above y hy
  have hoff : k.offset + 4 ≤ 8 := by cases k <;> first | decide | exact absurd hk (by decide)
  apply htouches.word_eq
  · simp only [Slot.addr]
    omega
  · rintro a hlow hhigh (hin | ⟨x, hx, hin⟩)
    · simp only [Slot.addr, Range] at hlow hhigh hin
      omega
    · simp only [Slot.addr, Range] at hlow hhigh hin
      rcases Nat.lt_trichotomy x y with hlt | rfl | hgt
      · have := hH.apart x y (hL x hx) hy hlt
        omega
      · omega
      · have := hH.apart y x hy (hL x hx) hgt
        omega

end Words

section Heads

variable {t c : Nat} {H : Nat → Prop} {mem : ByteMem} {bins : Nat → List Nat}

theorem FreeLists.head_mem (hlists : FreeLists mem t H bins) (hc : c < 768) (hne : get mem (.head t c) ≠ 0) :
    get mem (.head t c) ∈ bins c := by
  have hhead := (hlists.lists c hc).chain.head
  cases hbin : bins c with
  | nil =>
    rw [hbin] at hhead
    exact absurd hhead hne
  | cons x rest =>
    rw [hbin] at hhead
    rw [hhead]
    exact List.mem_cons_self

theorem FreeLists.head_node (hlists : FreeLists mem t H bins) (hc : c < 768) (hne : get mem (.head t c) ≠ 0) :
    Node H (get mem (.head t c)) :=
  hlists.node c hc _ (hlists.head_mem hc hne)

end Heads

section Bits

variable {t : Nat} {H : Nat → Prop} {mem : ByteMem} {s : Slot} {k : Nat}

theorem bit_index (hk : k < 32) :
    (UInt32.ofNat k >>> 5 : UInt32) = 0 ∧ (UInt32.ofNat k &&& 0x1f).toNat = k := by
  have hnat : (UInt32.ofNat k).toNat = k := by
    rw [UInt32.toNat_ofNat']
    omega
  have hfive : (5 : UInt32).toNat % 32 = 5 := rfl
  have hmask : (0x1f : UInt32).toNat = 2 ^ 5 - 1 := rfl
  constructor
  · rw [← UInt32.toNat_inj, UInt32.toNat_shiftRight, hfive, hnat, Nat.shiftRight_eq_div_pow, UInt32.toNat_zero]
    omega
  · rw [UInt32.toNat_and, hnat, hmask, Nat.and_two_pow_sub_one_eq_mod]
    omega

theorem set_bit_eq (mem : ByteMem) (s : Slot) (hk : k < 32) :
    ∃ v < 2 ^ 32, set_bit mem (UInt32.ofNat k) (UInt32.ofNat s.addr) = put mem s v ∧
      ∀ i, v.testBit i = ((get mem s).testBit i || decide (k = i)) := by
  obtain ⟨hword, hbit⟩ := bit_index hk
  refine ⟨(UInt32.ofNat (get mem s) ||| (1 : UInt32) <<< (UInt32.ofNat k &&& 0x1f)).toNat, UInt32.toNat_lt _, ?_, ?_⟩
  · have hzero : UInt32.ofNat s.addr + 4 * 0 = UInt32.ofNat s.addr := UInt32.add_zero _
    rw [set_bit, hword, hzero, load32_ofNat, put, UInt32.ofNat_toNat]
    rfl
  · intro i
    rw [testBit_set (by omega), hbit, UInt32.toNat_ofNat', Nat.mod_eq_of_lt (get_lt mem s)]

theorem clear_bit_eq (mem : ByteMem) (s : Slot) (hk : k < 32) :
    ∃ v < 2 ^ 32, clear_bit mem (UInt32.ofNat k) (UInt32.ofNat s.addr) = put mem s v ∧
      ∀ i, v.testBit i = ((get mem s).testBit i && decide (k ≠ i)) := by
  obtain ⟨hword, hbit⟩ := bit_index hk
  refine ⟨(UInt32.ofNat (get mem s) &&& ~~~((1 : UInt32) <<< (UInt32.ofNat k &&& 0x1f))).toNat,
    UInt32.toNat_lt _, ?_, ?_⟩
  · have hzero : UInt32.ofNat s.addr + 4 * 0 = UInt32.ofNat s.addr := UInt32.add_zero _
    rw [clear_bit, hword, hzero, load32_ofNat, put, UInt32.ofNat_toNat]
    rfl
  · intro i
    rw [testBit_clear (by omega), hbit, UInt32.toNat_ofNat', Nat.mod_eq_of_lt (get_lt mem s)]

end Bits

section Insert

variable {t b c p : Nat} {H L : Nat → Prop} {mem : ByteMem} {bins : Nat → List Nat}

/-- `if (p) p->ptr.free_ptr.prev = v` -/
theorem put_unless_null (mem : ByteMem) (hH : Headers t H) (hp : p ≠ 0 → Node H p) (k : Field) {v : Nat} (hv : v < 2 ^ 32) :
    ∀ s, s.Valid t H → get (if p ≠ 0 then put mem (.of p k) v else mem) s =
      if p ≠ 0 ∧ s = .of p k then v else get mem s := by
  intro s hs
  by_cases hnull : p ≠ 0
  · rw [if_pos hnull, get_put mem hH ((hp hnull).valid t k) hs hv]
    simp only [hnull, ne_eq, not_false_iff, true_and]
  · rw [if_neg hnull, if_neg fun h => hnull h.1]

theorem touches_unless_null {mem' : ByteMem} (hH : Headers t H) (hp : p ≠ 0 → Node H p) (hL : p ≠ 0 → L p) (k : Field)
    (hk : k = .prev ∨ k = .next) (v : Nat) (htouches : Touches (Links t L) mem mem') :
    Touches (Links t L) mem (if p ≠ 0 then put mem' (.of p k) v else mem') := by
  split
  · next hnull =>
    obtain rfl | rfl := hk
    · exact htouches.trans (touches_prev hH (hp hnull) (hL hnull) v)
    · exact htouches.trans (touches_next hH (hp hnull) (hL hnull) v)
  · exact htouches

theorem INSERT_BLOCK_get (hH : Headers t H) (hb : Node H b) (hc : c < 768) (hhead : get mem (.head t c) = p)
    (hp : p ≠ 0 → Node H p) :
    ∃ v w, (∀ i, v.testBit i = ((get mem (.row t (c / 32))).testBit i || decide (c % 32 = i))) ∧
      (∀ i, w.testBit i = ((get mem (.rows t)).testBit i || decide (c / 32 = i))) ∧
      (∀ s, s.Valid t H →
        get (INSERT_BLOCK mem (UInt32.ofNat b) (UInt32.ofNat t) (UInt32.ofNat (c / 32)) (UInt32.ofNat (c % 32))) s =
          if s = .rows t then w else if s = .row t (c / 32) then v else if s = .head t c then b
          else if p ≠ 0 ∧ s = .of p .prev then b else if s = .of b .next then p
          else if s = .of b .prev then 0 else get mem s) ∧
      ∀ L : Nat → Prop, L b → (p ≠ 0 → L p) → Touches (Links t L) mem
        (INSERT_BLOCK mem (UInt32.ofNat b) (UInt32.ofNat t) (UInt32.ofNat (c / 32)) (UInt32.ofNat (c % 32))) := by
  have hvhead : (Slot.head t c).Valid t H := ⟨rfl, hc⟩
  have hvrow : (Slot.row t (c / 32)).Valid t H := ⟨rfl, by omega⟩
  have hvrows : (Slot.rows t).Valid t H := rfl
  have hvprev := hb.valid t .prev
  have hvnext := hb.valid t .next
  have hblt : b < 2 ^ 32 := by have := hb.2; omega
  have hplt : p < 2 ^ 32 := hhead ▸ get_lt mem _
  have hnull : NULL = UInt32.ofNat 0 := rfl
  have hzero : (0 : UInt32) = UInt32.ofNat 0 := rfl
  -- the words after each store
  have e1 := fun s (hs : Slot.Valid t H s) => get_put mem hH hvprev hs (v := 0) (by decide)
  have h1 : get (put mem (.of b .prev) 0) (.head t c) = p := by simp [e1, hvhead, hhead]
  have e2 := fun s (hs : Slot.Valid t H s) => get_put (put mem (.of b .prev) 0) hH hvnext hs hplt
  have h2 : get (put (put mem (.of b .prev) 0) (.of b .next) p) (.head t c) = p := by simp [e2, h1, hvhead]
  have e3 := put_unless_null (put (put mem (.of b .prev) 0) (.of b .next) p) hH hp .prev hblt
  obtain ⟨m3, hm3⟩ : ∃ m3, m3 = if p ≠ 0 then put (put (put mem (.of b .prev) 0) (.of b .next) p) (.of p .prev) b
    else put (put mem (.of b .prev) 0) (.of b .next) p := ⟨_, rfl⟩
  rw [← hm3] at e3
  have e4 := fun s (hs : Slot.Valid t H s) => get_put m3 hH hvhead hs hblt
  obtain ⟨v, hv, hset, hvbits⟩ := set_bit_eq (put m3 (.head t c) b) (.row t (c / 32)) (k := c % 32) (by omega)
  have e5 := fun s (hs : Slot.Valid t H s) => get_put (put m3 (.head t c) b) hH hvrow hs hv
  obtain ⟨w, hw, hset', hwbits⟩ :=
    set_bit_eq (put (put m3 (.head t c) b) (.row t (c / 32)) v) (.rows t) (k := c / 32) (by omega)
  have e6 := fun s (hs : Slot.Valid t H s) => get_put (put (put m3 (.head t c) b) (.row t (c / 32)) v) hH hvrows hs hw
  have hcode : INSERT_BLOCK mem (UInt32.ofNat b) (UInt32.ofNat t) (UInt32.ofNat (c / 32)) (UInt32.ofNat (c % 32)) =
      put (put (put m3 (.head t c) b) (.row t (c / 32)) v) (.rows t) w := by
    simp only [INSERT_BLOCK, hnull, set_free_prev_eq, matrix_eq, h1, set_free_next_eq, h2, ofNat_ne_zero_iff hplt,
      ← hm3, set_matrix_eq, sl_bitmap_at_eq, hset, fl_bitmap_at_eq, hset']
  refine ⟨v, w, fun i => ?_, fun i => ?_, fun s hs => ?_, fun L hLb hLp => ?_⟩
  · simp [hvbits, e4, e3, e2, e1, hvrow]
  · simp [hwbits, e5, e4, e3, e2, e1, hvrows]
  · rw [hcode, e6 s hs, e5 s hs, e4 s hs, e3 s hs, e2 s hs, e1 s hs]
  · have hlinks : Touches (Links t L) mem (put (put mem (.of b .prev) 0) (.of b .next) p) :=
      (touches_prev hH hb hLb 0).trans (touches_next hH hb hLb p)
    have h3 : Touches (Links t L) mem m3 := by
      rw [hm3]
      exact touches_unless_null hH hp hLp .prev (Or.inl rfl) b hlinks
    have h4 := h3.trans (touches_control hH hvhead (fun x k h => by cases h) b)
    have h5 := h4.trans (touches_control hH hvrow (fun x k h => by cases h) v)
    have h6 := h5.trans (touches_control hH hvrows (fun x k h => by cases h) w)
    rw [hcode]
    exact h6

/-- A block that is put into a list is its first one. -/
theorem FreeLists.insert (hlists : FreeLists mem t H bins) (hH : Headers t H) (hb : Node H b) (hc : c < 768)
    (hnew : ∀ c' < 768, b ∉ bins c') :
    FreeLists (INSERT_BLOCK mem (UInt32.ofNat b) (UInt32.ofNat t) (UInt32.ofNat (c / 32)) (UInt32.ofNat (c % 32)))
      t H (fun c' => if c' = c then b :: bins c else bins c') := by
  have hpnode := hlists.head_node hc
  have hpmem := hlists.head_mem hc
  have hbne := hb.ne_zero hH
  have hbin := hlists.lists c hc
  obtain ⟨v, w, hv, hw, hget, -⟩ := INSERT_BLOCK_get hH hb hc rfl hpnode
  generalize INSERT_BLOCK mem _ _ _ _ = mem' at hget ⊢
  generalize get mem (.head t c) = p at hbin hpmem hget
  have hnext : ∀ x, Node H x → next mem' x = if x = b then p else next mem x := fun x hx => by
    simpa [next] using hget _ (hx.valid t .next)
  have hprev : ∀ x, Node H x → prev mem' x = if p ≠ 0 ∧ x = p then b else if x = b then 0 else prev mem x :=
    fun x hx => by simpa [prev] using hget _ (hx.valid t .prev)
  have hheads : ∀ c' < 768, get mem' (.head t c') = if c' = c then b else get mem (.head t c') :=
    fun c' hc' => by simpa using hget (.head t c') ⟨rfl, hc'⟩
  have hrow : ∀ f < 24, get mem' (.row t f) = if f = c / 32 then v else get mem (.row t f) :=
    fun f hf => by simpa using hget (.row t f) ⟨rfl, hf⟩
  have hrows : get mem' (.rows t) = w := by simpa using hget (.rows t) rfl
  refine ⟨fun c' hc' => ?_, fun c' hc' => ?_, fun f hf => ?_, ?_, fun c' hc' x hx => ?_,
    fun c₁ hc₁ c₂ hc₂ x hx₁ hx₂ => ?_⟩
  · rw [hheads c' hc']
    split
    · next heq =>
      apply hbin.push hbne
      · rw [hnext b hb, if_pos rfl]
      · have hbp : ¬ (p ≠ 0 ∧ b = p) := fun h => hnew c hc (h.2 ▸ hpmem h.1)
        rw [hprev b hb, if_neg hbp, if_pos rfl]
      · intro x hx
        rw [hnext x (hlists.node c hc x hx), if_neg (ne_of_mem_of_not_mem hx (hnew c hc))]
      · intro x hx
        have hxne := (hlists.node c hc x hx).ne_zero hH
        have hiff : (p ≠ 0 ∧ x = p) ↔ x = p := ⟨And.right, fun h => ⟨h ▸ hxne, h⟩⟩
        rw [hprev x (hlists.node c hc x hx), if_neg (ne_of_mem_of_not_mem hx (hnew c hc))]
        simp only [hiff]
    · next hne =>
      apply (hlists.lists c' hc').congr
      · intro x hx
        rw [hnext x (hlists.node c' hc' x hx), if_neg (ne_of_mem_of_not_mem hx (hnew c' hc'))]
      · intro x hx
        have hxp : ¬ (p ≠ 0 ∧ x = p) := fun h => hne (hlists.apart c' hc' c hc x hx (h.2 ▸ hpmem h.1))
        rw [hprev x (hlists.node c' hc' x hx), if_neg hxp, if_neg (ne_of_mem_of_not_mem hx (hnew c' hc'))]
  · rw [hrow (c' / 32) (by omega)]
    by_cases heq : c' = c
    · rw [if_pos (by rw [heq]), if_pos heq, hv]
      simp [heq]
    · rw [if_neg heq, ← hlists.row c' hc']
      split
      · next hf =>
        have hcol : c % 32 ≠ c' % 32 := by omega
        rw [hv, ← hf]
        simp [hcol]
      · rfl
  · rw [hrows, hw, hrow f hf]
    split
    · next heq =>
      have hset : v.testBit (c % 32) = true := by simp [hv]
      have hvne : v ≠ 0 := by
        rintro rfl
        rw [Nat.zero_testBit] at hset
        cases hset
      simp [heq, hvne]
    · next hne =>
      have hne' : c / 32 ≠ f := fun h => hne h.symm
      rw [← hlists.rows f hf]
      simp [hne']
  · rw [hrows]
    apply Nat.lt_pow_two_of_testBit
    intro i hi
    have hne : c / 32 ≠ i := by omega
    have hold := Nat.testBit_lt_two_pow (Nat.lt_of_lt_of_le hlists.rows_lt (Nat.pow_le_pow_right (by decide) hi))
    simp [hw, hold, hne]
  · split at hx
    · obtain rfl | hx := List.mem_cons.mp hx
      · exact hb
      · exact hlists.node c hc x hx
    · exact hlists.node c' hc' x hx
  · have hmem : ∀ c' < 768, x ∈ (if c' = c then b :: bins c else bins c') → (x = b ∧ c' = c) ∨ x ∈ bins c' := by
      intro c' hc' hx
      split at hx
      · next heq =>
        obtain rfl | hx := List.mem_cons.mp hx
        · exact Or.inl ⟨rfl, heq⟩
        · exact Or.inr (heq ▸ hx)
      · exact Or.inr hx
    rcases hmem c₁ hc₁ hx₁ with ⟨hx, h₁⟩ | h₁ <;> rcases hmem c₂ hc₂ hx₂ with ⟨hx', h₂⟩ | h₂
    · rw [h₁, h₂]
    · exact absurd (hx ▸ h₂) (hnew c₂ hc₂)
    · exact absurd (hx' ▸ h₁) (hnew c₁ hc₁)
    · exact hlists.apart c₁ hc₁ c₂ hc₂ x h₁ h₂

end Insert

section Extract

variable {t b c n p q : Nat} {H : Nat → Prop} {mem : ByteMem} {bins : Nat → List Nat}

/-- The bit of a list is turned off, and that of its row if no other list of the row has one. -/
theorem clear_bits_get (mem : ByteMem) (hH : Headers t H) (hc : c < 768) :
    ∃ v w, (∀ i, v.testBit i = ((get mem (.row t (c / 32))).testBit i && decide (c % 32 ≠ i))) ∧
      (∀ i, w.testBit i = ((get mem (.rows t)).testBit i && decide (c / 32 ≠ i))) ∧
      (∀ s, s.Valid t H →
        get (clear_bits mem (UInt32.ofNat t) (UInt32.ofNat (c / 32)) (UInt32.ofNat (c % 32))) s =
          if s = .row t (c / 32) then v else if v = 0 ∧ s = .rows t then w else get mem s) ∧
      ∀ L : Nat → Prop, Touches (Links t L) mem
        (clear_bits mem (UInt32.ofNat t) (UInt32.ofNat (c / 32)) (UInt32.ofNat (c % 32))) := by
  have hvrow : (Slot.row t (c / 32)).Valid t H := ⟨rfl, by omega⟩
  have hvrows : (Slot.rows t).Valid t H := rfl
  obtain ⟨v, hv, hclear, hvbits⟩ := clear_bit_eq mem (.row t (c / 32)) (k := c % 32) (by omega)
  have e1 := fun s (hs : Slot.Valid t H s) => get_put mem hH hvrow hs hv
  have h1 : get (put mem (.row t (c / 32)) v) (.row t (c / 32)) = v := by simp [e1, hvrow]
  obtain ⟨w, hw, hclear', hwbits⟩ := clear_bit_eq (put mem (.row t (c / 32)) v) (.rows t) (k := c / 32) (by omega)
  have e2 := fun s (hs : Slot.Valid t H s) => get_put (put mem (.row t (c / 32)) v) hH hvrows hs hw
  have hzero := ofNat_eq_zero_iff hv
  have hcode : clear_bits mem (UInt32.ofNat t) (UInt32.ofNat (c / 32)) (UInt32.ofNat (c % 32)) =
      if v = 0 then put (put mem (.row t (c / 32)) v) (.rows t) w else put mem (.row t (c / 32)) v := by
    simp only [clear_bits, sl_bitmap_at_eq, hclear, sl_bitmap_eq, h1, hzero, fl_bitmap_at_eq, hclear']
  refine ⟨v, w, hvbits, fun i => ?_, fun s hs => ?_, fun L => ?_⟩
  · simp [hwbits, e1, hvrows]
  · rw [hcode]
    split
    · next hnone =>
      rw [e2 s hs, e1 s hs]
      by_cases hs' : s = .rows t
      · simp [hs', hnone]
      · simp [hs']
    · next hsome =>
      rw [e1 s hs]
      simp [hsome]
  · have hfirst : Touches (Links t L) mem (put mem (.row t (c / 32)) v) :=
      touches_control hH hvrow (fun x k h => by cases h) v
    rw [hcode]
    split
    · exact hfirst.trans (touches_control hH hvrows (fun x k h => by cases h) w)
    · exact hfirst

theorem EXTRACT_BLOCK_get (hH : Headers t H) (hb : Node H b) (hc : c < 768) (hhead : get mem (.head t c) = p)
    (hn : next mem b = n) (hq : prev mem b = q) (hnnode : n ≠ 0 → Node H n) (hqnode : q ≠ 0 → Node H q)
    (hnb : n ≠ b) (hqb : q ≠ b) :
    ∃ v w, (∀ i, v.testBit i = ((get mem (.row t (c / 32))).testBit i && decide (c % 32 ≠ i))) ∧
      (∀ i, w.testBit i = ((get mem (.rows t)).testBit i && decide (c / 32 ≠ i))) ∧
      (∀ s, s.Valid t H →
        get (EXTRACT_BLOCK mem (UInt32.ofNat b) (UInt32.ofNat t) (UInt32.ofNat (c / 32)) (UInt32.ofNat (c % 32))) s =
          if s = .of b .next ∨ s = .of b .prev then 0
          else if p = b ∧ n = 0 ∧ s = .row t (c / 32) then v
          else if p = b ∧ n = 0 ∧ v = 0 ∧ s = .rows t then w
          else if p = b ∧ s = .head t c then n
          else if q ≠ 0 ∧ s = .of q .next then n
          else if n ≠ 0 ∧ s = .of n .prev then q else get mem s) ∧
      ∀ L : Nat → Prop, L b → (n ≠ 0 → L n) → (q ≠ 0 → L q) → Touches (Links t L) mem
        (EXTRACT_BLOCK mem (UInt32.ofNat b) (UInt32.ofNat t) (UInt32.ofNat (c / 32)) (UInt32.ofNat (c % 32))) := by
  have hvhead : (Slot.head t c).Valid t H := ⟨rfl, hc⟩
  have hvprev := hb.valid t .prev
  have hvnext := hb.valid t .next
  have hnlt : n < 2 ^ 32 := hn ▸ get_lt mem _
  have hqlt : q < 2 ^ 32 := hq ▸ get_lt mem _
  have hplt : p < 2 ^ 32 := hhead ▸ get_lt mem _
  have hblt : b < 2 ^ 32 := by have := hb.2; omega
  have hnull : NULL = UInt32.ofNat 0 := rfl
  unfold next at hn
  unfold prev at hq
  -- the pointers of the neighbours
  have e1 := put_unless_null mem hH hnnode .prev hqlt
  obtain ⟨m1, hm1⟩ : ∃ m1, m1 = if n ≠ 0 then put mem (.of n .prev) q else mem := ⟨_, rfl⟩
  rw [← hm1] at e1
  have h1q : get m1 (.of b .prev) = q := by simp [e1, hvprev, hq, hnb.symm]
  have h1n : get m1 (.of b .next) = n := by simp [e1, hvnext, hn]
  have e2 := put_unless_null m1 hH hqnode .next hnlt
  obtain ⟨m2, hm2⟩ : ∃ m2, m2 = if q ≠ 0 then put m1 (.of q .next) n else m1 := ⟨_, rfl⟩
  rw [← hm2] at e2
  have h2n : get m2 (.of b .next) = n := by simp [e2, hvnext, h1n, hqb.symm]
  have h2p : get m2 (.head t c) = p := by simp [e2, e1, hvhead, hhead]
  -- the head of the list, and the bits if it was the only block
  have e3 := fun s (hs : Slot.Valid t H s) => get_put m2 hH hvhead hs hnlt
  have h3 : get (put m2 (.head t c) n) (.head t c) = n := by simp [e3, hvhead]
  obtain ⟨v, w, hvbits, hwbits, e4, t4⟩ := clear_bits_get (put m2 (.head t c) n) hH hc
  obtain ⟨m3, hm3⟩ : ∃ m3, m3 = if p = b then
      if n = 0 then clear_bits (put m2 (.head t c) n) (UInt32.ofNat t) (UInt32.ofNat (c / 32)) (UInt32.ofNat (c % 32))
      else put m2 (.head t c) n
    else m2 := ⟨_, rfl⟩
  have e5 : ∀ s, s.Valid t H → get m3 s =
      if p = b ∧ n = 0 ∧ s = .row t (c / 32) then v
      else if p = b ∧ n = 0 ∧ v = 0 ∧ s = .rows t then w
      else if p = b ∧ s = .head t c then n else get m2 s := by
    intro s hs
    by_cases hfirst : p = b
    · by_cases hlast : n = 0
      · rw [hm3, if_pos hfirst, if_pos hlast, e4 s hs, e3 s hs]
        simp only [hfirst, hlast, true_and]
      · rw [hm3, if_pos hfirst, if_neg hlast, e3 s hs]
        simp only [hfirst, hlast, true_and, false_and, and_false, if_false]
    · rw [hm3, if_neg hfirst]
      simp only [hfirst, false_and, if_false]
  have e6 := fun s (hs : Slot.Valid t H s) => get_put m3 hH hvprev hs (v := 0) (by decide)
  have e7 := fun s (hs : Slot.Valid t H s) => get_put (put m3 (.of b .prev) 0) hH hvnext hs (v := 0) (by decide)
  have hcode : EXTRACT_BLOCK mem (UInt32.ofNat b) (UInt32.ofNat t) (UInt32.ofNat (c / 32)) (UInt32.ofNat (c % 32)) =
      put (put m3 (.of b .prev) 0) (.of b .next) 0 := by
    simp only [EXTRACT_BLOCK, hnull, free_next_eq, free_prev_eq, set_free_prev_eq, set_free_next_eq, hn, hq,
      ofNat_ne_zero_iff hnlt, ofNat_ne_zero_iff hqlt, ← hm1, h1q, h1n, ← hm2, h2n, matrix_eq, h2p,
      ofNat_eq_iff hplt hblt, set_matrix_eq, h3, ofNat_eq_zero_iff hnlt, ← hm3]
  refine ⟨v, w, fun i => ?_, fun i => ?_, fun s hs => ?_, fun L hLb hLn hLq => ?_⟩
  · have hvrow : (Slot.row t (c / 32)).Valid t H := ⟨rfl, by omega⟩
    simp [hvbits, e3, e2, e1, hvrow]
  · have hvrows : (Slot.rows t).Valid t H := rfl
    simp [hwbits, e3, e2, e1, hvrows]
  · rw [hcode, e7 s hs, e6 s hs, e5 s hs, e2 s hs, e1 s hs]
    by_cases hs' : s = .of b .next
    · simp [hs']
    · simp [hs']
  · have t1 : Touches (Links t L) mem m1 := hm1 ▸ touches_unless_null hH hnnode hLn .prev (Or.inl rfl) q (.refl mem)
    have t2 : Touches (Links t L) mem m2 := hm2 ▸ touches_unless_null hH hqnode hLq .next (Or.inr rfl) n t1
    have t3 : Touches (Links t L) mem (put m2 (.head t c) n) :=
      t2.trans (touches_control hH hvhead (fun x k h => by cases h) n)
    have t5 : Touches (Links t L) mem m3 := by
      rw [hm3]
      split
      · split
        · exact t3.trans (t4 L)
        · exact t3
      · exact t2
    rw [hcode]
    exact (t5.trans (touches_prev hH hb hLb 0)).trans (touches_next hH hb hLb 0)

/-- What the links of a block in a list lead to. -/
theorem FreeLists.links (hlists : FreeLists mem t H bins) (hc : c < 768) (hb : b ∈ bins c) :
    (next mem b ≠ 0 → next mem b ∈ bins c) ∧ (prev mem b ≠ 0 → prev mem b ∈ bins c) ∧
      next mem b ≠ b ∧ prev mem b ≠ b := by
  have hbne := (hlists.lists c hc).chain.ne_null hb
  have hbin := hlists.lists c hc
  obtain ⟨before, after, hsplit⟩ := List.append_of_mem hb
  rw [hsplit] at hbin ⊢
  have hnodup := List.nodup_append.mp hbin.chain.nodup
  obtain ⟨hback, hforth⟩ := hbin.neighbours
  have hafter : after.headD 0 = 0 ∨ after.headD 0 ∈ after := by
    cases after with
    | nil => exact Or.inl rfl
    | cons x after => exact Or.inr List.mem_cons_self
  have hbefore : before.getLastD 0 = 0 ∨ before.getLastD 0 ∈ before := by
    cases before with
    | nil => exact Or.inl rfl
    | cons x before =>
      rw [List.getLastD_cons]
      exact Or.inr List.getLastD_mem_cons
  rw [hback, hforth]
  refine ⟨fun hne => ?_, fun hne => ?_, fun heq => ?_, fun heq => ?_⟩
  · exact List.mem_append_right _ (List.mem_cons_of_mem _ (hafter.resolve_left hne))
  · exact List.mem_append_left _ (hbefore.resolve_left hne)
  · have hmem := hafter.resolve_left (heq ▸ hbne)
    exact (List.nodup_cons.mp hnodup.2.1).1 (heq ▸ hmem)
  · have hmem := hbefore.resolve_left (heq ▸ hbne)
    exact hnodup.2.2 b (heq ▸ hmem) b List.mem_cons_self rfl

/-- A block that is taken out of its list. -/
theorem FreeLists.extract (hlists : FreeLists mem t H bins) (hH : Headers t H) (hc : c < 768) (hb : b ∈ bins c) :
    FreeLists (EXTRACT_BLOCK mem (UInt32.ofNat b) (UInt32.ofNat t) (UInt32.ofNat (c / 32)) (UInt32.ofNat (c % 32)))
      t H (fun c' => (bins c').filter (· ≠ b)) := by
  have hbnode := hlists.node c hc b hb
  have hbin := hlists.lists c hc
  obtain ⟨hnmem, hqmem, hnb, hqb⟩ := hlists.links hc hb
  have hother : ∀ c' < 768, c' ≠ c → b ∉ bins c' := fun c' hc' hne hmem =>
    hne (hlists.apart c' hc' c hc b hmem hb)
  have hsame : ∀ c' < 768, c' ≠ c → (bins c').filter (· ≠ b) = bins c' := by
    intro c' hc' hne
    rw [List.filter_eq_self]
    intro x hx
    exact decide_eq_true (ne_of_mem_of_not_mem hx (hother c' hc' hne))
  obtain ⟨v, w, hv, hw, hget, -⟩ := EXTRACT_BLOCK_get hH hbnode hc rfl rfl rfl
    (fun hne => hlists.node c hc _ (hnmem hne)) (fun hne => hlists.node c hc _ (hqmem hne)) hnb hqb
  generalize EXTRACT_BLOCK mem _ _ _ _ = mem' at hget ⊢
  obtain ⟨before, after, hsplit⟩ := List.append_of_mem hb
  have hnodup := hbin.chain.nodup
  rw [hsplit] at hnodup
  obtain ⟨-, hnodup', hdisjoint⟩ := List.nodup_append.mp hnodup
  have hbefore : ∀ x ∈ before, x ≠ b := fun x hx => hdisjoint x hx b List.mem_cons_self
  have hafter : ∀ x ∈ after, x ≠ b := fun x hx => ne_of_mem_of_not_mem hx (List.nodup_cons.mp hnodup').1
  have hrest : (bins c).filter (· ≠ b) = before ++ after := by
    have hleft : before.filter (· ≠ b) = before :=
      List.filter_eq_self.mpr fun x hx => decide_eq_true (hbefore x hx)
    have hright : after.filter (· ≠ b) = after :=
      List.filter_eq_self.mpr fun x hx => decide_eq_true (hafter x hx)
    rw [hsplit, List.filter_append, List.filter_cons_of_neg (by simp), hleft, hright]
  have hrestmem : ∀ x ∈ before ++ after, x ∈ bins c ∧ x ≠ b := by
    intro x hx
    rw [← hrest, List.mem_filter] at hx
    exact ⟨hx.1, of_decide_eq_true hx.2⟩
  rw [hsplit] at hbin
  have hfirst : (get mem (.head t c) = b ∧ next mem b = 0) ↔ before ++ after = [] := by
    rw [hbin.chain.head, hbin.neighbours.2, List.append_eq_nil_iff]
    constructor
    · rintro ⟨hhead, htail⟩
      refine ⟨?_, ?_⟩
      · cases before with
        | nil => rfl
        | cons x before => exact absurd hhead (hbefore x List.mem_cons_self)
      · cases after with
        | nil => rfl
        | cons x after =>
          have hx : x ∈ before ++ b :: x :: after := by simp
          exact absurd htail (hbin.chain.ne_null hx)
    · rintro ⟨rfl, rfl⟩
      exact ⟨rfl, rfl⟩
  have hnext : ∀ x, Node H x → x ≠ b → next mem' x = if x = prev mem b then next mem b else next mem x := by
    intro x hx hxb
    have hxne := hx.ne_zero hH
    have hiff : (prev mem b ≠ 0 ∧ x = prev mem b) ↔ x = prev mem b := ⟨And.right, fun h => ⟨h ▸ hxne, h⟩⟩
    have hword := hget _ (hx.valid t .next)
    simpa [next, hxb, hiff] using hword
  have hprev : ∀ x, Node H x → x ≠ b → prev mem' x = if x = next mem b then prev mem b else prev mem x := by
    intro x hx hxb
    have hxne := hx.ne_zero hH
    have hiff : (next mem b ≠ 0 ∧ x = next mem b) ↔ x = next mem b := ⟨And.right, fun h => ⟨h ▸ hxne, h⟩⟩
    have hword := hget _ (hx.valid t .prev)
    simpa [prev, hxb, hiff] using hword
  have hheads : ∀ c' < 768, get mem' (.head t c') =
      if get mem (.head t c) = b ∧ c' = c then next mem b else get mem (.head t c') :=
    fun c' hc' => by simpa using hget (.head t c') ⟨rfl, hc'⟩
  have hrow : ∀ f < 24, get mem' (.row t f) =
      if get mem (.head t c) = b ∧ next mem b = 0 ∧ f = c / 32 then v else get mem (.row t f) :=
    fun f hf => by simpa using hget (.row t f) ⟨rfl, hf⟩
  have hrows : get mem' (.rows t) =
      if get mem (.head t c) = b ∧ next mem b = 0 ∧ v = 0 then w else get mem (.rows t) := by
    simpa using hget (.rows t) rfl
  have hbit := (hlists.row c hc).mpr (List.ne_nil_of_mem hb)
  have hrowne : get mem (.row t (c / 32)) ≠ 0 := by
    intro hzero
    rw [hzero, Nat.zero_testBit] at hbit
    cases hbit
  have hrowsbit := (hlists.rows (c / 32) (by omega)).mpr hrowne
  refine ⟨fun c' hc' => ?_, fun c' hc' => ?_, fun f hf => ?_, ?_, fun c' hc' x hx => ?_,
    fun c₁ hc₁ c₂ hc₂ x hx₁ hx₂ => ?_⟩
  · rw [hheads c' hc']
    by_cases heq : c' = c
    · have hzero : 0 ∉ before ++ b :: after := fun h => hbin.chain.ne_null h rfl
      have hunlink := hbin.unlink hzero
        (fun x hx => hnext x (hlists.node c hc x (hrestmem x hx).1) (hrestmem x hx).2)
        (fun x hx => hprev x (hlists.node c hc x (hrestmem x hx).1) (hrestmem x hx).2)
      rw [heq, hrest]
      simpa using hunlink
    · rw [if_neg fun h => heq h.2, hsame c' hc' heq]
      have hout : ∀ y, (y ≠ 0 → y ∈ bins c) → ∀ x ∈ bins c', x ≠ y := by
        rintro y hy x hx rfl
        exact heq (hlists.apart c' hc' c hc x hx (hy ((hlists.lists c' hc').chain.ne_null hx)))
      apply (hlists.lists c' hc').congr
      · intro x hx
        rw [hnext x (hlists.node c' hc' x hx) (ne_of_mem_of_not_mem hx (hother c' hc' heq)), if_neg (hout _ hqmem x hx)]
      · intro x hx
        rw [hprev x (hlists.node c' hc' x hx) (ne_of_mem_of_not_mem hx (hother c' hc' heq)), if_neg (hout _ hnmem x hx)]
  · rw [hrow (c' / 32) (by omega)]
    by_cases heq : c' = c
    · rw [heq, hrest]
      by_cases hlast : get mem (.head t c) = b ∧ next mem b = 0
      · rw [if_pos ⟨hlast.1, hlast.2, rfl⟩, hv, hfirst.mp hlast]
        simp
      · rw [if_neg fun h => hlast ⟨h.1, h.2.1⟩, hbit]
        simpa using mt hfirst.mpr hlast
    · rw [hsame c' hc' heq, ← hlists.row c' hc']
      split
      · next hcleared =>
        have hcol : c % 32 ≠ c' % 32 := by omega
        rw [hv, ← hcleared.2.2]
        simp [hcol]
      · rfl
  · rw [hrows, hrow f hf]
    by_cases heq : f = c / 32
    · by_cases hlast : get mem (.head t c) = b ∧ next mem b = 0
      · by_cases hnone : v = 0
        · rw [if_pos ⟨hlast.1, hlast.2, hnone⟩, if_pos ⟨hlast.1, hlast.2, heq⟩, hw, heq]
          simp [hnone]
        · rw [if_neg fun h => hnone h.2.2, if_pos ⟨hlast.1, hlast.2, heq⟩, heq, hrowsbit]
          simp [hnone]
      · rw [if_neg fun h => hlast ⟨h.1, h.2.1⟩, if_neg fun h => hlast ⟨h.1, h.2.1⟩]
        exact hlists.rows f hf
    · have hother' : ¬ (get mem (.head t c) = b ∧ next mem b = 0 ∧ f = c / 32) := fun h => heq h.2.2
      rw [if_neg hother', ← hlists.rows f hf]
      split
      · have hne : c / 32 ≠ f := fun h => heq h.symm
        rw [hw]
        simp [hne]
      · rfl
  · rw [hrows]
    split
    · apply Nat.lt_pow_two_of_testBit
      intro i hi
      have hold := Nat.testBit_lt_two_pow (Nat.lt_of_lt_of_le hlists.rows_lt (Nat.pow_le_pow_right (by decide) hi))
      rw [hw, hold, Bool.false_and]
    · exact hlists.rows_lt
  · exact hlists.node c' hc' x (List.mem_filter.mp hx).1
  · exact hlists.apart c₁ hc₁ c₂ hc₂ x (List.mem_filter.mp hx₁).1 (List.mem_filter.mp hx₂).1

/-- The first block of a list is extracted by `EXTRACT_BLOCK_HDR` just as by `EXTRACT_BLOCK`. -/
theorem EXTRACT_BLOCK_HDR_eq (hlists : FreeLists mem t H bins) (hH : Headers t H) (hc : c < 768)
    (hhead : get mem (.head t c) = b) (hne : b ≠ 0) :
    EXTRACT_BLOCK_HDR mem (UInt32.ofNat b) (UInt32.ofNat t) (UInt32.ofNat (c / 32)) (UInt32.ofNat (c % 32)) =
      EXTRACT_BLOCK mem (UInt32.ofNat b) (UInt32.ofNat t) (UInt32.ofNat (c / 32)) (UInt32.ofNat (c % 32)) := by
  have hb : b ∈ bins c := hhead ▸ hlists.head_mem hc (hhead ▸ hne)
  have hbnode := hlists.node c hc b hb
  obtain ⟨hnmem, -, hnb, -⟩ := hlists.links hc hb
  have hq : prev mem b = 0 := by
    have hbin := hlists.lists c hc
    cases hlist : bins c with
    | nil =>
      rw [hlist] at hb
      cases hb
    | cons x rest =>
      rw [hlist] at hbin
      obtain ⟨hx, -, hprev, -⟩ := hbin
      rw [← hhead, hx, hprev]
  have hnnode : next mem b ≠ 0 → Node H (next mem b) := fun h => hlists.node c hc _ (hnmem h)
  have hn : get mem (.of b .next) = next mem b := rfl
  have hq' : get mem (.of b .prev) = 0 := hq
  generalize next mem b = n at hn hnnode hnb
  have hvhead : (Slot.head t c).Valid t H := ⟨rfl, hc⟩
  have hvprev := hbnode.valid t .prev
  have hvnext := hbnode.valid t .next
  have hnlt : n < 2 ^ 32 := hn ▸ get_lt mem _
  have hblt : b < 2 ^ 32 := hhead ▸ get_lt mem _
  have hnull : NULL = UInt32.ofNat 0 := rfl
  have hzero : ¬ UInt32.ofNat 0 ≠ 0 := not_not.mpr rfl
  have e1 := fun s (hs : Slot.Valid t H s) => get_put mem hH hvhead hs hnlt
  have e2 := put_unless_null mem hH hnnode .prev (v := 0) (by decide)
  have h1 : get (put mem (.head t c) n) (.head t c) = n := by simp [e1, hvhead]
  have h2p : get (if n ≠ 0 then put mem (.of n .prev) 0 else mem) (.of b .prev) = 0 := by
    rw [e2 _ hvprev]
    simp [hnb.symm, hq']
  have h2n : get (if n ≠ 0 then put mem (.of n .prev) 0 else mem) (.of b .next) = n := by
    rw [e2 _ hvnext]
    simp [hn]
  have h2h : get (if n ≠ 0 then put mem (.of n .prev) 0 else mem) (.head t c) = b := by
    rw [e2 _ hvhead]
    simp [hhead]
  have h3 : get (put (if n ≠ 0 then put mem (.of n .prev) 0 else mem) (.head t c) n) (.head t c) = n := by
    rw [get_put _ hH hvhead hvhead hnlt, if_pos rfl]
  simp only [EXTRACT_BLOCK_HDR, EXTRACT_BLOCK, hnull, free_next_eq, free_prev_eq, set_matrix_eq, matrix_eq,
    set_free_prev_eq, set_free_next_eq, hn, hq', h1, ofNat_ne_zero_iff hnlt, h2p, h2n, if_neg hzero, h2h, if_true, h3,
    ofNat_eq_zero_iff hnlt]
  by_cases hlast : n = 0
  · simp only [hlast, ne_eq, not_true, if_false, if_true]
  · have hvn := (hnnode hlast).valid t .prev
    simp only [hlast, ne_eq, not_false_iff, if_true, if_false]
    rw [put_comm mem hH hvhead hvn (fun h => by cases h)]

theorem touches_extract (hlists : FreeLists mem t H bins) (hH : Headers t H) (hc : c < 768) (hb : b ∈ bins c) :
    Touches (Links t fun x => ∃ c < 768, x ∈ bins c) mem
      (EXTRACT_BLOCK mem (UInt32.ofNat b) (UInt32.ofNat t) (UInt32.ofNat (c / 32)) (UInt32.ofNat (c % 32))) := by
  obtain ⟨hnmem, hqmem, hnb, hqb⟩ := hlists.links hc hb
  obtain ⟨v, w, -, -, -, htouches⟩ := EXTRACT_BLOCK_get hH (hlists.node c hc b hb) hc rfl rfl rfl
    (fun hne => hlists.node c hc _ (hnmem hne)) (fun hne => hlists.node c hc _ (hqmem hne)) hnb hqb
  exact htouches _ ⟨c, hc, hb⟩ (fun hne => ⟨c, hc, hnmem hne⟩) fun hne => ⟨c, hc, hqmem hne⟩

end Extract

section Find

variable {t c : Nat} {H : Nat → Prop} {mem : ByteMem} {bins : Nat → List Nat}

/-- A bit of a row tells of its list. -/
theorem FreeLists.bit (hlists : FreeLists mem t H bins) {d : Nat} (hd : d < 768)
    (hbit : (get mem (.row t (d / 32))).testBit (d % 32) = false) : bins d = [] :=
  Decidable.not_not.mp fun hne => absurd ((hlists.row d hd).mpr hne) (by rw [hbit]; decide)

theorem FreeLists.row_empty (hlists : FreeLists mem t H bins) {d : Nat} (hd : d < 768)
    (hbit : (get mem (.rows t)).testBit (d / 32) = false) : bins d = [] := by
  apply hlists.bit hd
  have hzero : get mem (.row t (d / 32)) = 0 := Decidable.not_not.mp fun hne =>
    absurd ((hlists.rows (d / 32) (by omega)).mpr hne) (by rw [hbit]; decide)
  rw [hzero, Nat.zero_testBit]

/-- The bitmap words that a search reads: past the last row they are the heads of the first lists. -/
theorem FreeLists.row_past (hlists : FreeLists mem t H bins) (hfirst : bins 0 = []) (hsecond : bins 1 = [])
    {f : Nat} (hf : f = 24 ∨ f = 25) : get mem (.row t f) = 0 := by
  have hempty : ∀ c < 768, bins c = [] → get mem (.head t c) = 0 := by
    intro c hc hbin
    have hlist := hlists.lists c hc
    rw [hbin] at hlist
    exact hlist
  obtain rfl | rfl := hf
  · exact hempty 0 (by decide) hfirst
  · exact hempty 1 (by decide) hsecond

theorem ls_bit_eq {x : UInt32} {j : Nat} (hlow : Lowest x.toNat j) : ls_bit x = UInt32.ofNat j := by
  rw [← ls_bit_toNat hlow, UInt32.ofNat_toNat]

theorem toInt32_pos : ∀ j < 24, 0 < j → (UInt32.ofNat j).toInt32 > 0 := by decide

/-- The bits of a word from `k` on. -/
theorem testBit_mask {w k : Nat} (hw : w < 2 ^ 32) (hk : k < 32) (i : Nat) :
    (UInt32.ofNat w &&& (~~~0 <<< UInt32.ofNat k)).toNat.testBit i = (w.testBit i && decide (k ≤ i)) := by
  have hnat : (UInt32.ofNat k).toNat = k := by
    rw [UInt32.toNat_ofNat']
    omega
  rw [testBit_from (by omega), hnat, UInt32.toNat_ofNat', Nat.mod_eq_of_lt hw]

/-- The first list from `c` on that is not empty is found, and nothing if there is none. A
request that is too large for any list reads words of the first two lists for bitmaps. -/
theorem FIND_SUITABLE_BLOCK_eq (hlists : FreeLists mem t H bins) (hc : c < 832) (hfirst : bins 0 = [])
    (hsecond : bins 1 = []) :
    (∃ c', c ≤ c' ∧ c' < 768 ∧ bins c' ≠ [] ∧ (∀ d, c ≤ d → d < c' → bins d = []) ∧
        FIND_SUITABLE_BLOCK mem (UInt32.ofNat t) (UInt32.ofNat (c / 32)) (UInt32.ofNat (c % 32)) =
          (UInt32.ofNat (get mem (.head t c')), UInt32.ofNat (c' / 32), UInt32.ofNat (c' % 32))) ∨
      (∀ d, c ≤ d → d < 768 → bins d = []) ∧
        (FIND_SUITABLE_BLOCK mem (UInt32.ofNat t) (UInt32.ofNat (c / 32)) (UInt32.ofNat (c % 32))).1 = NULL := by
  have hpast := hlists.row_past hfirst hsecond (f := c / 32)
  have hmask := testBit_mask (get_lt mem (.row t (c / 32))) (Nat.mod_lt c (by decide : 0 < 32))
  rw [FIND_SUITABLE_BLOCK, sl_bitmap_eq]
  generalize UInt32.ofNat (get mem (.row t (c / 32))) &&& (~~~0 <<< UInt32.ofNat (c % 32)) = tmp at hmask ⊢
  by_cases htmp : tmp ≠ 0
  · -- in the row of `c`
    obtain ⟨j, hlow⟩ := exists_lowest fun h => htmp (UInt32.toNat_inj.mp h)
    have hj := lt_of_testBit hlow.1
    have hbit := hlow.1
    rw [hmask, Bool.and_eq_true, decide_eq_true_iff] at hbit
    have hrow : c / 32 < 24 := by
      refine Nat.lt_of_not_le fun hge => ?_
      rw [hpast (by omega), Nat.zero_testBit] at hbit
      cases hbit.1
    have hdiv : (32 * (c / 32) + j) / 32 = c / 32 := by omega
    have hmod : (32 * (c / 32) + j) % 32 = j := by omega
    left
    refine ⟨32 * (c / 32) + j, by omega, by omega, ?_, fun d hd hlt => ?_, ?_⟩
    · rw [← hlists.row _ (by omega), hdiv, hmod]
      exact hbit.1
    · apply hlists.bit (by omega)
      have hzero := hlow.2 (d % 32) (by omega)
      have hsame : d / 32 = c / 32 := by omega
      rw [hmask, decide_eq_true (by omega), Bool.and_true] at hzero
      rw [hsame]
      exact hzero
    · have hhead := matrix_eq mem t (32 * (c / 32) + j)
      rw [hdiv, hmod] at hhead
      rw [if_pos htmp, ls_bit_eq hlow]
      simp only [hhead, hdiv, hmod]
  · -- in a later row
    have hnone : ∀ d, c ≤ d → d < 768 → d / 32 = c / 32 → bins d = [] := by
      intro d hd hlt hsame
      apply hlists.bit hlt
      have hzero := hmask (d % 32)
      rw [Decidable.not_not.mp htmp, UInt32.toNat_zero, Nat.zero_testBit, decide_eq_true (by omega), Bool.and_true]
        at hzero
      rw [hsame]
      exact hzero.symm
    have hshift : UInt32.ofNat (c / 32) + 1 = UInt32.ofNat (c / 32 + 1) := (UInt32.ofNat_add _ 1).symm
    have hmask' := testBit_mask (get_lt mem (.rows t)) (show c / 32 + 1 < 32 by omega)
    rw [if_neg htmp, fl_bitmap_eq, hshift]
    generalize UInt32.ofNat (get mem (.rows t)) &&& (~~~0 <<< UInt32.ofNat (c / 32 + 1)) = rest at hmask' ⊢
    by_cases hrest : rest = 0
    · right
      refine ⟨fun d hd hlt => ?_, ?_⟩
      · by_cases hsame : d / 32 = c / 32
        · exact hnone d hd hlt hsame
        · apply hlists.row_empty hlt
          have hzero := hmask' (d / 32)
          rw [hrest, UInt32.toNat_zero, Nat.zero_testBit, decide_eq_true (by omega), Bool.and_true] at hzero
          exact hzero.symm
      · have hneg : ¬ (-1 : UInt32).toInt32 > 0 := by decide
        rw [hrest, ls_bit_zero, if_neg hneg]
    · left
      obtain ⟨j, hlow⟩ := exists_lowest fun h => hrest (UInt32.toNat_inj.mp h)
      have hbit := hlow.1
      rw [hmask', Bool.and_eq_true, decide_eq_true_iff] at hbit
      have hj : j < 24 := by
        refine Nat.lt_of_not_le fun hge => ?_
        have hzero := Nat.testBit_lt_two_pow
          (Nat.lt_of_lt_of_le hlists.rows_lt (Nat.pow_le_pow_right (by decide) hge))
        rw [hzero] at hbit
        cases hbit.1
      obtain ⟨k, hlow'⟩ := exists_lowest ((hlists.rows j hj).mp hbit.1)
      have hnat : (UInt32.ofNat (get mem (.row t j))).toNat = get mem (.row t j) := by
        rw [UInt32.toNat_ofNat', Nat.mod_eq_of_lt (get_lt mem _)]
      rw [← hnat] at hlow'
      have hk := lt_of_testBit hlow'.1
      have hdiv : (32 * j + k) / 32 = j := by omega
      have hmod : (32 * j + k) % 32 = k := by omega
      refine ⟨32 * j + k, by omega, by omega, ?_, fun d hd hlt => ?_, ?_⟩
      · rw [← hlists.row _ (by omega), hdiv, hmod, ← hnat]
        exact hlow'.1
      · by_cases hsame : d / 32 = c / 32
        · exact hnone d hd (by omega) hsame
        · by_cases hlast : d / 32 = j
          · apply hlists.bit (by omega)
            rw [hlast, ← hnat]
            exact hlow'.2 _ (by omega)
          · apply hlists.row_empty (by omega)
            have hzero := hlow.2 (d / 32) (by omega)
            rw [hmask', decide_eq_true (by omega), Bool.and_true] at hzero
            exact hzero
      · have hhead := matrix_eq mem t (32 * j + k)
        rw [hdiv, hmod] at hhead
        rw [ls_bit_eq hlow, if_pos (toInt32_pos j hj (by omega)), sl_bitmap_eq, ls_bit_eq hlow']
        simp only [hhead, hdiv, hmod]

end Find

end epos.tlsf
