import Epos.Heap.Mapping

open bits bytes

namespace epos.tlsf

/-- The words of a `bhdr_t`. -/
inductive Field where
  | prev_hdr
  | size
  | prev
  | next
  deriving DecidableEq

def Field.offset : Field → Nat
  | prev_hdr => 0
  | size => 4
  | prev => 8
  | next => 12

/-- The words that the allocator keeps: those of the `tlsf_t` at `t`, and those of the
`bhdr_t` at `x`. -/
inductive Slot where
  | rows (t : Nat)
  | row (t f : Nat)
  | head (t c : Nat)
  | of (x : Nat) (k : Field)
  deriving DecidableEq

def Slot.addr : Slot → Nat
  | rows t => t + 8
  | row t f => t + 12 + 4 * f
  | head t c => t + 108 + 4 * c
  | of x k => x + k.offset

def get (mem : ByteMem) (s : Slot) : Nat := word mem s.addr

def put (mem : ByteMem) (s : Slot) (v : Nat) : ByteMem := store32 mem (UInt32.ofNat s.addr) (UInt32.ofNat v)

/-- Headers above the `tlsf_t`, none of which reaches into the words of another one. -/
structure Headers (t : Nat) (H : Nat → Prop) : Prop where
  pool : t + 3180 ≤ 2 ^ 32
  above : ∀ x, H x → t + 3180 ≤ x
  inside : ∀ x, H x → x + 8 ≤ 2 ^ 32
  apart : ∀ x y, H x → H y → x < y → x + 16 ≤ y

/-- The words that headers at `H` give a meaning to. -/
def Slot.Valid (t : Nat) (H : Nat → Prop) : Slot → Prop
  | rows t' => t' = t
  | row t' f => t' = t ∧ f < 24
  | head t' c => t' = t ∧ c < 768
  | of x k => H x ∧ x + k.offset + 4 ≤ 2 ^ 32

section Slots

variable {t : Nat} {H : Nat → Prop} {s s' : Slot} {mem : ByteMem}

theorem Field.offset_le (k : Field) : k.offset ≤ 12 := by cases k <;> decide

theorem Field.offset_apart {k k' : Field} (hne : k ≠ k') :
    k.offset + 4 ≤ k'.offset ∨ k'.offset + 4 ≤ k.offset := by
  cases k <;> cases k' <;> first | exact absurd rfl hne | decide

theorem Slot.Valid.fits (hH : Headers t H) (hs : s.Valid t H) : s.addr + 4 ≤ 2 ^ 32 := by
  have hpool := hH.pool
  cases s with
  | rows _ =>
    obtain rfl := hs
    simp only [Slot.addr]
    omega
  | row _ f =>
    obtain ⟨rfl, hf⟩ := hs
    simp only [Slot.addr]
    omega
  | head _ c =>
    obtain ⟨rfl, hc⟩ := hs
    simp only [Slot.addr]
    omega
  | of x k => exact hs.2

/-- The words of the `tlsf_t` are below those of the headers. -/
theorem Slot.Valid.below (hs : s.Valid t H) (hout : ∀ x k, s ≠ of x k) :
    t + 8 ≤ s.addr ∧ s.addr + 4 ≤ t + 3180 := by
  cases s with
  | rows _ =>
    obtain rfl := hs
    simp only [Slot.addr]
    omega
  | row _ f =>
    obtain ⟨rfl, hf⟩ := hs
    simp only [Slot.addr]
    omega
  | head _ c =>
    obtain ⟨rfl, hc⟩ := hs
    simp only [Slot.addr]
    omega
  | of x k => exact absurd rfl (hout x k)

/-- Two words do not overlap. -/
theorem Slot.Valid.apart (hH : Headers t H) (hs : s.Valid t H) (hs' : s'.Valid t H) (hne : s ≠ s') :
    s.addr + 4 ≤ s'.addr ∨ s'.addr + 4 ≤ s.addr := by
  cases s with
  | of x k =>
    have hx := hH.above x hs.1
    cases s' with
    | of y k' =>
      have hk := k.offset_le
      have hk' := k'.offset_le
      simp only [Slot.addr]
      rcases Nat.lt_trichotomy x y with hlt | rfl | hgt
      · have := hH.apart x y hs.1 hs'.1 hlt
        omega
      · have hkk : k ≠ k' := fun h => hne (h ▸ rfl)
        have := Field.offset_apart hkk
        omega
      · have := hH.apart y x hs'.1 hs.1 hgt
        omega
    | _ =>
      have hbelow := hs'.below fun x k h => by cases h
      simp only [Slot.addr] at hbelow ⊢
      omega
  | rows _ | row _ _ | head _ _ =>
    have hbelow := hs.below fun x k h => by cases h
    cases s' with
    | of y k =>
      have hy := hH.above y hs'.1
      simp only [Slot.addr] at hbelow ⊢
      omega
    | rows _ | row _ _ | head _ _ =>
      simp only [Slot.Valid, Slot.addr, ne_eq, Slot.rows.injEq, Slot.row.injEq, Slot.head.injEq] at hs hs' hne ⊢
      omega

theorem get_lt (mem : ByteMem) (s : Slot) : get mem s < 2 ^ 32 := word_lt mem s.addr

/-- A word that is written is read back, and no other word changes. -/
theorem get_put (mem : ByteMem) (hH : Headers t H) (hs : s.Valid t H) (hs' : s'.Valid t H) {v : Nat} (hv : v < 2 ^ 32) :
    get (put mem s v) s' = if s' = s then v else get mem s' := by
  unfold get put
  split
  · next heq => rw [heq, word_store32, UInt32.toNat_ofNat', Nat.mod_eq_of_lt hv]
  · next hne =>
    exact word_store32_of_ne mem _ (hs.fits hH) (hs'.fits hH) (hs.apart hH hs' fun h => hne h.symm)

theorem get_put_self (mem : ByteMem) (s : Slot) {v : Nat} (hv : v < 2 ^ 32) : get (put mem s v) s = v := by
  rw [get, put, word_store32, UInt32.toNat_ofNat', Nat.mod_eq_of_lt hv]

theorem get_put_of_ne (mem : ByteMem) (hH : Headers t H) (hs : s.Valid t H) (hs' : s'.Valid t H) (hne : s' ≠ s) (v : Nat) :
    get (put mem s v) s' = get mem s' :=
  word_store32_of_ne mem _ (hs.fits hH) (hs'.fits hH) (hs.apart hH hs' fun h => hne h.symm)

/-- Writing what is there changes nothing. -/
theorem put_get (mem : ByteMem) (s : Slot) : put mem s (get mem s) = mem := by
  rw [put, get, word, UInt32.ofNat_toNat, store32_load32]

theorem put_comm (mem : ByteMem) (hH : Headers t H) (hs : s.Valid t H) (hs' : s'.Valid t H) (hne : s ≠ s') (v w : Nat) :
    put (put mem s v) s' w = put (put mem s' w) s v :=
  store32_comm mem _ _ (hs.fits hH) (hs'.fits hH) (hs.apart hH hs' hne)

end Slots

section Fields

variable (mem : ByteMem) (t f c x v : Nat) (w : UInt32)

theorem ofNat_eq_iff {a b : Nat} (ha : a < 2 ^ 32) (hb : b < 2 ^ 32) : UInt32.ofNat a = UInt32.ofNat b ↔ a = b := by
  rw [← UInt32.toNat_inj, UInt32.toNat_ofNat', UInt32.toNat_ofNat', Nat.mod_eq_of_lt ha, Nat.mod_eq_of_lt hb]

theorem ofNat_eq_zero_iff {a : Nat} (ha : a < 2 ^ 32) : UInt32.ofNat a = 0 ↔ a = 0 :=
  ofNat_eq_iff ha (by decide)

theorem ofNat_ne_zero_iff {a : Nat} (ha : a < 2 ^ 32) : UInt32.ofNat a ≠ 0 ↔ a ≠ 0 :=
  not_congr (ofNat_eq_zero_iff ha)

theorem prev_hdr_eq : prev_hdr mem (UInt32.ofNat x) = UInt32.ofNat (get mem (.of x .prev_hdr)) := load32_ofNat mem _

theorem block_size_eq : block_size mem (UInt32.ofNat x) = UInt32.ofNat (get mem (.of x .size)) := by
  rw [get, ← load32_ofNat, Slot.addr, UInt32.ofNat_add]
  rfl

theorem free_prev_eq : free_prev mem (UInt32.ofNat x) = UInt32.ofNat (get mem (.of x .prev)) := by
  rw [get, ← load32_ofNat, Slot.addr, UInt32.ofNat_add]
  rfl

theorem free_next_eq : free_next mem (UInt32.ofNat x) = UInt32.ofNat (get mem (.of x .next)) := by
  rw [get, ← load32_ofNat, Slot.addr, UInt32.ofNat_add]
  rfl

theorem set_prev_hdr_eq : set_prev_hdr mem (UInt32.ofNat x) (UInt32.ofNat v) = put mem (.of x .prev_hdr) v := rfl

theorem set_size_eq : set_size mem (UInt32.ofNat x) (UInt32.ofNat v) = put mem (.of x .size) v := by
  rw [put, Slot.addr, UInt32.ofNat_add]
  rfl

theorem set_free_prev_eq : set_free_prev mem (UInt32.ofNat x) (UInt32.ofNat v) = put mem (.of x .prev) v := by
  rw [put, Slot.addr, UInt32.ofNat_add]
  rfl

theorem set_free_next_eq : set_free_next mem (UInt32.ofNat x) (UInt32.ofNat v) = put mem (.of x .next) v := by
  rw [put, Slot.addr, UInt32.ofNat_add]
  rfl

theorem fl_bitmap_at_eq : fl_bitmap_at (UInt32.ofNat t) = UInt32.ofNat (Slot.rows t).addr := by
  rw [Slot.addr, UInt32.ofNat_add]
  rfl

theorem fl_bitmap_eq : fl_bitmap mem (UInt32.ofNat t) = UInt32.ofNat (get mem (.rows t)) := by
  rw [get, ← load32_ofNat, Slot.addr, UInt32.ofNat_add]
  rfl

theorem sl_bitmap_at_eq : sl_bitmap_at (UInt32.ofNat t) (UInt32.ofNat f) = UInt32.ofNat (Slot.row t f).addr := by
  rw [Slot.addr, UInt32.ofNat_add, UInt32.ofNat_add, UInt32.ofNat_mul]
  rfl

theorem sl_bitmap_eq : sl_bitmap mem (UInt32.ofNat t) (UInt32.ofNat f) = UInt32.ofNat (get mem (.row t f)) := by
  rw [sl_bitmap, sl_bitmap_at_eq, load32_ofNat, get]

/-- List `c` is at row `c / 32` and column `c % 32`. -/
theorem matrix_at_eq : matrix_at (UInt32.ofNat t) (UInt32.ofNat (c / 32)) (UInt32.ofNat (c % 32)) =
    UInt32.ofNat (Slot.head t c).addr := by
  have hc : UInt32.ofNat c = 32 * UInt32.ofNat (c / 32) + UInt32.ofNat (c % 32) := by
    have hdiv := Nat.div_add_mod c 32
    rw [← hdiv, UInt32.ofNat_add, UInt32.ofNat_mul, hdiv]
    rfl
  rw [matrix_at, Slot.addr, UInt32.ofNat_add, UInt32.ofNat_add, UInt32.ofNat_mul, hc]
  rfl

theorem matrix_eq : matrix mem (UInt32.ofNat t) (UInt32.ofNat (c / 32)) (UInt32.ofNat (c % 32)) =
    UInt32.ofNat (get mem (.head t c)) := by
  rw [matrix, matrix_at_eq, load32_ofNat, get]

theorem set_matrix_eq : set_matrix mem (UInt32.ofNat t) (UInt32.ofNat (c / 32)) (UInt32.ofNat (c % 32))
    (UInt32.ofNat v) = put mem (.head t c) v := by
  rw [set_matrix, matrix_at_eq, put]

end Fields

end epos.tlsf
