import Epos.Heap.Invariant

open bytes tiles

namespace epos.tlsf

/-- The bytes that the allocator must leave alone: those out of the pool, and those of the
blocks in use. -/
def Guarded (t fin : Nat) (l : List Block) (a : Nat) : Prop :=
  a < t ∨ fin + 8 ≤ a ∨ ∃ b ∈ l, b.free = false ∧ b.addr + 8 ≤ a ∧ a < b.stop

section Guarded

variable {t fin : Nat} {l : List Block} {L : Nat → Prop} {a x : Nat}

theorem Shape.not_guarded_header (h : Shape t fin l) (hx : HeadersOf (l ++ [sentinel fin]) x) (ha : Range x 8 a) :
    ¬ Guarded t fin l a := by
  have habove := h.headers.above x hx
  obtain ⟨c, hc, rfl⟩ := hx
  unfold Range at ha
  have hend : c.addr + 8 ≤ fin + 8 ∧ ∀ b ∈ l, ¬ (b.addr + 8 ≤ a ∧ a < b.stop) := by
    obtain hc | hc := List.mem_append.mp hc
    · have hroom := h.bounds hc
      refine ⟨by omega, fun b hb hin => ?_⟩
      rcases Nat.lt_trichotomy b.addr c.addr with hlt | heq | hgt
      · have := h.tiles.apart hb hc hlt
        omega
      · omega
      · have := h.tiles.apart hc hb hgt
        omega
    · have haddr : c.addr = fin := by rw [List.mem_singleton.mp hc]; rfl
      refine ⟨by omega, fun b hb hin => ?_⟩
      have := h.bounds hb
      omega
  rintro (hlow | hhigh | ⟨b, hb, -, hin⟩)
  · omega
  · omega
  · exact hend.2 b hb hin

theorem Shape.not_guarded_free (h : Shape t fin l) {c : Block} (hc : c ∈ l) (hfree : c.free = true)
    (ha : c.addr ≤ a ∧ a < c.stop) : ¬ Guarded t fin l a := by
  have hroom := h.bounds hc
  rintro (hlow | hhigh | ⟨b, hb, hused, hin⟩)
  · omega
  · omega
  · have hne : b ≠ c := by
      rintro rfl
      rw [hfree] at hused
      cases hused
    rcases Nat.lt_trichotomy b.addr c.addr with hlt | heq | hgt
    · have := h.tiles.apart hb hc hlt
      omega
    · exact hne (h.tiles.unique hb hc heq)
    · have := h.tiles.apart hc hb hgt
      omega

theorem Shape.not_guarded_links (h : Shape t fin l) (hL : ∀ x, L x → ∃ b ∈ l, b.free = true ∧ b.addr = x)
    (ha : Links t L a) : ¬ Guarded t fin l a := by
  obtain hctl | ⟨x, hx, hlink⟩ := ha
  · have hlo := h.lo_le
    unfold Range at hctl
    rintro (hlow | hhigh | ⟨b, hb, -, hin⟩)
    · omega
    · omega
    · have := h.bounds hb
      omega
  · obtain ⟨b, hb, hfree, rfl⟩ := hL x hx
    have := h.bounds hb
    unfold Range at hlink
    exact h.not_guarded_free hb hfree ⟨by omega, by omega⟩

/-- Blocks in use that lie in blocks in use guard no more. -/
theorem Guarded.mono {l' : List Block} (hguard : Guarded t fin l a)
    (hinside : ∀ b ∈ l, b.free = false → b.addr + 8 ≤ a → a < b.stop →
      ∃ b' ∈ l', b'.free = false ∧ b'.addr + 8 ≤ a ∧ a < b'.stop) : Guarded t fin l' a := by
  obtain hlow | hhigh | ⟨b, hb, hfree, hlo, hhi⟩ := hguard
  · exact Or.inl hlow
  · exact Or.inr (Or.inl hhigh)
  · exact Or.inr (Or.inr (hinside b hb hfree hlo hhi))

end Guarded

section FreeLists

variable {mem : ByteMem} {t x : Nat} {H H' : Nat → Prop} {bins : Nat → List Nat} {k : Field}

theorem FreeLists.congr {mem' : ByteMem} (hlists : FreeLists mem t H bins)
    (hctl : ∀ s, s.Valid t H → (∀ x k, s ≠ .of x k) → get mem' s = get mem s)
    (hlinks : ∀ c < 768, ∀ x ∈ bins c, next mem' x = next mem x ∧ prev mem' x = prev mem x)
    (hnode : ∀ c < 768, ∀ x ∈ bins c, Node H' x) : FreeLists mem' t H' bins := by
  have hrows : get mem' (.rows t) = get mem (.rows t) := hctl _ rfl fun x k h => by cases h
  have hrow : ∀ f < 24, get mem' (.row t f) = get mem (.row t f) :=
    fun f hf => hctl _ ⟨rfl, hf⟩ fun x k h => by cases h
  refine ⟨fun c hc => ?_, fun c hc => ?_, fun f hf => ?_, ?_, hnode, hlists.apart⟩
  · rw [hctl (.head t c) ⟨rfl, hc⟩ fun x k h => by cases h]
    exact (hlists.lists c hc).congr (fun x hx => (hlinks c hc x hx).1) fun x hx => (hlinks c hc x hx).2
  · rw [hrow _ (by omega)]
    exact hlists.row c hc
  · rw [hrows, hrow f hf]
    exact hlists.rows f hf
  · rw [hrows]
    exact hlists.rows_lt

/-- Words of headers are no links, and neither are those of blocks that are in no list. -/
theorem FreeLists.put_word (hlists : FreeLists mem t H bins) (hH : Headers t H) (hv : (Slot.of x k).Valid t H)
    (hout : ∀ c < 768, x ∈ bins c → k.offset < 8) (v : Nat) : FreeLists (put mem (.of x k) v) t H bins := by
  refine hlists.congr (fun s hs hctl => ?_) (fun c hc y hy => ?_) hlists.node
  · exact get_put_of_ne mem hH hv hs (fun h => hctl x k h) v
  · have hnode := hlists.node c hc y hy
    constructor
    · refine get_put_of_ne mem hH hv (hnode.valid t .next) (fun h => ?_) v
      obtain ⟨rfl, rfl⟩ := Slot.of.inj h
      exact absurd (hout c hc hy) (by decide)
    · refine get_put_of_ne mem hH hv (hnode.valid t .prev) (fun h => ?_) v
      obtain ⟨rfl, rfl⟩ := Slot.of.inj h
      exact absurd (hout c hc hy) (by decide)

theorem FreeLists.other_headers (hlists : FreeLists mem t H bins) (hnode : ∀ c < 768, ∀ x ∈ bins c, Node H' x) :
    FreeLists mem t H' bins :=
  ⟨hlists.lists, hlists.row, hlists.rows, hlists.rows_lt, hnode, hlists.apart⟩

theorem header_valid (hH : Headers t H) (hx : H x) (hk : k.offset < 8) : (Slot.of x k).Valid t H := by
  have hinside := hH.inside x hx
  have hoff : k.offset + 4 ≤ 8 := by cases k <;> first | decide | exact absurd hk (by decide)
  exact ⟨hx, by omega⟩

end FreeLists

section Stock

variable {mem : ByteMem} {t fin a s s' v : Nat} {f : Bool} {pre post blocks : List Block} {k : Field}

/-- What two lists with the same pieces but one have in common. -/
theorem Shape.exchange {old new : List Block} (h : Shape t fin (pre ++ old ++ post))
    (htiles : ∀ m m', Tiles Block.addr Block.stop m old m' → Tiles Block.addr Block.stop m new m')
    (hsizes : ∀ b ∈ new, 8 ≤ b.size ∧ b.size % 8 = 0) : Shape t fin (pre ++ new ++ post) := by
  refine ⟨h.tiles.replace htiles, fun b hb => ?_, h.bound, h.small⟩
  rw [List.mem_append, List.mem_append] at hb
  obtain (hb | hb) | hb := hb
  · exact h.sizes b (List.mem_append_left _ (List.mem_append_left _ hb))
  · exact hsizes b hb
  · exact h.sizes b (List.mem_append_right _ hb)

theorem Shape.mark (h : Shape t fin (pre ++ [⟨a, s, f⟩] ++ post)) (f' : Bool) :
    Shape t fin (pre ++ [⟨a, s, f'⟩] ++ post) := by
  refine h.exchange (fun m m' hold => hold) fun b hb => ?_
  obtain rfl := List.mem_singleton.mp hb
  exact h.sizes ⟨a, s, f⟩ (by simp)

theorem Shape.join_iff : Shape t fin (pre ++ [⟨a, s, false⟩, ⟨a + 8 + s, s', false⟩] ++ post) ↔
    Shape t fin (pre ++ [⟨a, s + 8 + s', false⟩] ++ post) ∧ 8 ≤ s ∧ s % 8 = 0 ∧ 8 ≤ s' ∧ s' % 8 = 0 := by
  constructor
  · intro h
    have hs := h.sizes ⟨a, s, false⟩ (by simp)
    have hs' := h.sizes ⟨a + 8 + s, s', false⟩ (by simp)
    simp only at hs hs'
    refine ⟨h.exchange (fun m m' hold => ?_) fun b hb => ?_, hs.1, hs.2, hs'.1, hs'.2⟩
    · obtain ⟨hstart, -, -, -, hstop⟩ := hold
      simp only [Tiles, Block.stop] at hstart hstop ⊢
      omega
    · obtain rfl := List.mem_singleton.mp hb
      simp only
      omega
  · rintro ⟨h, hs, hmod, hs', hmod'⟩
    refine h.exchange (fun m m' hold => ?_) fun b hb => ?_
    · obtain ⟨hstart, -, hstop⟩ := hold
      simp only [Tiles, Block.stop, true_and] at hstart hstop ⊢
      omega
    · rw [List.mem_cons, List.mem_singleton] at hb
      obtain rfl | rfl := hb
      · exact ⟨hs, hmod⟩
      · exact ⟨hs', hmod'⟩

/-- The blocks in the lists are the free ones. -/
theorem Binned.of_mem {bins : Nat → List Nat} (hbinned : Binned bins blocks) {x : Nat} (hx : ∃ c < 768, x ∈ bins c) :
    ∃ b ∈ blocks, b.free = true ∧ b.addr = x := by
  obtain ⟨c, hc, hx⟩ := hx
  obtain ⟨b, hb, hfree, haddr, -⟩ := (hbinned c hc x).mp hx
  exact ⟨b, hb, hfree, haddr⟩

theorem headersOf_congr {l l' : List Block} (h : l.map Block.addr = l'.map Block.addr) : HeadersOf l = HeadersOf l' := by
  funext x
  have hmem : (x ∈ l.map Block.addr) = (x ∈ l'.map Block.addr) := by rw [h]
  rw [List.mem_map, List.mem_map] at hmem
  exact hmem

/-- A block that is taken out of its list counts as one in use. -/
theorem Stock.extract (h : Stock mem t fin (pre ++ [⟨a, s, true⟩] ++ post)) :
    Stock (EXTRACT_BLOCK mem (UInt32.ofNat a) (UInt32.ofNat t) (UInt32.ofNat (class_of s / 32)) (UInt32.ofNat (class_of s % 32)))
        t fin (pre ++ [⟨a, s, false⟩] ++ post) ∧
      (∀ y, HeadersOf (pre ++ [⟨a, s, true⟩] ++ post ++ [sentinel fin]) y → ∀ k : Field, k.offset < 8 →
        get (EXTRACT_BLOCK mem (UInt32.ofNat a) (UInt32.ofNat t) (UInt32.ofNat (class_of s / 32))
          (UInt32.ofNat (class_of s % 32))) (.of y k) = get mem (.of y k)) ∧
      Touches (fun y => ¬ Guarded t fin (pre ++ [⟨a, s, true⟩] ++ post) y) mem
        (EXTRACT_BLOCK mem (UInt32.ofNat a) (UInt32.ofNat t) (UInt32.ofNat (class_of s / 32)) (UInt32.ofNat (class_of s % 32))) := by
  obtain ⟨bins, hlists, hbinned⟩ := h.lists
  have hmem : (⟨a, s, true⟩ : Block) ∈ pre ++ [⟨a, s, true⟩] ++ post := by simp
  have hc : class_of s < 768 := h.class_lt hmem
  have hbin : a ∈ bins (class_of s) := (hbinned _ hc a).mpr ⟨_, hmem, rfl, rfl, rfl⟩
  have htouches := touches_extract hlists h.headers hc hbin
  have hheaders : ∀ x, (∃ c < 768, x ∈ bins c) → HeadersOf (pre ++ [⟨a, s, true⟩] ++ post ++ [sentinel fin]) x :=
    fun x ⟨c, hc, hx⟩ => (hlists.node c hc x hx).1
  have hextract := hlists.extract h.headers hc hbin
  have hshape := h.toShape.mark false
  refine ⟨⟨hshape, fun c => (bins c).filter (· ≠ a), ?_, fun c hc x => ?_⟩,
    fun y hy k hk => header_of_touches htouches h.headers hheaders hy hk,
    htouches.mono fun y hy => h.not_guarded_links (fun x hx => hbinned.of_mem hx) hy⟩
  · refine hextract.other_headers fun c hc x hx => ?_
    have hsame : HeadersOf (pre ++ [⟨a, s, false⟩] ++ post ++ [sentinel fin]) =
        HeadersOf (pre ++ [⟨a, s, true⟩] ++ post ++ [sentinel fin]) := headersOf_congr (by simp)
    rw [hsame]
    exact hextract.node c hc x hx
  · rw [List.mem_filter, hbinned c hc x]
    have hunique : ∀ b ∈ pre ++ [⟨a, s, true⟩] ++ post, b.addr = a → b = ⟨a, s, true⟩ :=
      fun b hb haddr => h.tiles.unique hb hmem haddr
    constructor
    · rintro ⟨⟨b, hb, hfree, rfl, hsize⟩, hne⟩
      refine ⟨b, ?_, hfree, rfl, hsize⟩
      simp only [List.mem_append, List.mem_singleton] at hb ⊢
      obtain (hb | rfl) | hb := hb
      · exact Or.inl (Or.inl hb)
      · exact absurd rfl (of_decide_eq_true hne)
      · exact Or.inr hb
    · rintro ⟨b, hb, hfree, rfl, hsize⟩
      have hbne : b.addr ≠ a := by
        intro haddr
        have hsame := hshape.tiles.unique hb (b := ⟨a, s, false⟩) (by simp) haddr
        rw [hsame] at hfree
        cases hfree
      refine ⟨⟨b, ?_, hfree, rfl, hsize⟩, decide_eq_true hbne⟩
      simp only [List.mem_append, List.mem_singleton] at hb ⊢
      obtain (hb | rfl) | hb := hb
      · exact Or.inl (Or.inl hb)
      · exact absurd rfl hbne
      · exact Or.inr hb

/-- A block that is put into the list of its size is free. -/
theorem Stock.insert (h : Stock mem t fin (pre ++ [⟨a, s, false⟩] ++ post)) :
    Stock (INSERT_BLOCK mem (UInt32.ofNat a) (UInt32.ofNat t) (UInt32.ofNat (class_of s / 32)) (UInt32.ofNat (class_of s % 32)))
        t fin (pre ++ [⟨a, s, true⟩] ++ post) ∧
      (∀ y, HeadersOf (pre ++ [⟨a, s, false⟩] ++ post ++ [sentinel fin]) y → ∀ k : Field, k.offset < 8 →
        get (INSERT_BLOCK mem (UInt32.ofNat a) (UInt32.ofNat t) (UInt32.ofNat (class_of s / 32))
          (UInt32.ofNat (class_of s % 32))) (.of y k) = get mem (.of y k)) ∧
      Touches (fun y => ¬ Guarded t fin (pre ++ [⟨a, s, true⟩] ++ post) y) mem
        (INSERT_BLOCK mem (UInt32.ofNat a) (UInt32.ofNat t) (UInt32.ofNat (class_of s / 32)) (UInt32.ofNat (class_of s % 32))) := by
  obtain ⟨bins, hlists, hbinned⟩ := h.lists
  have hmem : (⟨a, s, false⟩ : Block) ∈ pre ++ [⟨a, s, false⟩] ++ post := by simp
  have hc : class_of s < 768 := h.class_lt hmem
  have hnew : ∀ c < 768, a ∉ bins c := by
    intro c hc hin
    obtain ⟨b, hb, hfree, haddr, -⟩ := (hbinned c hc a).mp hin
    rw [h.tiles.unique hb hmem haddr] at hfree
    cases hfree
  have hnode := h.node hmem
  have hshape := h.toShape.mark true
  have hinsert := hlists.insert h.headers hnode hc hnew
  have hold : ∀ b ∈ pre ++ [⟨a, s, false⟩] ++ post, b.free = true → b ∈ pre ++ [⟨a, s, true⟩] ++ post := by
    intro b hb hfree
    simp only [List.mem_append, List.mem_singleton] at hb ⊢
    obtain (hb | rfl) | hb := hb
    · exact Or.inl (Or.inl hb)
    · cases hfree
    · exact Or.inr hb
  obtain ⟨v, w, -, -, -, htouches⟩ := INSERT_BLOCK_get h.headers hnode hc rfl (hlists.head_node hc)
  have htouches := htouches (fun x => ∃ b ∈ pre ++ [⟨a, s, true⟩] ++ post, b.free = true ∧ b.addr = x)
    ⟨⟨a, s, true⟩, by simp, rfl, rfl⟩ fun hne => by
      obtain ⟨b, hb, hfree, haddr⟩ := hbinned.of_mem ⟨_, hc, hlists.head_mem hc hne⟩
      exact ⟨b, hold b hb hfree, hfree, haddr⟩
  have hsame : HeadersOf (pre ++ [⟨a, s, true⟩] ++ post ++ [sentinel fin]) =
      HeadersOf (pre ++ [⟨a, s, false⟩] ++ post ++ [sentinel fin]) := headersOf_congr (by simp)
  refine ⟨⟨hshape, fun c => if c = class_of s then a :: bins (class_of s) else bins c, ?_, fun c hc x => ?_⟩,
    fun y hy k hk => header_of_touches htouches h.headers (fun x ⟨b, hb, _, haddr⟩ => ?_) hy hk,
    htouches.mono fun y hy => hshape.not_guarded_links (fun x hx => hx) hy⟩
  · rw [hsame]
    exact hinsert
  · change (x ∈ if c = class_of s then a :: bins (class_of s) else bins c) ↔ _
    constructor
    · intro hx
      have hin : (x = a ∧ c = class_of s) ∨ x ∈ bins c := by
        split at hx
        · next heq =>
          obtain rfl | hx := List.mem_cons.mp hx
          · exact Or.inl ⟨rfl, heq⟩
          · exact Or.inr (heq ▸ hx)
        · exact Or.inr hx
      obtain ⟨rfl, rfl⟩ | hx := hin
      · exact ⟨⟨x, s, true⟩, by simp, rfl, rfl, rfl⟩
      · obtain ⟨b, hb, hfree, haddr, hsize⟩ := (hbinned c hc x).mp hx
        exact ⟨b, hold b hb hfree, hfree, haddr, hsize⟩
    · rintro ⟨b, hb, hfree, rfl, hsize⟩
      by_cases hba : b.addr = a
      · have hb' := hshape.tiles.unique hb (b := ⟨a, s, true⟩) (by simp) hba
        have hclass : class_of s = c := by rw [← hsize, hb']
        rw [if_pos hclass.symm, hba]
        exact List.mem_cons_self
      · have hb' : b ∈ pre ++ [⟨a, s, false⟩] ++ post := by
          simp only [List.mem_append, List.mem_singleton] at hb ⊢
          obtain (hb | rfl) | hb := hb
          · exact Or.inl (Or.inl hb)
          · exact absurd rfl hba
          · exact Or.inr hb
        have hin := (hbinned c hc b.addr).mpr ⟨b, hb', hfree, rfl, hsize⟩
        split
        · next heq => exact List.mem_cons_of_mem a (heq ▸ hin)
        · exact hin
  · rw [← hsame, ← haddr]
    exact ⟨b, List.mem_append_left _ hb, rfl⟩

/-- The lists do not depend on how the bytes in use are cut into blocks. -/
theorem Stock.recut {blocks' : List Block} (h : Stock mem t fin blocks) (hshape : Shape t fin blocks')
    (hsame : ∀ b : Block, b.free = true → (b ∈ blocks' ↔ b ∈ blocks)) : Stock mem t fin blocks' := by
  obtain ⟨bins, hlists, hbinned⟩ := h.lists
  have hbinned' : Binned bins blocks' := by
    intro c hc x
    rw [hbinned c hc x]
    constructor
    · rintro ⟨b, hb, hfree, hrest⟩
      exact ⟨b, (hsame b hfree).mpr hb, hfree, hrest⟩
    · rintro ⟨b, hb, hfree, hrest⟩
      exact ⟨b, (hsame b hfree).mp hb, hfree, hrest⟩
  refine ⟨hshape, bins, hlists.other_headers fun c hc x hx => ?_, hbinned'⟩
  obtain ⟨b, hb, -, rfl⟩ := hbinned'.of_mem ⟨c, hc, hx⟩
  exact hshape.node hb

theorem Stock.join (h : Stock mem t fin (pre ++ [⟨a, s, false⟩, ⟨a + 8 + s, s', false⟩] ++ post)) :
    Stock mem t fin (pre ++ [⟨a, s + 8 + s', false⟩] ++ post) := by
  refine h.recut (Shape.join_iff.mp h.toShape).1 fun b hfree => ?_
  simp only [List.mem_append, List.mem_cons, List.not_mem_nil, or_false]
  constructor
  · rintro ((hb | rfl) | hb)
    · exact Or.inl (Or.inl hb)
    · cases hfree
    · exact Or.inr hb
  · rintro ((hb | rfl | rfl) | hb)
    · exact Or.inl (Or.inl hb)
    · cases hfree
    · cases hfree
    · exact Or.inr hb

theorem Stock.cut (h : Stock mem t fin (pre ++ [⟨a, s + 8 + s', false⟩] ++ post)) (hs : 8 ≤ s) (hmod : s % 8 = 0)
    (hs' : 8 ≤ s') (hmod' : s' % 8 = 0) :
    Stock mem t fin (pre ++ [⟨a, s, false⟩, ⟨a + 8 + s, s', false⟩] ++ post) := by
  refine h.recut (Shape.join_iff.mpr ⟨h.toShape, hs, hmod, hs', hmod'⟩) fun b hfree => ?_
  simp only [List.mem_append, List.mem_cons, List.not_mem_nil, or_false]
  constructor
  · rintro ((hb | rfl | rfl) | hb)
    · exact Or.inl (Or.inl hb)
    · cases hfree
    · cases hfree
    · exact Or.inr hb
  · rintro ((hb | rfl) | hb)
    · exact Or.inl (Or.inl hb)
    · cases hfree
    · exact Or.inr hb

/-- A word of a header. -/
theorem Stock.put_header (h : Stock mem t fin blocks) {x : Nat} (hx : HeadersOf (blocks ++ [sentinel fin]) x)
    (hk : k.offset < 8) (v : Nat) : Stock (put mem (.of x k) v) t fin blocks := by
  obtain ⟨bins, hlists, hbinned⟩ := h.lists
  exact ⟨h.toShape, bins, hlists.put_word h.headers (header_valid h.headers hx hk) (fun _ _ _ => hk) v, hbinned⟩

theorem Shape.touches_header (h : Shape t fin blocks) {x : Nat} (hx : HeadersOf (blocks ++ [sentinel fin]) x)
    (hk : k.offset < 8) (v : Nat) :
    Touches (fun y => ¬ Guarded t fin blocks y) mem (put mem (.of x k) v) := by
  have hoff : k.offset + 4 ≤ 8 := by cases k <;> first | decide | exact absurd hk (by decide)
  apply (touches_put h.headers (header_valid h.headers hx hk) v).mono
  intro y hy
  refine h.not_guarded_header hx ?_
  simp only [Range, Slot.addr] at hy ⊢
  omega

/-- The links of a block in use are not the allocator's, and in no list. -/
theorem Stock.put_link (h : Stock mem t fin blocks) {b : Block} (hb : b ∈ blocks) (hused : b.free = false) (k : Field)
    (v : Nat) : Stock (put mem (.of b.addr k) v) t fin blocks := by
  obtain ⟨bins, hlists, hbinned⟩ := h.lists
  refine ⟨h.toShape, bins, hlists.put_word h.headers ((h.node hb).valid t k) (fun c hc hin => ?_) v, hbinned⟩
  obtain ⟨b', hb', hfree, haddr, -⟩ := (hbinned c hc b.addr).mp hin
  rw [h.tiles.unique hb' hb haddr, hused] at hfree
  cases hfree

end Stock

end epos.tlsf
