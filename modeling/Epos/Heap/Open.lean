import Epos.Heap.Stock

open bytes tiles

namespace epos.tlsf

/-- Where the blocks behind `before` start. -/
def edge (t : Nat) (before : List Block) : Nat := (before.getLastD (first t)).stop

/-- The block behind a block, or the sentinel. -/
def behind (fin : Nat) (after : List Block) : Block := after.headD (sentinel fin)

/-- The first of the blocks has the size and state that its header tells, with `x` for the
state of the block before it. -/
def Tail (mem : ByteMem) (x : Bool) : List Block → Prop
  | [] => True
  | n :: l => get mem (.of n.addr .size) = tag n.size n.free x ∧ Tagged mem n l

/-- A pool of which the blocks in `mid` are being worked on: what their headers tell does not
count, but for the state of the block before them, and the block behind them takes `x` for
the state of the last one. No byte of `K` has changed since `start`. -/
structure Open (start : ByteMem) (K : Nat → Prop) (mem : ByteMem) (t fin : Nat) (before mid : List Block) (x : Bool)
    (after : List Block) : Prop extends Stock mem t fin (before ++ mid ++ after) where
  before_tagged : Tagged mem (first t) before
  state : (get mem (.of (edge t before) .size)).testBit 1 = (before.getLastD (first t)).free
  back : (before.getLastD (first t)).free = true →
    get mem (.of (edge t before) .prev_hdr) = (before.getLastD (first t)).addr
  after_tagged : Tail mem x (after ++ [sentinel fin])
  before_settled : Settled false before
  after_settled : Settled false after
  kept : ∀ a, K a → Guarded t fin (before ++ mid ++ after) a
  same : ∀ a < 2 ^ 32, K a → byte mem a = byte start a

section Tails

variable {mem mem' : ByteMem} {x : Bool} {p n : Block} {l : List Block}

theorem Tail.congr (htail : Tail mem x l)
    (hsame : ∀ b ∈ l, ∀ k : Field, k.offset < 8 → get mem' (.of b.addr k) = get mem (.of b.addr k)) : Tail mem' x l := by
  cases l with
  | nil => trivial
  | cons n l =>
    obtain ⟨hsize, htagged⟩ := htail
    refine ⟨(hsame n List.mem_cons_self .size (by decide)).trans hsize, htagged.congr ?_ ?_⟩
    · exact fun b hb => hsame b (List.mem_cons_of_mem n hb) .size (by decide)
    · exact fun b hb => hsame b (List.mem_cons_of_mem n hb) .prev_hdr (by decide)

theorem tagged_iff : Tagged mem p (n :: l) ↔
    Tail mem p.free (n :: l) ∧ (p.free = true → get mem (.of n.addr .prev_hdr) = p.addr) :=
  ⟨fun ⟨hsize, hback, htagged⟩ => ⟨⟨hsize, htagged⟩, hback⟩, fun ⟨⟨hsize, htagged⟩, hback⟩ => ⟨hsize, hback, htagged⟩⟩

theorem Tagged.tail (htagged : Tagged mem p l) : Tail mem p.free l := by
  cases l with
  | nil => trivial
  | cons n l => exact (tagged_iff.mp htagged).1

theorem behind_eq (fin : Nat) (after : List Block) :
    ∃ rest, after ++ [sentinel fin] = behind fin after :: rest := by
  cases after with
  | nil => exact ⟨[], rfl⟩
  | cons n after => exact ⟨after ++ [sentinel fin], rfl⟩

end Tails

section Parts

variable {t fin : Nat} {before mid after : List Block}

theorem edge_append (t : Nat) (before : List Block) (p : Block) : edge t (before ++ [p]) = p.stop := by
  rw [edge, List.getLastD_concat]

/-- Where the three parts of the blocks meet. -/
theorem Shape.parts (h : Shape t fin (before ++ mid ++ after)) :
    Tiles Block.addr Block.stop (t + 3200) before (edge t before) ∧
      Tiles Block.addr Block.stop (edge t before) mid (behind fin after).addr ∧
      Tiles Block.addr Block.stop (behind fin after).addr after fin := by
  obtain ⟨m', hleft, hafter⟩ := tiles_append.mp h.tiles
  obtain ⟨m, hbefore, hmid⟩ := tiles_append.mp hleft
  obtain rfl : edge t before = m := hbefore.last (a := first t) rfl
  have hbehind : (behind fin after).addr = m' := by
    cases after with
    | nil => exact Eq.symm hafter
    | cons n after => exact hafter.1
  rw [hbehind]
  exact ⟨hbefore, hmid, hafter⟩

theorem headers_before : ∀ c ∈ before, HeadersOf (before ++ mid ++ after ++ [sentinel fin]) c.addr :=
  fun c hc => ⟨c, by simp [hc], rfl⟩

theorem headers_mid : ∀ c ∈ mid, HeadersOf (before ++ mid ++ after ++ [sentinel fin]) c.addr :=
  fun c hc => ⟨c, by simp [hc], rfl⟩

theorem headers_after : ∀ c ∈ after ++ [sentinel fin], HeadersOf (before ++ mid ++ after ++ [sentinel fin]) c.addr := by
  intro c hc
  rw [List.append_assoc]
  exact ⟨c, List.mem_append_right _ hc, rfl⟩

theorem headers_behind : HeadersOf (before ++ mid ++ after ++ [sentinel fin]) (behind fin after).addr := by
  obtain ⟨rest, hrest⟩ := behind_eq fin after
  exact headers_after _ (hrest ▸ List.mem_cons_self)

theorem Shape.headers_edge (h : Shape t fin (before ++ mid ++ after)) :
    HeadersOf (before ++ mid ++ after ++ [sentinel fin]) (edge t before) := by
  have hparts := h.parts
  cases hmid : mid with
  | nil =>
    rw [hmid] at hparts
    obtain heq : edge t before = (behind fin after).addr := hparts.2.1
    rw [heq]
    exact headers_behind
  | cons b mid =>
    rw [hmid] at hparts
    rw [← hparts.2.1.1]
    exact headers_mid b List.mem_cons_self

theorem Shape.before_lt (h : Shape t fin (before ++ mid ++ after)) : ∀ c ∈ before, c.addr < edge t before := by
  intro c hc
  have := h.parts.1.bounds hc
  omega

theorem Shape.mid_bounds (h : Shape t fin (before ++ mid ++ after)) :
    ∀ c ∈ mid, edge t before ≤ c.addr ∧ c.stop ≤ (behind fin after).addr := by
  intro c hc
  have := h.parts.2.1.bounds hc
  omega

theorem Shape.after_le (h : Shape t fin (before ++ mid ++ after)) :
    ∀ c ∈ after ++ [sentinel fin], (behind fin after).addr ≤ c.addr := by
  intro c hc
  obtain hc | hc := List.mem_append.mp hc
  · exact (h.parts.2.2.bounds hc).1
  · rw [List.mem_singleton.mp hc]
    exact h.parts.2.2.le

theorem Shape.edge_lt (h : Shape t fin (before ++ mid ++ after)) (hmid : mid ≠ []) :
    edge t before < (behind fin after).addr := by
  cases mid with
  | nil => exact absurd rfl hmid
  | cons b mid =>
    have := h.parts.2.1.bounds List.mem_cons_self
    omega

theorem Shape.behind_size (h : Shape t fin (before ++ mid ++ after)) :
    (behind fin after).size % 8 = 0 ∧ (behind fin after).size < 2 ^ 32 := by
  cases after with
  | nil => exact ⟨rfl, Nat.two_pow_pos 32⟩
  | cons n after =>
    have hmem : n ∈ before ++ mid ++ n :: after := by simp
    have hroom := h.bounds hmem
    have hbound := h.bound
    unfold Block.stop at hroom
    exact ⟨(h.sizes n hmem).2, by simp only [behind, List.headD_cons]; omega⟩

end Parts

section Steps

variable {start mem mem' : ByteMem} {K : Nat → Prop} {t fin a s s' v : Nat} {x x' : Bool}
  {before mid mid' after l r blocks : List Block} {k : Field}

/-- What a step must leave alone. -/
theorem Open.step (hopen : Open start K mem t fin before mid x after)
    (hstock : Stock mem' t fin (before ++ mid' ++ after))
    (hbefore : ∀ c ∈ before, ∀ k : Field, k.offset < 8 → get mem' (.of c.addr k) = get mem (.of c.addr k))
    (hstate : (get mem' (.of (edge t before) .size)).testBit 1 = (get mem (.of (edge t before) .size)).testBit 1)
    (hback : get mem' (.of (edge t before) .prev_hdr) = get mem (.of (edge t before) .prev_hdr))
    (htail : Tail mem' x' (after ++ [sentinel fin])) (hkept : ∀ a, K a → Guarded t fin (before ++ mid' ++ after) a)
    (hsame : ∀ a < 2 ^ 32, K a → byte mem' a = byte mem a) : Open start K mem' t fin before mid' x' after where
  toStock := hstock
  before_tagged := hopen.before_tagged.congr (fun c hc => hbefore c hc .size (by decide)) fun c hc =>
    hbefore c hc .prev_hdr (by decide)
  state := hstate.trans hopen.state
  back := fun h => hback.trans (hopen.back h)
  after_tagged := htail
  before_settled := hopen.before_settled
  after_settled := hopen.after_settled
  kept := hkept
  same := fun a ha hK => (hsame a ha hK).trans (hopen.same a ha hK)

theorem same_of_touches (htouches : Touches (fun a => ¬ Guarded t fin blocks a) mem mem')
    (hguard : ∀ a, K a → Guarded t fin blocks a) : ∀ a < 2 ^ 32, K a → byte mem' a = byte mem a :=
  fun a ha hK => htouches a ha fun hnot => hnot (hguard a hK)

/-- A step that changes no header. -/
theorem Open.step_lists (hopen : Open start K mem t fin before mid x after)
    (hstock : Stock mem' t fin (before ++ mid' ++ after))
    (hheaders : ∀ y, HeadersOf (before ++ mid ++ after ++ [sentinel fin]) y → ∀ k : Field, k.offset < 8 →
      get mem' (.of y k) = get mem (.of y k)) (hkept : ∀ a, K a → Guarded t fin (before ++ mid' ++ after) a)
    (hsame : ∀ a < 2 ^ 32, K a → byte mem' a = byte mem a) : Open start K mem' t fin before mid' x after := by
  refine hopen.step hstock (fun c hc => hheaders _ (headers_before c hc)) ?_ ?_ ?_ hkept hsame
  · rw [hheaders _ hopen.headers_edge .size (by decide)]
  · exact hheaders _ hopen.headers_edge .prev_hdr (by decide)
  · exact hopen.after_tagged.congr fun b hb => hheaders _ (headers_after b hb)

theorem around_eq (c : Block) : before ++ (l ++ c :: r) ++ after = before ++ l ++ [c] ++ (r ++ after) := by simp

theorem Open.extract (hopen : Open start K mem t fin before (l ++ ⟨a, s, true⟩ :: r) x after) :
    Open start K (EXTRACT_BLOCK mem (UInt32.ofNat a) (UInt32.ofNat t) (UInt32.ofNat (class_of s / 32))
        (UInt32.ofNat (class_of s % 32))) t fin before (l ++ ⟨a, s, false⟩ :: r) x after ∧
      ∀ y, HeadersOf (before ++ (l ++ ⟨a, s, true⟩ :: r) ++ after ++ [sentinel fin]) y → ∀ k : Field, k.offset < 8 →
        get (EXTRACT_BLOCK mem (UInt32.ofNat a) (UInt32.ofNat t) (UInt32.ofNat (class_of s / 32))
          (UInt32.ofNat (class_of s % 32))) (.of y k) = get mem (.of y k) := by
  have hstock := hopen.toStock
  have hkept := hopen.kept
  rw [around_eq] at hstock hkept
  obtain ⟨hstock', hheaders, htouches⟩ := hstock.extract
  rw [← around_eq] at hstock' hheaders
  refine ⟨hopen.step_lists hstock' hheaders (fun y hy => ?_) (same_of_touches htouches hkept), hheaders⟩
  rw [around_eq]
  refine (hkept y hy).mono fun b hb hused hlo hhi => ⟨b, ?_, hused, hlo, hhi⟩
  simp only [List.mem_append, List.mem_singleton] at hb ⊢
  obtain (hb | rfl) | hb := hb
  · exact Or.inl (Or.inl hb)
  · cases hused
  · exact Or.inr hb

theorem Open.insert (hopen : Open start K mem t fin before (l ++ ⟨a, s, false⟩ :: r) x after)
    (hK : ∀ y, K y → ¬ Range (a + 8) s y) :
    Open start K (INSERT_BLOCK mem (UInt32.ofNat a) (UInt32.ofNat t) (UInt32.ofNat (class_of s / 32))
        (UInt32.ofNat (class_of s % 32))) t fin before (l ++ ⟨a, s, true⟩ :: r) x after ∧
      ∀ y, HeadersOf (before ++ (l ++ ⟨a, s, false⟩ :: r) ++ after ++ [sentinel fin]) y → ∀ k : Field, k.offset < 8 →
        get (INSERT_BLOCK mem (UInt32.ofNat a) (UInt32.ofNat t) (UInt32.ofNat (class_of s / 32))
          (UInt32.ofNat (class_of s % 32))) (.of y k) = get mem (.of y k) := by
  have hstock := hopen.toStock
  rw [around_eq] at hstock
  obtain ⟨hstock', hheaders, htouches⟩ := hstock.insert
  have hkept : ∀ y, K y → Guarded t fin (before ++ l ++ [⟨a, s, true⟩] ++ (r ++ after)) y := by
    intro y hy
    have hold := hopen.kept y hy
    rw [around_eq] at hold
    refine hold.mono fun b hb hused hlo hhi => ⟨b, ?_, hused, hlo, hhi⟩
    simp only [List.mem_append, List.mem_singleton] at hb ⊢
    obtain (hb | rfl) | hb := hb
    · exact Or.inl (Or.inl hb)
    · exact absurd ⟨hlo, hhi⟩ (hK y hy)
    · exact Or.inr hb
  rw [← around_eq] at hstock' hheaders
  refine ⟨hopen.step_lists hstock' hheaders (fun y hy => ?_) (same_of_touches htouches hkept), hheaders⟩
  rw [around_eq]
  exact hkept y hy

/-- The size word of a block that is being worked on. -/
theorem Open.put_size (hopen : Open start K mem t fin before mid x after) {b : Block} (hb : b ∈ mid)
    (hv : v < 2 ^ 32) (hbit : b.addr = edge t before → v.testBit 1 = (before.getLastD (first t)).free) :
    Open start K (put mem (.of b.addr .size) v) t fin before mid x after := by
  have hH := hopen.headers
  have hx : HeadersOf (before ++ mid ++ after ++ [sentinel fin]) b.addr := headers_mid b hb
  have hvalid := header_valid (k := .size) hH hx (by decide)
  have hother : ∀ c ∈ before ++ (after ++ [sentinel fin]), ∀ k : Field, k.offset < 8 →
      get (put mem (.of b.addr .size) v) (.of c.addr k) = get mem (.of c.addr k) := by
    intro c hc k hk
    have hmid := hopen.mid_bounds b hb
    have hb' := hopen.bounds (List.mem_append_left after (List.mem_append_right before hb))
    have hne : c.addr ≠ b.addr := by
      obtain hc | hc := List.mem_append.mp hc
      · have := hopen.before_lt c hc
        omega
      · have := hopen.after_le c hc
        omega
    have hcH : HeadersOf (before ++ mid ++ after ++ [sentinel fin]) c.addr := by
      obtain hc | hc := List.mem_append.mp hc
      · exact headers_before c hc
      · exact headers_after c hc
    exact get_put_of_ne mem hH hvalid (header_valid hH hcH hk) (fun h => hne (Slot.of.inj h).1) v
  refine hopen.step (hopen.toStock.put_header hx (by decide) v)
    (fun c hc => hother c (List.mem_append_left _ hc)) ?_ ?_
    (hopen.after_tagged.congr fun c hc => hother c (List.mem_append_right _ hc)) hopen.kept
    (same_of_touches (hopen.touches_header hx (by decide) v) hopen.kept)
  · rw [get_put mem hH hvalid (header_valid hH hopen.headers_edge (by decide)) hv]
    split
    · next heq =>
      rw [hopen.state]
      exact hbit (Slot.of.inj heq).1.symm
    · rfl
  · have hne : Slot.of (edge t before) .prev_hdr ≠ .of b.addr .size := fun h => Field.noConfusion (Slot.of.inj h).2
    exact get_put_of_ne mem hH hvalid (header_valid (k := .prev_hdr) hH hopen.headers_edge (by decide)) hne v

/-- The links of a block that is being worked on, when it is in no list. -/
theorem Open.put_link (hopen : Open start K mem t fin before mid x after) {b : Block} (hb : b ∈ mid)
    (hused : b.free = false) (hK : ∀ y, K y → ¬ Range (b.addr + 8) 8 y) (hk : 8 ≤ k.offset) (v : Nat) :
    Open start K (put mem (.of b.addr k) v) t fin before mid x after := by
  have hH := hopen.headers
  have hmem := List.mem_append_left after (List.mem_append_right before hb)
  have hvalid := (hopen.node hmem).valid t k
  have hoff := k.offset_le
  refine hopen.step_lists (hopen.toStock.put_link hmem hused k v) (fun y hy k' hk' => ?_) hopen.kept fun y hlt hy => ?_
  · refine get_put_of_ne mem hH hvalid (header_valid hH hy hk') (fun h => ?_) v
    obtain ⟨-, rfl⟩ := Slot.of.inj h
    omega
  · refine touches_put hH hvalid v y hlt fun hin => hK y hy ?_
    simp only [Range, Slot.addr] at hin ⊢
    omega

/-- A word of the header behind the blocks that are being worked on: its own state, or where
the block before it is. -/
theorem Open.put_behind (hopen : Open start K mem t fin before mid x after) (hmid : mid ≠ []) (hk : k.offset < 8)
    (htail : Tail (put mem (.of (behind fin after).addr k) v) x' (after ++ [sentinel fin])) :
    Open start K (put mem (.of (behind fin after).addr k) v) t fin before mid x' after := by
  have hH := hopen.headers
  have hx : HeadersOf (before ++ mid ++ after ++ [sentinel fin]) (behind fin after).addr := headers_behind
  have hvalid := header_valid hH hx hk
  have hlow : ∀ y, HeadersOf (before ++ mid ++ after ++ [sentinel fin]) y → y ≤ edge t before →
      ∀ k' : Field, k'.offset < 8 → get (put mem (.of (behind fin after).addr k) v) (.of y k') = get mem (.of y k') := by
    intro y hy hle k' hk'
    have hlt := hopen.edge_lt hmid
    exact get_put_of_ne mem hH hvalid (header_valid hH hy hk') (fun h => by have := (Slot.of.inj h).1; omega) v
  refine hopen.step (hopen.toStock.put_header hx hk v)
    (fun c hc => hlow _ (headers_before c hc) (Nat.le_of_lt (hopen.before_lt c hc))) ?_ ?_ htail hopen.kept
    (same_of_touches (hopen.touches_header hx hk v) hopen.kept)
  · rw [hlow _ hopen.headers_edge (Nat.le_refl _) .size (by decide)]
  · exact hlow _ hopen.headers_edge (Nat.le_refl _) .prev_hdr (by decide)

/-- The words behind that header are those of other blocks. -/
theorem Open.tail_other (hopen : Open start K mem t fin before mid x after) (hk : k.offset < 8) (v : Nat) :
    ∃ rest, after ++ [sentinel fin] = behind fin after :: rest ∧ Tagged (put mem (.of (behind fin after).addr k) v) (behind fin after) rest := by
  have hH := hopen.headers
  have hx : HeadersOf (before ++ mid ++ after ++ [sentinel fin]) (behind fin after).addr := headers_behind
  have hvalid := header_valid hH hx hk
  obtain ⟨rest, hrest⟩ := behind_eq fin after
  have htail := hopen.after_tagged
  rw [hrest] at htail
  have hother : ∀ b ∈ rest, ∀ k' : Field, k'.offset < 8 →
      get (put mem (.of (behind fin after).addr k) v) (.of b.addr k') = get mem (.of b.addr k') := by
    intro b hb k' hk'
    have hmem : b ∈ after ++ [sentinel fin] := hrest ▸ List.mem_cons_of_mem _ hb
    have hbelow : (behind fin after).addr < b.addr := by
      cases after with
      | nil =>
        obtain rfl : rest = [] := by simpa [behind] using hrest.symm
        cases hb
      | cons n after =>
        obtain rfl : after ++ [sentinel fin] = rest := by simpa [behind] using hrest
        obtain ⟨-, hlt, hafter⟩ := hopen.parts.2.2
        have hle : n.stop ≤ b.addr := by
          obtain hb | hb := List.mem_append.mp hb
          · exact (hafter.bounds hb).1
          · rw [List.mem_singleton.mp hb]
            exact hafter.le
        exact Nat.lt_of_lt_of_le hlt hle
    refine get_put_of_ne mem hH hvalid (header_valid hH (headers_after b hmem) hk') (fun h => ?_) v
    have := (Slot.of.inj h).1
    omega
  exact ⟨rest, hrest, htail.2.congr (fun b hb => hother b hb .size (by decide)) fun b hb => hother b hb .prev_hdr (by decide)⟩

/-- Nor are the words of the blocks before it. -/
theorem Open.get_put_behind (hopen : Open start K mem t fin before mid x after) {b : Block} (hb : b ∈ mid) {k' : Field}
    (hk : k.offset < 8) (hk' : k'.offset < 8) (v : Nat) :
    get (put mem (.of (behind fin after).addr k) v) (.of b.addr k') = get mem (.of b.addr k') := by
  have hmid := hopen.mid_bounds b hb
  have hroom := hopen.bounds (List.mem_append_left after (List.mem_append_right before hb))
  refine get_put_of_ne mem hopen.headers (header_valid hopen.headers headers_behind hk)
    (header_valid hopen.headers (headers_mid b hb) hk') (fun h => ?_) v
  have := (Slot.of.inj h).1
  omega

theorem Open.put_behind_size (hopen : Open start K mem t fin before mid x after) (hmid : mid ≠ []) (x' : Bool) :
    Open start K (put mem (.of (behind fin after).addr .size) (tag (behind fin after).size (behind fin after).free x'))
      t fin before mid x' after := by
  refine hopen.put_behind hmid (by decide) ?_
  obtain ⟨rest, hrest, htagged⟩ := hopen.tail_other (k := .size) (by decide)
    (tag (behind fin after).size (behind fin after).free x')
  have hsize := hopen.behind_size
  rw [hrest]
  exact ⟨get_put_self mem _ (tag_lt hsize.1 hsize.2), htagged⟩

theorem Open.put_behind_prev (hopen : Open start K mem t fin before mid x after) (hmid : mid ≠ []) (v : Nat) :
    Open start K (put mem (.of (behind fin after).addr .prev_hdr) v) t fin before mid x after := by
  refine hopen.put_behind hmid (by decide) ?_
  obtain ⟨rest, hrest, htagged⟩ := hopen.tail_other (k := .prev_hdr) (by decide) v
  have htail := hopen.after_tagged
  have hbehind : HeadersOf (before ++ mid ++ after ++ [sentinel fin]) (behind fin after).addr := headers_behind
  rw [hrest] at htail ⊢
  refine ⟨?_, htagged⟩
  rw [← htail.1]
  exact get_put_of_ne mem hopen.headers (header_valid (k := .prev_hdr) hopen.headers hbehind (by decide))
    (header_valid (k := .size) hopen.headers hbehind (by decide)) (fun h => Field.noConfusion (Slot.of.inj h).2) v

end Steps

section Bounds

variable {start mem : ByteMem} {K : Nat → Prop} {t fin a s s' : Nat} {x : Bool}
  {before mid after : List Block} {b n p : Block}

/-- The work goes on to the next block. -/
theorem Open.next_block (hopen : Open start K mem t fin before mid x (n :: after)) :
    Open start K mem t fin before (mid ++ [n]) n.free after ∧ get mem (.of n.addr .size) = tag n.size n.free x := by
  have hlist : before ++ mid ++ n :: after = before ++ (mid ++ [n]) ++ after := by simp
  obtain ⟨hsize, htagged⟩ := hopen.after_tagged
  refine ⟨{ hlist ▸ hopen.toStock with
    before_tagged := hopen.before_tagged
    state := hopen.state
    back := hopen.back
    after_tagged := htagged.tail
    before_settled := hopen.before_settled
    after_settled := hopen.after_settled.2.weaken
    kept := hlist ▸ hopen.kept
    same := hopen.same }, hsize⟩

/-- The work goes on to the block before. -/
theorem Open.prev_block (hopen : Open start K mem t fin (before ++ [p]) mid x after) :
    Open start K mem t fin before (p :: mid) x after ∧
      get mem (.of p.addr .size) = tag p.size p.free (before.getLastD (first t)).free := by
  have hlist : before ++ [p] ++ mid ++ after = before ++ (p :: mid) ++ after := by simp
  have hshape : Shape t fin (before ++ (p :: mid) ++ after) := hlist ▸ hopen.toShape
  obtain ⟨hbefore, hsize, hback, -⟩ := tagged_append.mp hopen.before_tagged
  have haddr : p.addr = edge t before := hshape.parts.2.1.1
  have hp := hshape.sizes p (by simp)
  refine ⟨{ hlist ▸ hopen.toStock with
    before_tagged := hbefore
    state := ?_
    back := fun h => haddr ▸ hback h
    after_tagged := hopen.after_tagged
    before_settled := (settled_append.mp hopen.before_settled).1
    after_settled := hopen.after_settled
    kept := hlist ▸ hopen.kept
    same := hopen.same }, hsize⟩
  rw [← haddr, hsize, testBit_tag hp.2, if_neg (by decide), if_pos rfl]

/-- A block in use is done when its size word is right. -/
theorem Open.done (hopen : Open start K mem t fin before (b :: mid) x after) (hused : b.free = false)
    (hsize : get mem (.of b.addr .size) = tag b.size false (before.getLastD (first t)).free)
    (hstate : (get mem (.of b.stop .size)).testBit 1 = false) :
    Open start K mem t fin (before ++ [b]) mid x after := by
  have hlist : before ++ (b :: mid) ++ after = before ++ [b] ++ mid ++ after := by simp
  have hedge := edge_append t before b
  have haddr : b.addr = edge t before := hopen.parts.2.1.1
  refine { hlist ▸ hopen.toStock with
    before_tagged := tagged_append.mpr ⟨hopen.before_tagged, hused ▸ hsize, fun h => haddr ▸ hopen.back h, trivial⟩
    state := ?_
    back := fun h => ?_
    after_tagged := hopen.after_tagged
    before_settled := settled_append.mpr ⟨hopen.before_settled, fun h => ?_, trivial⟩
    after_settled := hopen.after_settled
    kept := hlist ▸ hopen.kept
    same := hopen.same }
  · rw [hedge, List.getLastD_concat, hused]
    exact hstate
  · rw [List.getLastD_concat, hused] at h
    cases h
  · rw [hused] at h
    cases h.2

/-- Any block of a pool may be worked on. -/
theorem Heap.opened (hheap : Heap mem t fin (before ++ [b] ++ after))
    (hK : ∀ a, K a → Guarded t fin (before ++ [b] ++ after) a) :
    Open mem K mem t fin before [b] b.free after ∧
      get mem (.of b.addr .size) = tag b.size b.free (before.getLastD (first t)).free := by
  have htagged := hheap.tagged
  rw [List.append_assoc, List.append_assoc, tagged_append] at htagged
  obtain ⟨hbefore, hsize, hback, hafter⟩ := htagged
  have hsettled := hheap.settled
  rw [List.append_assoc, settled_append] at hsettled
  have haddr : b.addr = edge t before := hheap.parts.2.1.1
  have hb := hheap.sizes b (by simp)
  refine ⟨{ hheap.toStock with
    before_tagged := hbefore
    state := ?_
    back := fun h => haddr ▸ hback h
    after_tagged := Tagged.tail hafter
    before_settled := hsettled.1
    after_settled := Settled.weaken hsettled.2.2
    kept := hK
    same := fun _ _ _ => rfl }, hsize⟩
  rw [← haddr, hsize, testBit_tag hb.2, if_neg (by decide), if_pos rfl]

/-- The work is done when the words of the block and of the one behind it are right. -/
theorem Open.closed (hopen : Open start K mem t fin before [b] b.free after)
    (hsize : get mem (.of b.addr .size) = tag b.size b.free (before.getLastD (first t)).free)
    (hback : b.free = true → get mem (.of (behind fin after).addr .prev_hdr) = b.addr)
    (hbefore : b.free = true → (before.getLastD (first t)).free = false)
    (hafter : b.free = true → (behind fin after).free = false) : Heap mem t fin (before ++ [b] ++ after) := by
  have haddr : b.addr = edge t before := hopen.parts.2.1.1
  refine { hopen.toStock with tagged := ?_, settled := ?_ }
  · obtain ⟨rest, hrest⟩ := behind_eq fin after
    have htail := hopen.after_tagged
    rw [hrest] at htail
    rw [List.append_assoc, List.append_assoc, tagged_append, hrest]
    exact ⟨hopen.before_tagged, hsize, fun h => haddr ▸ hopen.back h, tagged_iff.mpr ⟨htail, hback⟩⟩
  · rw [List.append_assoc, settled_append, getLastD_free t]
    refine ⟨hopen.before_settled, fun h => ?_, ?_⟩
    · rw [hbefore h.2] at h
      cases h.1
    · have hsettled := hopen.after_settled
      cases after with
      | nil => trivial
      | cons n after =>
        refine ⟨fun h => ?_, hsettled.2⟩
        have hn : n.free = false := hafter h.1
        rw [hn] at h
        cases h.2

/-- Two blocks in use are made one. -/
theorem Open.join (hopen : Open start K mem t fin before [⟨a, s, false⟩, ⟨a + 8 + s, s', false⟩] x after) :
    Open start K mem t fin before [⟨a, s + 8 + s', false⟩] x after := by
  refine { hopen.toStock.join with
    before_tagged := hopen.before_tagged
    state := hopen.state
    back := hopen.back
    after_tagged := hopen.after_tagged
    before_settled := hopen.before_settled
    after_settled := hopen.after_settled
    kept := fun y hy => ?_
    same := hopen.same }
  refine (hopen.kept y hy).mono fun b hb hused hlo hhi => ?_
  simp only [List.mem_append, List.mem_cons, List.not_mem_nil, or_false] at hb ⊢
  obtain (hb | rfl | rfl) | hb := hb
  · exact ⟨b, Or.inl (Or.inl hb), hused, hlo, hhi⟩
  · exact ⟨_, Or.inl (Or.inr rfl), rfl, hlo, by simp only [Block.stop] at hhi ⊢; omega⟩
  · simp only [Block.stop] at hlo hhi
    exact ⟨_, Or.inl (Or.inr rfl), rfl, by simp only; omega, by simp only [Block.stop]; omega⟩
  · exact ⟨b, Or.inr hb, hused, hlo, hhi⟩

/-- A block in use is cut in two, behind the bytes of it that count. -/
theorem Open.cut (hopen : Open start K mem t fin before [⟨a, s + 8 + s', false⟩] x after) (hs : 8 ≤ s) (hmod : s % 8 = 0)
    (hs' : 8 ≤ s') (hmod' : s' % 8 = 0) (hK : ∀ y, K y → ¬ Range (a + 8 + s) (8 + s') y) :
    Open start K mem t fin before [⟨a, s, false⟩, ⟨a + 8 + s, s', false⟩] x after := by
  refine { hopen.toStock.cut hs hmod hs' hmod' with
    before_tagged := hopen.before_tagged
    state := hopen.state
    back := hopen.back
    after_tagged := hopen.after_tagged
    before_settled := hopen.before_settled
    after_settled := hopen.after_settled
    kept := fun y hy => ?_
    same := hopen.same }
  refine (hopen.kept y hy).mono fun b hb hused hlo hhi => ?_
  simp only [List.mem_append, List.mem_cons, List.not_mem_nil, or_false] at hb ⊢
  obtain (hb | rfl) | hb := hb
  · exact ⟨b, Or.inl (Or.inl hb), hused, hlo, hhi⟩
  · refine ⟨_, Or.inl (Or.inr (Or.inl rfl)), rfl, hlo, ?_⟩
    have hnot := hK y hy
    simp only [Range, Block.stop] at hnot hhi ⊢
    omega
  · exact ⟨b, Or.inr hb, hused, hlo, hhi⟩

end Bounds

end epos.tlsf
