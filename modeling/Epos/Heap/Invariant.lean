import Epos.Heap.Lists
import Epos.Heap.Tags
import Epos.Lib.Tiles

open bytes tiles

namespace epos.tlsf

/-- A block of the area: its header, how many bytes follow it, and whether they are free. -/
structure Block where
  addr : Nat
  size : Nat
  free : Bool
  deriving DecidableEq

def Block.stop (b : Block) : Nat := b.addr + 8 + b.size

/-- The block with the `area_info_t`, before all others. -/
def first (t : Nat) : Block := { addr := t + 3184, size := 8, free := false }

/-- The block without bytes that ends the area. -/
def sentinel (fin : Nat) : Block := { addr := fin, size := 0, free := false }

def HeadersOf (l : List Block) (x : Nat) : Prop := ∃ b ∈ l, b.addr = x

/-- The blocks behind `p` have headers that tell their sizes and states, and where the block
before them is if that is free. -/
def Tagged (mem : ByteMem) : Block → List Block → Prop
  | _, [] => True
  | p, b :: l =>
    get mem (.of b.addr .size) = tag b.size b.free p.free ∧
      (p.free = true → get mem (.of b.addr .prev_hdr) = p.addr) ∧ Tagged mem b l

/-- No two free blocks are neighbours. -/
def Settled : Bool → List Block → Prop
  | _, [] => True
  | p, b :: l => ¬ (p = true ∧ b.free = true) ∧ Settled b.free l

/-- The blocks fill the area of the pool at `t` up to the sentinel at `fin`. -/
structure Shape (t fin : Nat) (blocks : List Block) : Prop where
  tiles : Tiles Block.addr Block.stop (t + 3200) blocks fin
  sizes : ∀ b ∈ blocks, 8 ≤ b.size ∧ b.size % 8 = 0
  bound : fin + 8 ≤ 2 ^ 32
  small : fin < t + 2 ^ 30

/-- The lists hold the free blocks, each in the list of its size. -/
def Binned (bins : Nat → List Nat) (blocks : List Block) : Prop :=
  ∀ c < 768, ∀ x, x ∈ bins c ↔ ∃ b ∈ blocks, b.free = true ∧ b.addr = x ∧ class_of b.size = c

/-- The blocks fill the area, and the lists hold the free ones. -/
structure Stock (mem : ByteMem) (t fin : Nat) (blocks : List Block) : Prop extends Shape t fin blocks where
  lists : ∃ bins, FreeLists mem t (HeadersOf (blocks ++ [sentinel fin])) bins ∧ Binned bins blocks

/-- The memory holds a pool with these blocks. -/
structure Heap (mem : ByteMem) (t fin : Nat) (blocks : List Block) : Prop extends Stock mem t fin blocks where
  tagged : Tagged mem (first t) (blocks ++ [sentinel fin])
  settled : Settled false blocks

section Lists

variable {mem mem' : ByteMem} {t fin : Nat} {p b : Block} {l before after blocks : List Block}

theorem tagged_append : Tagged mem p (before ++ after) ↔
    Tagged mem p before ∧ Tagged mem (before.getLastD p) after := by
  induction before generalizing p with
  | nil => exact ⟨fun h => ⟨trivial, h⟩, And.right⟩
  | cons b before ih =>
    rw [List.cons_append, Tagged, Tagged, ih, List.getLastD_cons]
    constructor
    · rintro ⟨hsize, hback, hbefore, hafter⟩
      exact ⟨⟨hsize, hback, hbefore⟩, hafter⟩
    · rintro ⟨⟨hsize, hback, hbefore⟩, hafter⟩
      exact ⟨hsize, hback, hbefore, hafter⟩

theorem Tagged.congr (htagged : Tagged mem p l)
    (hsize : ∀ b ∈ l, get mem' (.of b.addr .size) = get mem (.of b.addr .size))
    (hback : ∀ b ∈ l, get mem' (.of b.addr .prev_hdr) = get mem (.of b.addr .prev_hdr)) : Tagged mem' p l := by
  induction l generalizing p with
  | nil => trivial
  | cons b l ih =>
    obtain ⟨hword, hlink, htail⟩ := htagged
    refine ⟨(hsize b List.mem_cons_self).trans hword, fun hp => (hback b List.mem_cons_self).trans (hlink hp), ?_⟩
    exact ih htail (fun c hc => hsize c (List.mem_cons_of_mem b hc)) fun c hc => hback c (List.mem_cons_of_mem b hc)

theorem settled_append {x : Bool} : Settled x (before ++ after) ↔
    Settled x before ∧ Settled ((before.map Block.free).getLastD x) after := by
  induction before generalizing x with
  | nil => exact ⟨fun h => ⟨trivial, h⟩, And.right⟩
  | cons b before ih =>
    rw [List.cons_append, Settled, Settled, ih, List.map_cons, List.getLastD_cons, and_assoc]

theorem Settled.weaken {x : Bool} (h : Settled x l) : Settled false l := by
  cases l with
  | nil => trivial
  | cons b l => exact ⟨fun hb => Bool.noConfusion hb.1, h.2⟩

theorem getLastD_free (t : Nat) : (before.map Block.free).getLastD false = (before.getLastD (first t)).free :=
  List.getLastD_map (a := first t)

end Lists

section Shapes

variable {t fin : Nat} {b : Block} {blocks : List Block}

theorem Shape.bounds (h : Shape t fin blocks) (hb : b ∈ blocks) :
    t + 3200 ≤ b.addr ∧ b.addr + 16 ≤ b.stop ∧ b.stop ≤ fin := by
  obtain ⟨hlo, -, hhi⟩ := h.tiles.bounds hb
  have hsize := (h.sizes b hb).1
  refine ⟨hlo, ?_, hhi⟩
  unfold Block.stop
  omega

theorem Shape.lo_le (h : Shape t fin blocks) : t + 3200 ≤ fin := h.tiles.le

theorem Shape.headers (h : Shape t fin blocks) : Headers t (HeadersOf (blocks ++ [sentinel fin])) := by
  have hlo := h.lo_le
  have hbound := h.bound
  refine ⟨by omega, ?_, ?_, ?_⟩
  · rintro x ⟨b, hb, rfl⟩
    obtain hb | hb := List.mem_append.mp hb
    · have := h.bounds hb
      omega
    · rw [List.mem_singleton.mp hb]
      simp only [sentinel]
      omega
  · rintro x ⟨b, hb, rfl⟩
    obtain hb | hb := List.mem_append.mp hb
    · have := h.bounds hb
      omega
    · rw [List.mem_singleton.mp hb]
      exact hbound
  · rintro x y ⟨b, hb, rfl⟩ ⟨c, hc, rfl⟩ hlt
    obtain hb | hb := List.mem_append.mp hb
    · have hroom := h.bounds hb
      obtain hc | hc := List.mem_append.mp hc
      · have := h.tiles.apart hb hc hlt
        omega
      · rw [List.mem_singleton.mp hc]
        simp only [sentinel]
        omega
    · rw [List.mem_singleton.mp hb] at hlt ⊢
      simp only [sentinel] at hlt
      obtain hc | hc := List.mem_append.mp hc
      · have := h.bounds hc
        omega
      · rw [List.mem_singleton.mp hc] at hlt
        simp only [sentinel] at hlt
        omega

theorem Shape.node (h : Shape t fin blocks) (hb : b ∈ blocks) : Node (HeadersOf (blocks ++ [sentinel fin])) b.addr := by
  have hbound := h.bound
  have hroom := h.bounds hb
  exact ⟨⟨b, List.mem_append_left _ hb, rfl⟩, by omega⟩

/-- The size of a block is in the range of the lists. -/
theorem Shape.class_lt (h : Shape t fin blocks) (hb : b ∈ blocks) : class_of b.size < 768 := by
  have hroom := h.bounds hb
  have hsmall := h.small
  have hlower : lower 768 = 2 ^ 30 := by decide
  have hiff := le_class_of_iff (c := 768) (n := b.size)
  unfold Block.stop at hroom
  omega

end Shapes

end epos.tlsf
