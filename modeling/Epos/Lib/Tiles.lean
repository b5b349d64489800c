import Mathlib.Data.List.Basic

namespace tiles

variable {α : Type*} {start stop : α → Nat} {lo mid hi : Nat} {l before after : List α}

/-- Pieces that fill `[lo, hi)`, one right behind the other. -/
def Tiles (start stop : α → Nat) : Nat → List α → Nat → Prop
  | lo, [], hi => lo = hi
  | lo, a :: l, hi => start a = lo ∧ start a < stop a ∧ Tiles start stop (stop a) l hi

theorem Tiles.le (h : Tiles start stop lo l hi) : lo ≤ hi := by
  induction l generalizing lo with
  | nil => exact Nat.le_of_eq h
  | cons a l ih =>
    obtain ⟨rfl, hlt, htail⟩ := h
    exact Nat.le_trans (Nat.le_of_lt hlt) (ih htail)

theorem tiles_append :
    Tiles start stop lo (before ++ after) hi ↔
      ∃ mid, Tiles start stop lo before mid ∧ Tiles start stop mid after hi := by
  induction before generalizing lo with
  | nil => exact ⟨fun h => ⟨lo, rfl, h⟩, fun ⟨mid, hmid, h⟩ => by obtain rfl : lo = mid := hmid; exact h⟩
  | cons a before ih =>
    rw [List.cons_append, Tiles, ih]
    constructor
    · rintro ⟨hstart, hlt, mid, hbefore, hafter⟩
      exact ⟨mid, ⟨hstart, hlt, hbefore⟩, hafter⟩
    · rintro ⟨mid, ⟨hstart, hlt, hbefore⟩, hafter⟩
      exact ⟨hstart, hlt, mid, hbefore, hafter⟩

theorem Tiles.bounds (h : Tiles start stop lo l hi) {a : α} (ha : a ∈ l) :
    lo ≤ start a ∧ start a < stop a ∧ stop a ≤ hi := by
  induction l generalizing lo with
  | nil => cases ha
  | cons b l ih =>
    obtain ⟨rfl, hlt, htail⟩ := h
    have hle := htail.le
    obtain rfl | ha := List.mem_cons.mp ha
    · exact ⟨Nat.le_refl _, hlt, hle⟩
    · obtain ⟨hlo, hpos, hhi⟩ := ih htail ha
      exact ⟨by omega, hpos, hhi⟩

/-- A piece that starts behind another one starts behind its end. -/
theorem Tiles.apart (h : Tiles start stop lo l hi) {a b : α} (ha : a ∈ l) (hb : b ∈ l) (hlt : start a < start b) :
    stop a ≤ start b := by
  induction l generalizing lo with
  | nil => cases ha
  | cons c l ih =>
    obtain ⟨rfl, hpos, htail⟩ := h
    obtain rfl | ha' := List.mem_cons.mp ha
    · obtain rfl | hb' := List.mem_cons.mp hb
      · exact absurd hlt (Nat.lt_irrefl _)
      · exact (htail.bounds hb').1
    · obtain rfl | hb' := List.mem_cons.mp hb
      · have hbehind := (htail.bounds ha').1
        omega
      · exact ih htail ha' hb'

theorem Tiles.unique (h : Tiles start stop lo l hi) {a b : α} (ha : a ∈ l) (hb : b ∈ l) (heq : start a = start b) :
    a = b := by
  induction l generalizing lo with
  | nil => cases ha
  | cons c l ih =>
    obtain ⟨rfl, hpos, htail⟩ := h
    obtain rfl | ha' := List.mem_cons.mp ha
    · obtain rfl | hb' := List.mem_cons.mp hb
      · rfl
      · have hbehind := (htail.bounds hb').1
        omega
    · obtain rfl | hb' := List.mem_cons.mp hb
      · have hbehind := (htail.bounds ha').1
        omega
      · exact ih htail ha' hb'

/-- Pieces whose lengths are multiples of `m` start as far from one as the range does. -/
theorem Tiles.mod {m : Nat} (h : Tiles start stop lo l hi) (hm : ∀ a ∈ l, stop a % m = start a % m) {a : α} (ha : a ∈ l) :
    start a % m = lo % m := by
  induction l generalizing lo with
  | nil => cases ha
  | cons b l ih =>
    obtain ⟨rfl, -, htail⟩ := h
    obtain rfl | ha := List.mem_cons.mp ha
    · rfl
    · rw [ih htail (fun c hc => hm c (List.mem_cons_of_mem b hc)) ha, hm b List.mem_cons_self]

/-- The range ends where its last piece does. -/
theorem Tiles.last (h : Tiles start stop lo l hi) {a : α} (ha : stop a = lo) : stop (l.getLastD a) = hi := by
  induction l generalizing lo a with
  | nil => exact ha.trans h
  | cons b l ih =>
    rw [List.getLastD_cons]
    exact ih h.2.2 rfl

/-- Every number of the range is in a piece. -/
theorem Tiles.cover (h : Tiles start stop lo l hi) {x : Nat} (hlo : lo ≤ x) (hhi : x < hi) :
    ∃ a ∈ l, start a ≤ x ∧ x < stop a := by
  induction l generalizing lo with
  | nil =>
    obtain rfl : lo = hi := h
    omega
  | cons a l ih =>
    obtain ⟨rfl, hpos, htail⟩ := h
    by_cases hx : x < stop a
    · exact ⟨a, List.mem_cons_self, hlo, hx⟩
    · obtain ⟨b, hb, hin⟩ := ih htail (by omega)
      exact ⟨b, List.mem_cons_of_mem a hb, hin⟩

/-- The pieces on both sides of a piece. -/
theorem Tiles.around {a : α} (h : Tiles start stop lo (before ++ a :: after) hi) :
    (∀ b ∈ before, stop b ≤ start a) ∧ ∀ b ∈ after, stop a ≤ start b := by
  obtain ⟨mid, hbefore, rfl, hpos, hafter⟩ := tiles_append.mp h
  exact ⟨fun b hb => (hbefore.bounds hb).2.2, fun b hb => (hafter.bounds hb).1⟩

/-- Pieces may be exchanged for others that fill the same range. -/
theorem Tiles.replace {old new : List α} (h : Tiles start stop lo (before ++ old ++ after) hi)
    (hnew : ∀ a b, Tiles start stop a old b → Tiles start stop a new b) :
    Tiles start stop lo (before ++ new ++ after) hi := by
  rw [List.append_assoc] at h ⊢
  obtain ⟨m, hbefore, hrest⟩ := tiles_append.mp h
  obtain ⟨m', hold, hafter⟩ := tiles_append.mp hrest
  exact tiles_append.mpr ⟨m, hbefore, tiles_append.mpr ⟨m', hnew m m' hold, hafter⟩⟩

end tiles
