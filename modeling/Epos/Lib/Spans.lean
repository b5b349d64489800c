import Mathlib.Data.List.Pairwise
import Mathlib.Order.CompletePartialOrder
import Mathlib.Order.Interval.Set.Disjoint

namespace spans

variable {α β : Type*} [LinearOrder α] {lo hi : α}

/-- A half-open interval that carries a value. -/
structure Span (α β : Type*) where
  lo : α
  hi : α
  val : β

def Span.range (z : Span α β) : Set α := Set.Ico z.lo z.hi

/-- Non-empty spans of `[lo, hi)`, in ascending order and without overlap. -/
structure Packed (lo hi : α) (zs : List (Span α β)) : Prop where
  ascending : zs.Pairwise fun a b => a.hi ≤ b.lo
  inside : ∀ z ∈ zs, lo ≤ z.lo ∧ z.lo < z.hi ∧ z.hi ≤ hi

theorem Packed.nil : Packed lo hi ([] : List (Span α β)) :=
  ⟨List.Pairwise.nil, fun _ h => absurd h List.not_mem_nil⟩

theorem disjoint_of_le {a b : Span α β} (hle : a.hi ≤ b.lo) : Disjoint a.range b.range := by
  rw [Set.disjoint_left]
  intro x hxa hxb
  exact absurd (hxa.2.trans_le hle) (not_lt.mpr hxb.1)

/-- An interval that does not meet a span ends before it or begins after it. -/
theorem le_or_le_of_disjoint {z : Span α β} {a b : α} (hab : a < b) (hz : z.lo < z.hi)
    (hdisjoint : Disjoint (Set.Ico a b) z.range) : b ≤ z.lo ∨ z.hi ≤ a := by
  rw [Span.range, Set.Ico_disjoint_Ico, min_le_iff, le_max_iff, le_max_iff] at hdisjoint
  obtain (hba | hbz) | (hza | hzz) := hdisjoint
  · exact absurd hab (not_lt.mpr hba)
  · exact Or.inl hbz
  · exact Or.inr hza
  · exact absurd hz (not_lt.mpr hzz)

theorem Packed.disjoint {zs : List (Span α β)} (hpacked : Packed lo hi zs) :
    zs.Pairwise fun a b => Disjoint a.range b.range :=
  hpacked.ascending.imp disjoint_of_le

theorem Packed.lo_lt {zs : List (Span α β)} (hpacked : Packed lo hi zs) :
    zs.Pairwise fun a b => a.lo < b.lo :=
  hpacked.ascending.imp_of_mem fun ha _ hle => (hpacked.inside _ ha).2.1.trans_le hle

/-- At most one span of the list contains a point. -/
theorem Packed.unique {zs : List (Span α β)} (hpacked : Packed lo hi zs) {a b : Span α β}
    (ha : a ∈ zs) (hb : b ∈ zs) {x : α} (hxa : x ∈ a.range) (hxb : x ∈ b.range) : a = b := by
  by_contra hne
  have hsymm : Std.Symm fun a b : Span α β => Disjoint a.range b.range :=
    ⟨fun _ _ hdisjoint => hdisjoint.symm⟩
  have hdisjoint := hpacked.disjoint.forall ha hb hne
  exact Set.disjoint_left.mp hdisjoint hxa hxb

/-- What lies before the first span lies before all of them. -/
theorem Packed.hi_le_of_head {a : Span α β} {zs : List (Span α β)} (hpacked : Packed lo hi (a :: zs))
    {x : α} (hx : x ≤ a.lo) : ∀ z ∈ a :: zs, x ≤ z.lo := by
  intro z hz
  cases hz with
  | head => exact hx
  | tail _ hz =>
    have hnext := (List.pairwise_cons.mp hpacked.lo_lt).1 z hz
    exact hx.trans hnext.le

/-- No span ends after the last one. -/
theorem Packed.hi_le_last {a : Span α β} {zs : List (Span α β)} (hpacked : Packed lo hi (zs ++ [a])) :
    ∀ z ∈ zs ++ [a], z.hi ≤ a.hi := by
  intro z hz
  obtain hz | hz := List.mem_append.mp hz
  · have hlast := (List.pairwise_append.mp hpacked.ascending).2.2 z hz a List.mem_cons_self
    have hnonempty := (hpacked.inside a (List.mem_append_right _ List.mem_cons_self)).2.1
    exact hlast.trans hnonempty.le
  · rw [List.mem_singleton.mp hz]

theorem Packed.insert {before after : List (Span α β)} (hpacked : Packed lo hi (before ++ after))
    {x : Span α β} (hinside : lo ≤ x.lo ∧ x.lo < x.hi ∧ x.hi ≤ hi)
    (hbefore : ∀ z ∈ before, z.hi ≤ x.lo) (hafter : ∀ z ∈ after, x.hi ≤ z.lo) :
    Packed lo hi (before ++ x :: after) := by
  obtain ⟨hfirst, hsecond, hcross⟩ := List.pairwise_append.mp hpacked.ascending
  refine ⟨List.pairwise_append.mpr ⟨hfirst, List.pairwise_cons.mpr ⟨hafter, hsecond⟩, ?_⟩, ?_⟩
  · intro a ha b hb
    cases hb with
    | head => exact hbefore a ha
    | tail _ hb => exact hcross a ha b hb
  · intro z hz
    simp only [List.mem_append, List.mem_cons] at hz
    obtain hz | rfl | hz := hz
    · exact hpacked.inside z (List.mem_append_left _ hz)
    · exact hinside
    · exact hpacked.inside z (List.mem_append_right _ hz)

theorem Packed.sublist {zs ws : List (Span α β)} (hpacked : Packed lo hi zs)
    (hsub : ws.Sublist zs) : Packed lo hi ws :=
  ⟨hpacked.ascending.sublist hsub, fun z hz => hpacked.inside z (hsub.subset hz)⟩

end spans
