import Epos.Strings.Defs

namespace epos.strings

/-- The result of a search for `t` from `p` on: where it occurs first, `none` if nowhere. -/
def Found (p : Ptr) (s t : List UInt8) : Option Ptr → Prop
  | some q => ∃ i, q = p.add i ∧ t <+: s.drop i ∧ ∀ j < i, ¬ t <+: s.drop j
  | none => ∀ i, ¬ t <+: s.drop i

section Bounds

variable {p : Ptr} {s : List UInt8} {n k : Nat}

theorem Ptr.upto_get (p : Ptr) (hk : k ≤ n) (hn : n < UInt32.size) : ((p.upto n).add k).get = (p.add k).get := by
  have hoffset : (p.addr + UInt32.ofNat k - p.addr).toNat = k := by
    rw [UInt32.add_comm, UInt32.add_sub_cancel]
    exact UInt32.toNat_ofNat_of_lt' (Nat.lt_of_le_of_lt hk hn)
  simp only [Ptr.get, Ptr.add, Ptr.upto, hoffset, if_pos hk]

theorem IsString.upto_from (h : IsString (p.add k) s) (hfit : k + s.length ≤ n) (hn : n < UInt32.size) :
    IsString ((p.upto n).add k) s := by
  induction s generalizing k with
  | nil => exact (p.upto_get hfit hn).trans h
  | cons c s ih =>
    obtain ⟨hc, hget, htail⟩ := h
    rw [List.length_cons] at hfit
    refine ⟨hc, (p.upto_get (by omega) hn).trans hget, ?_⟩
    rw [Ptr.add_add] at htail ⊢
    exact ih htail (by omega)

/-- A string needs no byte after its 0. -/
theorem IsString.upto (h : IsString p s) : IsString (p.upto s.length) s := by
  have hfrom : IsString (p.add 0) s := p.add_zero.symm ▸ h
  have hupto := hfrom.upto_from (Nat.le_of_eq (Nat.zero_add _)) h.length_lt
  rwa [Ptr.add_zero] at hupto

theorem strlen_loop_eq (h : IsString p s) (hn : s.length < n) : strlen_loop n p = some (p.add s.length) := by
  induction s generalizing p n with
  | nil =>
    obtain ⟨n, rfl⟩ := Nat.exists_eq_succ_of_ne_zero (Nat.ne_of_gt hn)
    have hget : p.get = some 0 := h
    simp only [strlen_loop, hget, Option.bind_some, ne_eq, not_true, if_false, List.length_nil, Ptr.add_zero]
  | cons c s ih =>
    obtain ⟨n, rfl⟩ := Nat.exists_eq_succ_of_ne_zero (Nat.ne_zero_of_lt hn)
    simp only [strlen_loop, h.2.1, Option.bind_some, if_pos h.1]
    rw [ih h.tail (Nat.lt_of_succ_lt_succ hn), Ptr.add_add, Nat.add_comm, List.length_cons]

theorem strlen_eq (h : IsString p s) : strlen p = some (UInt32.ofNat s.length) := by
  rw [strlen, strlen_loop_eq h h.length_lt, Option.map_some]
  simp only [Ptr.add]
  rw [UInt32.add_comm, UInt32.add_sub_cancel]

end Bounds

section Search

variable {p p1 p2 : Ptr} {s t : List UInt8} {c : UInt8} {r : Option Ptr}

theorem Found.head (hoccurs : t <+: s) : Found p s t (some p) :=
  ⟨0, p.add_zero.symm, hoccurs, fun j hj => absurd hj (Nat.not_lt_zero j)⟩

theorem Found.tail (hnot : ¬ t <+: c :: s) (h : Found (p.add 1) s t r) : Found p (c :: s) t r := by
  cases r with
  | none =>
    intro i
    cases i with
    | zero => exact hnot
    | succ i => exact h i
  | some q =>
    obtain ⟨i, hq, hoccurs, hfirst⟩ := h
    refine ⟨i + 1, ?_, hoccurs, fun j hj => ?_⟩
    · rw [hq, Ptr.add_add, Nat.add_comm]
    · cases j with
      | zero => exact hnot
      | succ j => exact hfirst j (Nat.lt_of_succ_lt_succ hj)

theorem Found.short (hlt : s.length < t.length) : Found p s t none := by
  intro i hoccurs
  have hle := hoccurs.length_le
  rw [List.length_drop] at hle
  omega

/-- `memcmp` of a string without its 0: it meets a difference at the 0 of the other one at the latest. -/
theorem memcmp_loop_prefix (hs : IsString p1 s) (ht : IsString p2 t) :
    ∃ k ≤ t.length, memcmp_loop t.length p1 p2 = some k ∧ (k = 0 ↔ t <+: s) := by
  induction t generalizing p1 p2 s with
  | nil => exact ⟨0, Nat.le_refl 0, rfl, iff_of_true rfl List.nil_prefix⟩
  | cons d t ih =>
    obtain ⟨hd, hget, htail⟩ := ht
    cases s with
    | nil =>
      have hend : p1.get = some 0 := hs
      refine ⟨t.length + 1, Nat.le_refl _, ?_, iff_of_false (Nat.succ_ne_zero _) ?_⟩
      · simp only [List.length_cons, memcmp_loop, hend, hget, Option.bind_some, if_pos (Ne.symm hd)]
      · rw [List.prefix_nil]
        exact List.cons_ne_nil d t
    | cons c s =>
      by_cases hcd : c = d
      · obtain ⟨k, hk, hloop, hzero⟩ := ih hs.tail htail
        refine ⟨k, Nat.le_succ_of_le hk, ?_, ?_⟩
        · simp only [List.length_cons, memcmp_loop, hs.2.1, hget, Option.bind_some, if_neg (not_not_intro hcd)]
          exact hloop
        · rw [hzero, List.cons_prefix_cons, and_iff_right hcd.symm]
      · refine ⟨t.length + 1, Nat.le_refl _, ?_, iff_of_false (Nat.succ_ne_zero _) ?_⟩
        · simp only [List.length_cons, memcmp_loop, hs.2.1, hget, Option.bind_some, if_pos hcd]
        · rw [List.cons_prefix_cons]
          exact fun h => hcd h.1.symm

theorem memcmp_prefix (hs : IsString p1 s) (ht : IsString p2 t) :
    ∃ r, memcmp p1 p2 (UInt32.ofNat t.length) = some r ∧ (r = 0 ↔ t <+: s) := by
  obtain ⟨k, hk, hloop, hzero⟩ := memcmp_loop_prefix hs ht
  have hlen : (UInt32.ofNat t.length).toNat = t.length := UInt32.toNat_ofNat_of_lt' ht.length_lt
  by_cases hnil : UInt32.ofNat t.length = 0
  · rw [hnil, UInt32.toNat_zero] at hlen
    rw [List.eq_nil_of_length_eq_zero hlen.symm]
    exact ⟨0, rfl, iff_of_true rfl List.nil_prefix⟩
  · refine ⟨(UInt32.ofNat k).toInt32, ?_, ?_⟩
    · rw [memcmp, if_neg hnil, hlen, hloop, Option.map_some]
    · rw [← hzero]
      constructor
      · intro h
        have hword : UInt32.ofNat k = 0 := congrArg Int32.toUInt32 h
        have hnat := UInt32.toNat_ofNat_of_lt' (Nat.lt_of_le_of_lt hk ht.length_lt)
        rw [hword] at hnat
        exact hnat.symm
      · rintro rfl
        rfl

theorem ofNat_ge_iff {m n : Nat} (hm : m < UInt32.size) (hn : n < UInt32.size) :
    UInt32.ofNat m ≥ UInt32.ofNat n ↔ n ≤ m := by
  rw [ge_iff_le, UInt32.le_iff_toNat_le, UInt32.toNat_ofNat_of_lt' hm, UInt32.toNat_ofNat_of_lt' hn]

theorem strstr_loop_found {fuel : Nat} (hs : IsString p1 s) (ht : IsString p2 t) (hne : t ≠ [])
    (hfuel : s.length + 1 - t.length < fuel) :
    ∃ r, strstr_loop p2 (UInt32.ofNat t.length) fuel (UInt32.ofNat s.length) p1 = some r ∧ Found p1 s t r := by
  induction s generalizing p1 fuel with
  | nil =>
    obtain ⟨fuel, rfl⟩ := Nat.exists_eq_succ_of_ne_zero (Nat.ne_zero_of_lt hfuel)
    have hshort : ([] : List UInt8).length < t.length := List.length_pos_iff.mpr hne
    have hge := ofNat_ge_iff hs.length_lt ht.length_lt
    exact ⟨none, if_neg (mt hge.mp (Nat.not_le_of_lt hshort)), .short hshort⟩
  | cons c s ih =>
    obtain ⟨fuel, rfl⟩ := Nat.exists_eq_succ_of_ne_zero (Nat.ne_zero_of_lt hfuel)
    have hge := ofNat_ge_iff hs.length_lt ht.length_lt
    by_cases hle : t.length ≤ (c :: s).length
    · obtain ⟨r, hr, hzero⟩ := memcmp_prefix hs ht
      have hrest : UInt32.ofNat (c :: s).length - 1 = UInt32.ofNat s.length := by
        rw [List.length_cons, UInt32.ofNat_add]
        exact UInt32.add_sub_cancel _ 1
      rw [strstr_loop, if_pos (hge.mpr hle), hr, Option.bind_some, hrest]
      by_cases hoccurs : t <+: c :: s
      · exact ⟨some p1, if_pos (hzero.mpr hoccurs), .head hoccurs⟩
      · rw [List.length_cons] at hfuel hle
        have hnext : s.length + 1 - t.length < fuel := by omega
        obtain ⟨r', hr', hfound⟩ := ih hs.tail hnext
        rw [if_neg (mt hzero.mp hoccurs)]
        exact ⟨r', hr', hfound.tail hoccurs⟩
    · exact ⟨none, if_neg (mt hge.mp hle), .short (Nat.lt_of_not_le hle)⟩

theorem strstr_found (hs : IsString p1 s) (ht : IsString p2 t) :
    ∃ r, strstr p1 p2 = some r ∧ Found p1 s t r := by
  have hlen : (UInt32.ofNat t.length).toNat = t.length := UInt32.toNat_ofNat_of_lt' ht.length_lt
  rw [strstr, strlen_eq ht, Option.bind_some]
  by_cases hnil : UInt32.ofNat t.length = 0
  · rw [hnil, UInt32.toNat_zero] at hlen
    rw [if_pos hnil, List.eq_nil_of_length_eq_zero hlen.symm]
    exact ⟨some p1, rfl, .head List.nil_prefix⟩
  · have hpos : t.length ≠ 0 := by
      intro hzero
      rw [hzero] at hnil
      exact hnil rfl
    have hlt := hs.length_lt
    rw [if_neg hnil, strlen_eq hs, Option.bind_some]
    exact strstr_loop_found hs ht (mt List.length_eq_zero_iff.mpr hpos) (by omega)

end Search

/-- `strstr` finds the first occurrence. It does so, too, if no byte of a string other than its
own and its 0 can be read. -/
theorem strstr_first {s1 s2 : Ptr} {t1 t2 : List UInt8} (h1 : IsString s1 t1) (h2 : IsString s2 t2) :
    (∃ r, strstr s1 s2 = some r ∧ Found s1 t1 t2 r) ∧
      ∃ r, strstr (s1.upto t1.length) (s2.upto t2.length) = some r ∧ Found (s1.upto t1.length) t1 t2 r :=
  ⟨strstr_found h1 h2, strstr_found h1.upto h2.upto⟩

/-- The search for "ab" in "aab". -/
theorem strstr_aab :
    (∃ r, strstr (literal 0x1000 [97, 97, 98]) (literal 0x2000 [97, 98]) = some r ∧
      Found (literal 0x1000 [97, 97, 98]) [97, 97, 98] [97, 98] r) ∧
    ∃ r, strstr ((literal 0x1000 [97, 97, 98]).upto 3) ((literal 0x2000 [97, 98]).upto 2) = some r ∧
      Found ((literal 0x1000 [97, 97, 98]).upto 3) [97, 97, 98] [97, 98] r :=
  strstr_first (by decide) (by decide)

end epos.strings
