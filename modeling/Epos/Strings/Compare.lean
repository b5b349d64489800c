import Epos.Strings.Defs

namespace epos.strings

/-- How many bytes two strings have in common before the first difference. -/
def common : List UInt8 → List UInt8 → Nat
  | c :: s, d :: t => if c = d then common s t + 1 else 0
  | [], _ => 0
  | _ :: _, [] => 0

/-- What is left of the common block from the first difference on. -/
def left (s t : List UInt8) : Nat := min s.length t.length + 1 - common s t

theorem common_le (s t : List UInt8) : common s t ≤ min s.length t.length := by
  fun_induction common s t with
  | case1 c s d ih =>
    simp only [List.length_cons]
    omega
  | case2 => exact Nat.zero_le _
  | case3 => exact Nat.zero_le _
  | case4 => exact Nat.zero_le _

theorem common_comm (s t : List UInt8) : common s t = common t s := by
  fun_induction common s t with
  | case1 c s t ih => rw [common, if_pos rfl, ih]
  | case2 c s d t hne => rw [common, if_neg (Ne.symm hne)]
  | case3 t => cases t <;> rfl
  | case4 => rfl

theorem left_comm (s t : List UInt8) : left s t = left t s := by
  rw [left, left, common_comm, Nat.min_comm]

theorem left_pos (s t : List UInt8) : 0 < left s t :=
  Nat.sub_pos_of_lt (Nat.lt_succ_of_le (common_le s t))

/-- The call returns, with a result of this sign. -/
def Sign (call : Option Int32) (o : Ordering) : Prop := ∃ r, call = some r ∧ compare r 0 = o

theorem Sign.unique {call : Option Int32} {o o' : Ordering} (h : Sign call o) (h' : Sign call o') : o = o' := by
  obtain ⟨r, hr, rfl⟩ := h
  obtain ⟨r', hr', rfl⟩ := h'
  rw [Option.some.inj (hr.symm.trans hr')]

theorem Sign.zero_iff {call : Option Int32} {o : Ordering} (h : Sign call o) : call = some 0 ↔ o = .eq := by
  obtain ⟨r, rfl, rfl⟩ := h
  rw [Option.some.injEq, Std.LawfulEqOrd.compare_eq_iff_eq]

/-- What is read of two strings, byte by byte from both: the same up to the end of both, or up
to the first difference, which decides their order. -/
inductive Compared : Ptr → Ptr → List UInt8 → List UInt8 → Prop
  | equal {p1 p2 : Ptr} (h1 : p1.get = some 0) (h2 : p2.get = some 0) : Compared p1 p2 [] []
  | differ {p1 p2 : Ptr} {s t : List UInt8} {c d : UInt8} (h1 : p1.get = some c) (h2 : p2.get = some d) (hne : c ≠ d)
    (horder : compare s t = compare c d) (hcommon : common s t = 0) : Compared p1 p2 s t
  | same {p1 p2 : Ptr} {s t : List UInt8} {c : UInt8} (h1 : p1.get = some c) (h2 : p2.get = some c) (hc : c ≠ 0)
    (hrest : Compared (p1.add 1) (p2.add 1) s t) : Compared p1 p2 (c :: s) (c :: t)

section Reading

variable {p1 p2 : Ptr} {s t : List UInt8}

theorem ne_of_compare (h : compare s t ≠ .eq) : s ≠ t := by
  rintro rfl
  exact h Std.ReflOrd.compare_self

theorem compare_pos {c : UInt8} (hc : c ≠ 0) : compare 0 c = .lt :=
  Std.compare_eq_lt.mpr (UInt8.pos_iff_ne_zero.mpr hc)

theorem compared (hs : IsString p1 s) (ht : IsString p2 t) : Compared p1 p2 s t := by
  induction s generalizing p1 p2 t with
  | nil =>
    cases t with
    | nil => exact .equal hs ht
    | cons d t => exact .differ hs ht.2.1 (Ne.symm ht.1) (compare_pos ht.1).symm rfl
  | cons c s ih =>
    cases t with
    | nil =>
      refine .differ hs.2.1 ht hs.1 ?_ rfl
      rw [List.compare_cons_nil, Std.OrientedOrd.eq_swap, compare_pos hs.1]
      rfl
    | cons d t =>
      by_cases hcd : c = d
      · subst hcd
        exact .same hs.2.1 ht.2.1 hs.1 (ih hs.tail ht.tail)
      · refine .differ hs.2.1 ht.2.1 hcd ?_ (if_neg hcd)
        have hne : compare c d ≠ .eq := fun heq => hcd (Std.LawfulEqOrd.eq_of_compare heq)
        rw [List.compare_cons_cons]
        cases horder : compare c d with
        | lt => rfl
        | eq => exact absurd horder hne
        | gt => rfl

theorem compare_same {c : UInt8} (s t : List UInt8) : compare (c :: s) (c :: t) = compare s t := by
  rw [List.compare_cons_cons, Std.ReflOrd.compare_self]
  rfl

/-- The difference of two bytes has the sign of their order. -/
theorem compare_difference (c d : UInt8) : compare (Int32.ofInt (c.toNat - d.toNat)) 0 = compare c d := by
  have hc := c.toNat_lt
  have hd := d.toNat_lt
  have hexact : (Int32.ofInt (c.toNat - d.toNat)).toInt = c.toNat - d.toNat :=
    Int32.toInt_ofInt_of_le (by omega) (by omega)
  cases h : compare c d with
  | lt =>
    rw [Std.compare_eq_lt, UInt8.lt_iff_toNat_lt] at h
    rw [Std.compare_eq_lt, Int32.lt_iff_toInt_lt, hexact, Int32.toInt_zero]
    omega
  | eq =>
    rw [Std.LawfulEqOrd.compare_eq_iff_eq] at h
    rw [h, Int.sub_self]
    rfl
  | gt =>
    rw [Std.compare_eq_gt, UInt8.lt_iff_toNat_lt] at h
    rw [Std.compare_eq_gt, Int32.lt_iff_toInt_lt, hexact, Int32.toInt_zero]
    omega

theorem Compared.strcmp_loop {fuel : Nat} (h : Compared p1 p2 s t) (hfuel : min s.length t.length < fuel) :
    Sign (strcmp_loop fuel p1 p2) (compare s t) := by
  induction h generalizing fuel with
  | equal h1 h2 =>
    obtain ⟨fuel, rfl⟩ := Nat.exists_eq_succ_of_ne_zero (Nat.ne_zero_of_lt hfuel)
    refine ⟨0, ?_, rfl⟩
    simp only [strings.strcmp_loop, h1, h2, Option.bind_some, if_true]
  | @differ p1 p2 s t c d h1 h2 hne horder =>
    obtain ⟨fuel, rfl⟩ := Nat.exists_eq_succ_of_ne_zero (Nat.ne_zero_of_lt hfuel)
    refine ⟨Int32.ofInt (c.toNat - d.toNat), ?_, (compare_difference c d).trans horder.symm⟩
    simp only [strings.strcmp_loop, h1, h2, Option.bind_some, if_neg hne]
  | @same p1 p2 s t c h1 h2 hc hrest ih =>
    obtain ⟨fuel, rfl⟩ := Nat.exists_eq_succ_of_ne_zero (Nat.ne_zero_of_lt hfuel)
    simp only [List.length_cons] at hfuel
    rw [compare_same]
    simp only [strings.strcmp_loop, h1, h2, Option.bind_some, if_neg hc, if_true]
    exact ih (by omega)

theorem Compared.strncmp_loop {count : Nat} (h : Compared p1 p2 s t) (hcount : min s.length t.length < count) :
    Sign (strncmp_loop count p1 p2) (compare s t) := by
  induction h generalizing count with
  | equal h1 h2 =>
    obtain ⟨count, rfl⟩ := Nat.exists_eq_succ_of_ne_zero (Nat.ne_zero_of_lt hcount)
    refine ⟨0, ?_, rfl⟩
    simp only [strings.strncmp_loop, h1, h2, Option.bind_some, ne_eq, not_true, if_false, if_true]
  | @differ p1 p2 s t c d h1 h2 hne horder =>
    obtain ⟨count, rfl⟩ := Nat.exists_eq_succ_of_ne_zero (Nat.ne_zero_of_lt hcount)
    refine ⟨if c < d then -1 else 1, ?_, ?_⟩
    · simp only [strings.strncmp_loop, h1, h2, Option.bind_some, if_pos hne]
    · rw [horder]
      by_cases hlt : c < d
      · rw [if_pos hlt, Std.compare_eq_lt.mpr hlt]
        rfl
      · have hgt : d < c := UInt8.lt_of_le_of_ne (UInt8.not_lt.mp hlt) (Ne.symm hne)
        rw [if_neg hlt, Std.compare_eq_gt.mpr hgt]
        rfl
  | @same p1 p2 s t c h1 h2 hc hrest ih =>
    obtain ⟨count, rfl⟩ := Nat.exists_eq_succ_of_ne_zero (Nat.ne_zero_of_lt hcount)
    simp only [List.length_cons] at hcount
    rw [compare_same]
    simp only [strings.strncmp_loop, h1, h2, Option.bind_some, if_neg hc, ne_eq, not_true, if_false]
    exact ih (by omega)

/-- `memcmp` over the common block stops at the first difference, or at the end. -/
theorem Compared.memcmp_loop (h : Compared p1 p2 s t) :
    memcmp_loop (min s.length t.length + 1) p1 p2 = some (if s = t then 0 else left s t) := by
  induction h with
  | equal h1 h2 =>
    simp only [strings.memcmp_loop, h1, h2, Option.bind_some, ne_eq, not_true, if_false, if_true, List.length_nil,
      Nat.min_self]
  | @differ p1 p2 s t c d h1 h2 hne horder hcommon =>
    have hst : s ≠ t := ne_of_compare fun heq => hne (Std.LawfulEqOrd.eq_of_compare (horder.symm.trans heq))
    rw [if_neg hst, left, hcommon]
    simp only [strings.memcmp_loop, h1, h2, Option.bind_some, if_pos hne, Nat.sub_zero]
  | @same p1 p2 s t c h1 h2 hc hrest ih =>
    have hleft : left (c :: s) (c :: t) = left s t := by
      rw [left, left, common, if_pos rfl, List.length_cons, List.length_cons, Nat.succ_min_succ]
      exact Nat.add_sub_add_right _ 1 _
    rw [List.length_cons, List.length_cons, Nat.succ_min_succ, hleft]
    simp only [strings.memcmp_loop, h1, h2, Option.bind_some, ne_eq, not_true, if_false, List.cons.injEq, true_and]
    exact ih

theorem memcmp_eq (hs : IsString p1 s) (ht : IsString p2 t) {len : UInt32}
    (hlen : len.toNat = min s.length t.length + 1) :
    memcmp p1 p2 len = some (UInt32.ofNat (if s = t then 0 else left s t)).toInt32 := by
  have hne : len ≠ 0 := by
    intro hzero
    rw [hzero] at hlen
    exact absurd hlen.symm (Nat.succ_ne_zero _)
  rw [memcmp, if_neg hne, hlen, (compared hs ht).memcmp_loop, Option.map_some]

/-- A rest of 2^31 bytes or more is negative as an `int`. -/
theorem compare_rest {n : Nat} (hpos : 0 < n) (hlt : n < 2 ^ 32) :
    compare (UInt32.ofNat n).toInt32 0 = if n < 2 ^ 31 then .gt else .lt := by
  by_cases hn : n < 2 ^ 31
  · rw [if_pos hn, Std.compare_eq_gt, Int32.lt_iff_toInt_lt, Int32.toInt_zero, UInt32.toInt32_ofNat',
      Int32.toInt_ofNat_of_lt hn]
    omega
  · have hexact : (n : Int).bmod Int32.size = n - 2 ^ 32 := by
      rw [Int.bmod_def, Int32.size]
      omega
    rw [if_neg hn, Std.compare_eq_lt, Int32.lt_iff_toInt_lt, Int32.toInt_zero, UInt32.toInt32_ofNat',
      Int32.toInt_ofNat', hexact]
    omega

end Reading

/-- The three comparisons have the sign of the order of the strings. -/
structure Agree (p1 p2 : Ptr) (s t : List UInt8) (len : UInt32) : Prop where
  strcmp : Sign (strcmp p1 p2) (compare s t)
  strncmp : ∀ n : UInt32, s.length < n.toNat → t.length < n.toNat → Sign (strncmp p1 p2 n) (compare s t)
  memcmp : Sign (memcmp p1 p2 len) (compare s t)

/-- They change their signs with the order of the arguments. -/
structure Antisymmetric (p1 p2 : Ptr) (s t : List UInt8) (len : UInt32) : Prop where
  strcmp : ∃ o, Sign (strcmp p1 p2) o ∧ Sign (strcmp p2 p1) o.swap
  strncmp : ∀ n : UInt32, s.length < n.toNat → t.length < n.toNat →
    ∃ o, Sign (strncmp p1 p2 n) o ∧ Sign (strncmp p2 p1 n) o.swap
  memcmp : ∃ o, Sign (memcmp p1 p2 len) o ∧ Sign (memcmp p2 p1 len) o.swap

/-- They are 0 for equal strings and for no others. -/
structure Separate (p1 p2 : Ptr) (s t : List UInt8) (len : UInt32) : Prop where
  strcmp : strcmp p1 p2 = some 0 ↔ s = t
  strncmp : ∀ n : UInt32, s.length < n.toNat → t.length < n.toNat → (strncmp p1 p2 n = some 0 ↔ s = t)
  memcmp : memcmp p1 p2 len = some 0 ↔ s = t

section Order

variable {p1 p2 : Ptr} {s t : List UInt8} {len : UInt32}

theorem strcmp_sign (hs : IsString p1 s) (ht : IsString p2 t) : Sign (strcmp p1 p2) (compare s t) :=
  (compared hs ht).strcmp_loop (Nat.lt_of_le_of_lt (Nat.min_le_left _ _) hs.length_lt)

theorem strncmp_sign (hs : IsString p1 s) (ht : IsString p2 t) {n : UInt32} (hn : s.length < n.toNat) :
    Sign (strncmp p1 p2 n) (compare s t) :=
  (compared hs ht).strncmp_loop (Nat.lt_of_le_of_lt (Nat.min_le_left _ _) hn)

/-- The sign of what `memcmp` returns. -/
def rest_sign (s t : List UInt8) : Ordering :=
  if s = t then .eq else if left s t < 2 ^ 31 then .gt else .lt

theorem rest_sign_comm (s t : List UInt8) : rest_sign s t = rest_sign t s := by
  rw [rest_sign, rest_sign, left_comm]
  simp only [eq_comm]

theorem rest_sign_eq_iff : rest_sign s t = .eq ↔ s = t := by
  rw [rest_sign]
  by_cases hst : s = t
  · exact iff_of_true (if_pos hst) hst
  · rw [if_neg hst]
    by_cases hleft : left s t < 2 ^ 31
    · rw [if_pos hleft]
      exact iff_of_false (by decide) hst
    · rw [if_neg hleft]
      exact iff_of_false (by decide) hst

theorem memcmp_sign (hs : IsString p1 s) (ht : IsString p2 t) (hlen : len.toNat = min s.length t.length + 1) :
    Sign (memcmp p1 p2 len) (rest_sign s t) := by
  have hlt : left s t < 2 ^ 32 := by
    have hbound := len.toNat_lt
    rw [left]
    omega
  refine ⟨_, memcmp_eq hs ht hlen, ?_⟩
  by_cases hst : s = t
  · rw [rest_sign, if_pos hst, if_pos hst]
    rfl
  · rw [rest_sign, if_neg hst, if_neg hst, compare_rest (left_pos s t) hlt]

theorem rest_sign_compare_iff : rest_sign s t = compare s t ↔
    s = t ∨ (compare s t = .gt ∧ left s t < 2 ^ 31) ∨ (compare s t = .lt ∧ 2 ^ 31 ≤ left s t) := by
  cases horder : compare s t with
  | eq =>
    have hst : s = t := Std.LawfulEqOrd.eq_of_compare horder
    exact iff_of_true (if_pos hst) (.inl hst)
  | lt =>
    have hst : s ≠ t := ne_of_compare (by rw [horder]; decide)
    simp only [rest_sign, hst, if_false, false_or, reduceCtorEq, false_and, true_and]
    by_cases hleft : left s t < 2 ^ 31
    · rw [if_pos hleft]
      exact iff_of_false (by decide) (Nat.not_le_of_lt hleft)
    · rw [if_neg hleft]
      exact iff_of_true rfl (Nat.le_of_not_lt hleft)
  | gt =>
    have hst : s ≠ t := ne_of_compare (by rw [horder]; decide)
    simp only [rest_sign, hst, if_false, false_or, reduceCtorEq, false_and, or_false, true_and]
    by_cases hleft : left s t < 2 ^ 31
    · rw [if_pos hleft]
      exact iff_of_true rfl hleft
    · rw [if_neg hleft]
      exact iff_of_false (by decide) hleft

/-- `strcmp` and `strncmp` have the sign of the order anyway. -/
theorem agree_iff (hs : IsString p1 s) (ht : IsString p2 t) (hlen : len.toNat = min s.length t.length + 1) :
    Agree p1 p2 s t len ↔ rest_sign s t = compare s t := by
  have hmem := memcmp_sign hs ht hlen
  constructor
  · exact fun h => hmem.unique h.memcmp
  · exact fun heq => ⟨strcmp_sign hs ht, fun n hn _ => strncmp_sign hs ht hn, heq ▸ hmem⟩

/-- What is left does not depend on the order of the arguments. -/
theorem antisymmetric_iff (hs : IsString p1 s) (ht : IsString p2 t) (hlen : len.toNat = min s.length t.length + 1) :
    Antisymmetric p1 p2 s t len ↔ s = t := by
  have hmem := memcmp_sign hs ht hlen
  have hmem' : Sign (memcmp p2 p1 len) (rest_sign s t) :=
    rest_sign_comm t s ▸ memcmp_sign ht hs (Nat.min_comm _ _ ▸ hlen)
  constructor
  · intro h
    obtain ⟨o, ho, ho'⟩ := h.memcmp
    have hswap : o = o.swap := (ho.unique hmem).trans (hmem'.unique ho')
    rw [← rest_sign_eq_iff, hmem.unique ho]
    cases o with
    | eq => rfl
    | lt => cases hswap
    | gt => cases hswap
  · intro hst
    have hswap : compare t s = (compare s t).swap := Std.OrientedOrd.eq_swap
    refine ⟨⟨_, strcmp_sign hs ht, hswap ▸ strcmp_sign ht hs⟩,
      fun n hn hn' => ⟨_, strncmp_sign hs ht hn, hswap ▸ strncmp_sign ht hs hn'⟩, ⟨_, hmem, ?_⟩⟩
    rw [rest_sign_eq_iff.mpr hst] at hmem' ⊢
    exact hmem'

theorem separate (hs : IsString p1 s) (ht : IsString p2 t) (hlen : len.toNat = min s.length t.length + 1) :
    Separate p1 p2 s t len := by
  have horder : compare s t = .eq ↔ s = t := Std.LawfulEqOrd.compare_eq_iff_eq
  exact ⟨(strcmp_sign hs ht).zero_iff.trans horder, fun n hn _ => (strncmp_sign hs ht hn).zero_iff.trans horder,
    (memcmp_sign hs ht hlen).zero_iff.trans rest_sign_eq_iff⟩

/-- The comparisons agree on the order of two strings just if these are equal, or the rest that
`memcmp` returns happens to have the sign. They are not all antisymmetric unless the strings are
equal, but each is 0 for equal strings only. -/
theorem comparisons_agree_iff (hs : IsString p1 s) (ht : IsString p2 t)
    (hlen : len.toNat = min s.length t.length + 1) :
    (Agree p1 p2 s t len ↔ s = t ∨ (compare s t = .gt ∧ left s t < 2 ^ 31) ∨
      (compare s t = .lt ∧ 2 ^ 31 ≤ left s t)) ∧
    (Antisymmetric p1 p2 s t len ↔ s = t) ∧ Separate p1 p2 s t len :=
  ⟨(agree_iff hs ht hlen).trans rest_sign_compare_iff, antisymmetric_iff hs ht hlen, separate hs ht hlen⟩

end Order

/-- The strings "b" and "a". -/
theorem comparisons_b_a :
    (Agree (literal 0x1000 [98]) (literal 0x2000 [97]) [98] [97] 2 ↔ ([98] : List UInt8) = [97] ∨
      (compare ([98] : List UInt8) [97] = .gt ∧ left [98] [97] < 2 ^ 31) ∨
      (compare ([98] : List UInt8) [97] = .lt ∧ 2 ^ 31 ≤ left [98] [97])) ∧
    (Antisymmetric (literal 0x1000 [98]) (literal 0x2000 [97]) [98] [97] 2 ↔ ([98] : List UInt8) = [97]) ∧
    Separate (literal 0x1000 [98]) (literal 0x2000 [97]) [98] [97] 2 :=
  comparisons_agree_iff (by decide) (by decide) (by decide)

/-- "a" is before "b", but `memcmp` returns 2. -/
theorem memcmp_disagrees : ¬ ∀ (p1 p2 : Ptr) (s t : List UInt8) (len : UInt32), IsString p1 s → IsString p2 t →
    len.toNat = min s.length t.length + 1 → Agree p1 p2 s t len := by
  intro hall
  have hagree := hall (literal 0x1000 [97]) (literal 0x2000 [98]) [97] [98] 2 (by decide) (by decide) (by decide)
  obtain ⟨r, hr, hsign⟩ := hagree.memcmp
  have htwo : memcmp (literal 0x1000 [97]) (literal 0x2000 [98]) 2 = some 2 := by
    decide
  obtain rfl : 2 = r := Option.some.inj (htwo.symm.trans hr)
  exact absurd hsign (by decide)

end epos.strings
