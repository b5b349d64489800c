import Epos.Strings.Defs

namespace epos.strings

def memchr_loop (c : UInt8) : Nat → Ptr → Option (Option Ptr)
  | 0, _ => some none
  | n + 1, p => p.get.bind fun b => if c = b then some (some p) else memchr_loop c n (p.add 1)

def memchr (s : Ptr) (c : Int32) (n : UInt32) : Option (Option Ptr) := memchr_loop c.toUInt32.toUInt8 n.toNat s

def strchr_loop (c : UInt8) : Nat → Ptr → Option (Option Ptr)
  | 0, _ => none
  | fuel + 1, s =>
    s.get.bind fun b =>
      if b ≠ c then
        if b = 0 then some none else strchr_loop c fuel (s.add 1)
      else some (some s)

def strchr (s : Ptr) (c : Int32) : Option (Option Ptr) := strchr_loop c.toUInt32.toUInt8 UInt32.size s

def strrchr_loop (c : UInt8) : Nat → Ptr → Option Ptr → Option (Option Ptr)
  | 0, _, _ => none
  | fuel + 1, s, last =>
    s.get.bind fun b =>
      let last := if b = c then some s else last
      if b ≠ 0 then strrchr_loop c fuel (s.add 1) last else some last

def strrchr (s : Ptr) (c : Int32) : Option (Option Ptr) := strrchr_loop c.toUInt32.toUInt8 UInt32.size s none

/-- The first of the bytes from `p` on that is `c`, if there is one. -/
def FirstOf (p : Ptr) (bs : List UInt8) (c : UInt8) : Option Ptr → Prop
  | some q => ∃ i, q = p.add i ∧ bs[i]? = some c ∧ ∀ j < i, bs[j]? ≠ some c
  | none => c ∉ bs

def LastOf (p : Ptr) (bs : List UInt8) (c : UInt8) : Option Ptr → Prop
  | some q => ∃ i, q = p.add i ∧ bs[i]? = some c ∧ ∀ j > i, bs[j]? ≠ some c
  | none => c ∉ bs

/-- The bytes that can be read from `p` on. -/
def Bytes (p : Ptr) (bs : List UInt8) : Prop := ∀ i, (_ : i < bs.length) → (p.add i).get = some bs[i]

instance (p : Ptr) (bs : List UInt8) : Decidable (Bytes p bs) :=
  inferInstanceAs (Decidable (∀ i, (_ : i < bs.length) → (p.add i).get = some bs[i]))

section Scans

variable {p q : Ptr} {b c : UInt8} {bs s : List UInt8} {r : Option Ptr} {n : Nat}

theorem FirstOf.head (p : Ptr) (c : UInt8) (bs : List UInt8) : FirstOf p (c :: bs) c (some p) :=
  ⟨0, p.add_zero.symm, rfl, fun _ hj => absurd hj (Nat.not_lt_zero _)⟩

theorem FirstOf.tail (h : FirstOf (p.add 1) bs c r) (hne : b ≠ c) : FirstOf p (b :: bs) c r := by
  cases r with
  | none => exact fun hmem => (List.mem_cons.mp hmem).elim (fun heq => hne heq.symm) h
  | some q =>
    obtain ⟨i, hq, hi, hfirst⟩ := h
    refine ⟨i + 1, ?_, hi, fun j hj => ?_⟩
    · rw [hq, Ptr.add_add, Nat.add_comm]
    · cases j with
      | zero => exact fun heq => hne (Option.some.inj heq)
      | succ j => exact hfirst j (Nat.lt_of_succ_lt_succ hj)

theorem LastOf.tail (h : LastOf (p.add 1) bs c (some q)) : LastOf p (b :: bs) c (some q) := by
  obtain ⟨i, hq, hi, hlast⟩ := h
  refine ⟨i + 1, ?_, hi, fun j hj => ?_⟩
  · rw [hq, Ptr.add_add, Nat.add_comm]
  · cases j with
    | zero => exact absurd hj (Nat.not_lt_zero _)
    | succ j => exact hlast j (Nat.lt_of_succ_lt_succ hj)

/-- A byte that does not occur again. -/
theorem LastOf.head (hmem : c ∉ bs) (p : Ptr) : LastOf p (c :: bs) c (some p) := by
  refine ⟨0, p.add_zero.symm, rfl, fun j hj heq => ?_⟩
  obtain ⟨j, rfl⟩ := Nat.exists_eq_succ_of_ne_zero (Nat.ne_of_gt hj)
  exact hmem (List.mem_of_getElem? heq)

theorem Bytes.tail (h : Bytes p (b :: bs)) : Bytes (p.add 1) bs := by
  intro i hi
  rw [Ptr.add_add, Nat.add_comm]
  exact h (i + 1) (Nat.succ_lt_succ hi)

theorem Bytes.head (h : Bytes p (b :: bs)) : p.get = some b := by
  have hfirst := h 0 (Nat.succ_pos _)
  rwa [Ptr.add_zero] at hfirst

theorem memchr_loop_first (h : Bytes p bs) : ∃ r, memchr_loop c bs.length p = some r ∧ FirstOf p bs c r := by
  induction bs generalizing p with
  | nil => exact ⟨none, rfl, List.not_mem_nil⟩
  | cons b bs ih =>
    rw [List.length_cons, memchr_loop, h.head, Option.bind_some]
    by_cases hc : c = b
    · rw [if_pos hc, hc]
      exact ⟨some p, rfl, FirstOf.head p b bs⟩
    · obtain ⟨r, hrun, hr⟩ := ih h.tail
      rw [if_neg hc]
      exact ⟨r, hrun, hr.tail fun heq => hc heq.symm⟩

/-- The loop reads nothing behind the byte that it finds. -/
theorem memchr_first (hn : bs.length < UInt32.size) (h : Bytes p bs) (c : Int32) :
    ∃ r, memchr p c (UInt32.ofNat bs.length) = some r ∧ FirstOf p bs c.toUInt32.toUInt8 r := by
  unfold memchr
  rw [UInt32.toNat_ofNat_of_lt' hn]
  exact memchr_loop_first h

theorem memchr_first_b : ∃ r, memchr (literal 0x100 ("abab".toList.map Char.toUInt8)) 0x62 2 = some r ∧
    FirstOf (literal 0x100 ("abab".toList.map Char.toUInt8)) [0x61, 0x62] 0x62 r := by
  have hbytes : Bytes (literal 0x100 ("abab".toList.map Char.toUInt8)) [0x61, 0x62] := by decide
  exact memchr_first (by decide) hbytes 0x62

theorem strchr_loop_first (h : IsString p s) (hn : s.length < n) :
    ∃ r, strchr_loop c n p = some r ∧ FirstOf p (s ++ [0]) c r := by
  induction s generalizing p n with
  | nil =>
    obtain ⟨n, rfl⟩ := Nat.exists_eq_succ_of_ne_zero (Nat.ne_of_gt hn)
    have hget : p.get = some 0 := h
    rw [strchr_loop, hget, Option.bind_some]
    by_cases hc : (0 : UInt8) = c
    · rw [if_neg (Decidable.not_not.mpr hc), ← hc]
      exact ⟨some p, rfl, FirstOf.head p 0 []⟩
    · rw [if_pos hc, if_pos rfl]
      exact ⟨none, rfl, fun hmem => hc (List.mem_singleton.mp hmem).symm⟩
  | cons b s ih =>
    obtain ⟨n, rfl⟩ := Nat.exists_eq_succ_of_ne_zero (Nat.ne_zero_of_lt hn)
    rw [strchr_loop, h.2.1, Option.bind_some]
    by_cases hc : b = c
    · rw [if_neg (Decidable.not_not.mpr hc), hc, List.cons_append]
      exact ⟨some p, rfl, FirstOf.head p c (s ++ [0])⟩
    · obtain ⟨r, hrun, hr⟩ := ih h.tail (Nat.lt_of_succ_lt_succ hn)
      rw [if_pos hc, if_neg h.1]
      exact ⟨r, hrun, hr.tail hc⟩

/-- The end of the string counts as a character. -/
theorem strchr_first (h : IsString p s) (c : Int32) :
    ∃ r, strchr p c = some r ∧ FirstOf p (s ++ [0]) c.toUInt32.toUInt8 r :=
  strchr_loop_first h h.length_lt

theorem strchr_first_b : ∃ r, strchr (literal 0x100 ("abab".toList.map Char.toUInt8)) 0x62 = some r ∧
    FirstOf (literal 0x100 ("abab".toList.map Char.toUInt8)) ("abab".toList.map Char.toUInt8 ++ [0]) 0x62 r :=
  strchr_first (by decide) 0x62

theorem strrchr_loop_last (h : IsString p s) (hn : s.length < n) (last : Option Ptr) :
    ∃ r, LastOf p (s ++ [0]) c r ∧ strrchr_loop c n p last = some (r.or last) := by
  induction s generalizing p n last with
  | nil =>
    obtain ⟨n, rfl⟩ := Nat.exists_eq_succ_of_ne_zero (Nat.ne_of_gt hn)
    have hget : p.get = some 0 := h
    simp only [strrchr_loop, hget, Option.bind_some, ne_eq, not_true, if_false, List.nil_append]
    by_cases hc : (0 : UInt8) = c
    · rw [if_pos hc, ← hc]
      exact ⟨some p, LastOf.head List.not_mem_nil p, rfl⟩
    · rw [if_neg hc]
      exact ⟨none, fun hmem => hc (List.mem_singleton.mp hmem).symm, rfl⟩
  | cons b s ih =>
    obtain ⟨n, rfl⟩ := Nat.exists_eq_succ_of_ne_zero (Nat.ne_zero_of_lt hn)
    obtain ⟨r, hr, hrun⟩ := ih h.tail (Nat.lt_of_succ_lt_succ hn) (if b = c then some p else last)
    simp only [strrchr_loop, h.2.1, Option.bind_some, if_pos h.1, List.cons_append]
    rw [hrun]
    cases r with
    | some q => exact ⟨some q, hr.tail, rfl⟩
    | none =>
      have hmem : c ∉ s ++ [0] := hr
      by_cases hc : b = c
      · rw [if_pos hc, hc]
        exact ⟨some p, LastOf.head hmem p, rfl⟩
      · rw [if_neg hc]
        exact ⟨none, fun h => (List.mem_cons.mp h).elim (fun heq => hc heq.symm) hmem, rfl⟩

theorem strrchr_last (h : IsString p s) (c : Int32) :
    ∃ r, strrchr p c = some r ∧ LastOf p (s ++ [0]) c.toUInt32.toUInt8 r := by
  obtain ⟨r, hr, hrun⟩ := strrchr_loop_last h h.length_lt none
  rw [Option.or_none] at hrun
  exact ⟨r, hrun, hr⟩

theorem strrchr_last_b : ∃ r, strrchr (literal 0x100 ("abab".toList.map Char.toUInt8)) 0x62 = some r ∧
    LastOf (literal 0x100 ("abab".toList.map Char.toUInt8)) ("abab".toList.map Char.toUInt8 ++ [0]) 0x62 r :=
  strrchr_last (by decide) 0x62

end Scans

end epos.strings
