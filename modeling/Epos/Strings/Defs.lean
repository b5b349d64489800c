import Mathlib.Algebra.Group.Nat.Defs

namespace epos.strings

/-- A pointer, with the bytes that can be read through it. -/
structure Ptr where
  bytes : UInt32 → Option UInt8
  addr : UInt32

def Ptr.get (p : Ptr) : Option UInt8 := p.bytes p.addr

def Ptr.add (p : Ptr) (i : Nat) : Ptr := { p with addr := p.addr + UInt32.ofNat i }

/-- The pointer through which only the byte at `p` and the `n` bytes after it can be read. -/
def Ptr.upto (p : Ptr) (n : Nat) : Ptr :=
  { p with bytes := fun a => if (a - p.addr).toNat ≤ n then p.bytes a else none }

/-- The bytes of `s`, none of which is 0, stand from `p` on, and a 0 after them. -/
def IsString (p : Ptr) : List UInt8 → Prop
  | [] => p.get = some 0
  | c :: s => c ≠ 0 ∧ p.get = some c ∧ IsString (p.add 1) s

instance decidableIsString (p : Ptr) : (s : List UInt8) → Decidable (IsString p s)
  | [] => inferInstanceAs (Decidable (p.get = some 0))
  | c :: s =>
    have := decidableIsString (p.add 1) s
    inferInstanceAs (Decidable (c ≠ 0 ∧ p.get = some c ∧ IsString (p.add 1) s))

/-- A pointer to `s` and the 0 after it, with no other byte. -/
def literal (addr : UInt32) (s : List UInt8) : Ptr where
  bytes a := (s ++ [0])[(a - addr).toNat]?
  addr := addr

/-! The functions of `string.c`. They are `none` when a byte is read that the pointer does not
have, or when a loop goes round all addresses without an end. -/

/-- `do ... while (--len)`: the `len` that the loop leaves. -/
def memcmp_loop : Nat → Ptr → Ptr → Option Nat
  | 0, _, _ => some 0
  | len + 1, p1, p2 =>
    p1.get.bind fun c1 => p2.get.bind fun c2 =>
      -- the break comes before `--len`
      if c1 ≠ c2 then some (len + 1) else memcmp_loop len (p1.add 1) (p2.add 1)

def memcmp (b1 b2 : Ptr) (len : UInt32) : Option Int32 :=
  if len = 0 then some len.toInt32
  else (memcmp_loop len.toNat b1 b2).map fun len => (UInt32.ofNat len).toInt32

/-- `*(s2 - 1)` is the byte that the condition has just read. -/
def strcmp_loop : Nat → Ptr → Ptr → Option Int32
  | 0, _, _ => none
  | fuel + 1, s1, s2 =>
    s1.get.bind fun c1 => s2.get.bind fun c2 =>
      if c1 = c2 then
        if c1 = 0 then some 0 else strcmp_loop fuel (s1.add 1) (s2.add 1)
      else some (Int32.ofInt (c1.toNat - c2.toNat))

def strcmp (s1 s2 : Ptr) : Option Int32 := strcmp_loop UInt32.size s1 s2

def strncmp_loop : Nat → Ptr → Ptr → Option Int32
  | 0, _, _ => some 0
  | count + 1, cs, ct =>
    cs.get.bind fun c1 => ct.get.bind fun c2 =>
      if c1 ≠ c2 then some (if c1 < c2 then -1 else 1)
      else if c1 = 0 then some 0
      else strncmp_loop count (cs.add 1) (ct.add 1)

def strncmp (cs ct : Ptr) (count : UInt32) : Option Int32 := strncmp_loop count.toNat cs ct

def strlen_loop : Nat → Ptr → Option Ptr
  | 0, _ => none
  | fuel + 1, s => s.get.bind fun c => if c ≠ 0 then strlen_loop fuel (s.add 1) else some s

def strlen (str : Ptr) : Option UInt32 := (strlen_loop UInt32.size str).map fun s => s.addr - str.addr

/-- `while (l1 >= l2)`; the inner `none` is `NULL`. -/
def strstr_loop (s2 : Ptr) (l2 : UInt32) : Nat → UInt32 → Ptr → Option (Option Ptr)
  | 0, _, _ => none
  | fuel + 1, l1, s1 =>
    if l1 ≥ l2 then
      let l1 := l1 - 1
      (memcmp s1 s2 l2).bind fun r =>
        if r = 0 then some (some s1) else strstr_loop s2 l2 fuel l1 (s1.add 1)
    else some none

def strstr (s1 s2 : Ptr) : Option (Option Ptr) :=
  (strlen s2).bind fun l2 =>
    if l2 = 0 then some (some s1)
    else (strlen s1).bind fun l1 => strstr_loop s2 l2 UInt32.size l1 s1

section Pointers

variable {p : Ptr} {s : List UInt8}

theorem Ptr.add_zero (p : Ptr) : p.add 0 = p :=
  congrArg (Ptr.mk p.bytes) (UInt32.add_zero p.addr)

theorem Ptr.add_add (p : Ptr) (i j : Nat) : (p.add i).add j = p.add (i + j) := by
  simp only [Ptr.add, UInt32.add_assoc, ← UInt32.ofNat_add]

theorem IsString.tail {c : UInt8} (h : IsString p (c :: s)) : IsString (p.add 1) s := h.2.2

theorem IsString.get {i : Nat} (h : IsString p s) (hi : i < s.length) :
    ∃ c, c ≠ 0 ∧ (p.add i).get = some c := by
  induction s generalizing p i with
  | nil => exact absurd hi (Nat.not_lt_zero i)
  | cons c s ih =>
    obtain ⟨hc, hget, htail⟩ := h
    cases i with
    | zero =>
      rw [Ptr.add_zero]
      exact ⟨c, hc, hget⟩
    | succ i =>
      obtain ⟨d, hd, hget⟩ := ih htail (Nat.lt_of_succ_lt_succ hi)
      rw [Ptr.add_add, Nat.add_comm] at hget
      exact ⟨d, hd, hget⟩

theorem IsString.get_end (h : IsString p s) : (p.add s.length).get = some 0 := by
  induction s generalizing p with
  | nil =>
    rw [List.length_nil, Ptr.add_zero]
    exact h
  | cons c s ih =>
    have hend := ih h.tail
    rwa [Ptr.add_add, Nat.add_comm] at hend

/-- There are 2^32 addresses, and one of them has the 0. -/
theorem IsString.length_lt (h : IsString p s) : s.length < UInt32.size := by
  refine Nat.lt_of_not_le fun hge => ?_
  obtain ⟨c, hc, hget⟩ := h.get (Nat.sub_lt_self (Nat.two_pow_pos 32) hge)
  have haround : p.add (s.length - UInt32.size) = p.add s.length := by
    have heq : UInt32.ofNat (s.length - UInt32.size) = UInt32.ofNat s.length := by
      rw [← UInt32.toNat_inj, UInt32.toNat_ofNat', UInt32.toNat_ofNat']
      exact (Nat.mod_eq_sub_mod hge).symm
    simp only [Ptr.add, heq]
  rw [haround, h.get_end] at hget
  exact hc (Option.some.inj hget).symm

end Pointers

end epos.strings
