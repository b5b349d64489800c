import Epos.Printf.Digits

open bytes

namespace epos.uart

/-- `n` digits from `_char` on, the last one first. -/
def put_digits (last : UInt32 → UInt8) (rest : UInt32 → UInt32) (_char : UInt32) : Nat → UInt32 → ByteMem → ByteMem
  | 0, _, mem => mem
  | n + 1, _int, mem => put_digits last rest _char n (rest _int) (store8 mem (_char + UInt32.ofNat n) (last _int))

def IntToString (mem : ByteMem) (_int _char : UInt32) : ByteMem :=
  put_digits (fun _int => (_int % 10 + '0'.toUInt8.toUInt32).toUInt8) (· / 10) _char 4 _int mem

def hex_digit (_int : UInt32) : UInt8 :=
  let _temp := _int &&& 0xf
  if _temp ≤ 0x9 then ('0'.toUInt8.toUInt32 + _temp).toUInt8 else ('A'.toUInt8.toUInt32 + _temp - 0xA).toUInt8

def HexToString (mem : ByteMem) (_int _char : UInt32) : ByteMem :=
  put_digits hex_digit (· >>> 4) (_char + 2) 8 _int (store8 (store8 mem _char '0'.toUInt8) (_char + 1) 'x'.toUInt8)

/-- The bytes that are sent. -/
def uart_write (mem : ByteMem) (buffer : UInt32) (size : Int32) : List UInt8 :=
  (List.range size.toInt.toNat).map fun i => mem (buffer + UInt32.ofNat i)

def uart_puts (mem : ByteMem) (str : UInt32) : Option (List UInt8) :=
  (strings.strlen (strings.Ptr.into mem str)).map fun n => uart_write mem str n.toInt32

section Digits

variable {last : UInt32 → UInt8} {rest : UInt32 → UInt32} {b n : Nat} {mem : ByteMem}

theorem put_digits_outside {p a : UInt32} (ha : n ≤ (a - p).toNat) (x : UInt32) : put_digits last rest p n x mem a = mem a := by
  induction n generalizing x mem with
  | zero => rfl
  | succ n ih =>
    rw [put_digits, ih (by omega)]
    refine if_neg ?_
    rintro rfl
    rw [UInt32.add_comm, UInt32.add_sub_cancel, UInt32.toNat_ofNat'] at ha
    omega

/-- The digits read as the number, as far as there is room for them. -/
theorem put_digits_read (hlast : ∀ x, snprintf.digit_value (last x) = x.toNat % b) (hrest : ∀ x, (rest x).toNat = x.toNat / b)
    (hn : n ≤ 2 ^ 32) (p x : UInt32) :
    snprintf.read b ((List.range n).map fun i => put_digits last rest p n x mem (p + UInt32.ofNat i)) = x.toNat % b ^ n := by
  induction n generalizing x mem with
  | zero =>
    rw [Nat.pow_zero, Nat.mod_one]
    rfl
  | succ n ih =>
    have hend : put_digits last rest p (n + 1) x mem (p + UInt32.ofNat n) = last x := by
      have hback := offset_toNat p (Nat.lt_of_succ_le hn)
      exact (put_digits_outside (Nat.le_of_eq hback.symm) (rest x)).trans (if_pos rfl)
    rw [List.range_succ, List.map_append, List.map_singleton, hend, snprintf.read_append]
    rw [put_digits, ih (Nat.le_of_succ_le hn), List.foldl_cons, List.foldl_nil, hlast, hrest, Nat.pow_succ', Nat.mod_mul, Nat.add_comm]

/-- Every byte is what some number ends in. -/
theorem put_digits_last (hn : n ≤ 2 ^ 32) (p x : UInt32) {i : Nat} (hi : i < n) :
    ∃ y, put_digits last rest p n x mem (p + UInt32.ofNat i) = last y := by
  induction n generalizing x mem with
  | zero => cases hi
  | succ n ih =>
    rw [put_digits]
    obtain hi | rfl := Nat.lt_succ_iff_lt_or_eq.mp hi
    · exact ih (Nat.le_of_succ_le hn) (rest x) hi
    · have hback := offset_toNat p (Nat.lt_of_succ_le hn)
      exact ⟨x, (put_digits_outside (Nat.le_of_eq hback.symm) (rest x)).trans (if_pos rfl)⟩

theorem decimal_digit : ∀ d < 10, (UInt32.ofNat d + '0'.toUInt8.toUInt32).toUInt8 = snprintf.digit false d := by decide

theorem hex_digit_eq : ∀ d < 16, hex_digit (UInt32.ofNat d) = snprintf.digit true d := by decide

theorem hex_digit_and (x : UInt32) : hex_digit x = hex_digit (UInt32.ofNat (x.toNat % 16)) := by
  have hand : x &&& 0xf = UInt32.ofNat (x.toNat % 16) &&& 0xf := by
    have hmask : (0xf : UInt32).toNat = 2 ^ 4 - 1 := rfl
    have hlt := x.toNat_lt
    rw [← UInt32.toNat_inj, UInt32.toNat_and, UInt32.toNat_and, hmask, Nat.and_two_pow_sub_one_eq_mod,
      Nat.and_two_pow_sub_one_eq_mod, UInt32.toNat_ofNat']
    omega
  unfold hex_digit
  rw [hand]

theorem hex_last (x : UInt32) : hex_digit x = snprintf.digit true (x.toNat % 16) := by
  rw [hex_digit_and]
  exact hex_digit_eq _ (Nat.mod_lt _ (by decide))

theorem decimal_last (x : UInt32) :
    (x % 10 + '0'.toUInt8.toUInt32).toUInt8 = snprintf.digit false (x.toNat % 10) := by
  have hmod : x % 10 = UInt32.ofNat (x.toNat % 10) := by
    have hten : (10 : UInt32).toNat = 10 := rfl
    rw [← UInt32.toNat_inj, UInt32.toNat_mod, UInt32.toNat_ofNat', hten]
    omega
  rw [hmod]
  exact decimal_digit _ (Nat.mod_lt _ (by decide))

end Digits

section Texts

/-- `HexToString` writes all digits of the number. -/
theorem HexToString_reads (mem : ByteMem) (_int _char : UInt32) :
    HexToString mem _int _char _char = '0'.toUInt8 ∧ HexToString mem _int _char (_char + 1) = 'x'.toUInt8 ∧
      (∀ i < 8, ∃ d < 16, HexToString mem _int _char (_char + 2 + UInt32.ofNat i) = snprintf.digit true d) ∧
      snprintf.read 16 ((List.range 8).map fun i => HexToString mem _int _char (_char + 2 + UInt32.ofNat i)) = _int.toNat ∧
      ∀ a, 10 ≤ (a - _char).toNat → HexToString mem _int _char a = mem a := by
  have hlast : ∀ x, snprintf.digit_value (hex_digit x) = x.toNat % 16 := by
    intro x
    rw [hex_last]
    exact snprintf.digit_value_digit true _ (Nat.mod_lt _ (by decide))
  have hrest : ∀ x : UInt32, (x >>> 4).toNat = x.toNat / 16 := by
    intro x
    rw [UInt32.toNat_shiftRight]
    exact Nat.shiftRight_eq_div_pow _ 4
  have hlt := _int.toNat_lt
  have hlt' := _char.toNat_lt
  have htwo : (2 : UInt32).toNat = 2 := rfl
  have hone : (1 : UInt32).toNat = 1 := rfl
  refine ⟨?_, ?_, fun i hi => ?_, ?_, fun a ha => ?_⟩
  · have hne : _char ≠ _char + 1 := by
      intro heq
      have hsame := congrArg UInt32.toNat heq
      rw [UInt32.toNat_add, hone] at hsame
      omega
    refine (put_digits_outside ?_ _).trans ((if_neg hne).trans (if_pos rfl))
    rw [UInt32.toNat_sub, UInt32.toNat_add, htwo]
    omega
  · refine (put_digits_outside ?_ _).trans (if_pos rfl)
    rw [UInt32.toNat_sub, UInt32.toNat_add, UInt32.toNat_add, htwo, hone]
    omega
  · obtain ⟨y, hy⟩ := put_digits_last (by decide) (_char + 2) _int hi
    exact ⟨_, Nat.mod_lt y.toNat (by decide), hy.trans (hex_last y)⟩
  · unfold HexToString
    rw [put_digits_read hlast hrest (by decide)]
    exact Nat.mod_eq_of_lt (Nat.lt_of_lt_of_le hlt (by decide))
  · rw [UInt32.toNat_sub] at ha
    have hfirst : a ≠ _char := by
      rintro rfl
      omega
    have hsecond : a ≠ _char + 1 := by
      rintro rfl
      rw [UInt32.toNat_add, hone] at ha
      omega
    refine (put_digits_outside ?_ _).trans ((if_neg hsecond).trans (if_neg hfirst))
    rw [UInt32.toNat_sub, UInt32.toNat_add, htwo]
    omega

/-- `IntToString` has room for four digits. -/
theorem IntToString_reads_iff (mem : ByteMem) (_int _char : UInt32) :
    (snprintf.read 10 ((List.range 4).map fun i => IntToString mem _int _char (_char + UInt32.ofNat i)) = _int.toNat ↔
        _int.toNat < 10000) ∧
      (∀ i < 4, ∃ d < 10, IntToString mem _int _char (_char + UInt32.ofNat i) = snprintf.digit false d) ∧
      ∀ a, 4 ≤ (a - _char).toNat → IntToString mem _int _char a = mem a := by
  have hlast : ∀ x : UInt32, snprintf.digit_value (x % 10 + '0'.toUInt8.toUInt32).toUInt8 = x.toNat % 10 := by
    intro x
    rw [decimal_last]
    exact snprintf.digit_value_digit false _ (Nat.lt_of_lt_of_le (Nat.mod_lt _ (by decide)) (by decide))
  have hrest : ∀ x : UInt32, (x / 10).toNat = x.toNat / 10 := fun x => UInt32.toNat_div ..
  refine ⟨?_, fun i hi => ?_, fun a ha => put_digits_outside ha _⟩
  · unfold IntToString
    rw [put_digits_read hlast hrest (by decide)]
    exact ⟨fun h => h ▸ Nat.mod_lt _ (by decide), fun h => Nat.mod_eq_of_lt h⟩
  · obtain ⟨y, hy⟩ := put_digits_last (by decide) _char _int hi
    exact ⟨_, Nat.mod_lt y.toNat (by decide), hy.trans (decimal_last y)⟩

/-- `uart_puts` sends the string. -/
theorem uart_puts_sends {mem : ByteMem} {str : UInt32} {s : List UInt8} (h : strings.IsString (strings.Ptr.into mem str) s)
    (hs : s.length < 2 ^ 31) : uart_puts mem str = some s := by
  have hint : (UInt32.ofNat s.length).toInt32 = Int32.ofNat s.length := rfl
  have hlength : (Int32.ofNat s.length).toInt = s.length := Int32.toInt_ofNat_of_lt hs
  rw [uart_puts, strings.strlen_eq h, Option.map_some, uart_write, hint, hlength, Int.toNat_natCast, h.read_back]

theorem uart_puts_sends_a : uart_puts (store8 (fun _ => 0) 0x100 0x61) 0x100 = some [0x61] :=
  uart_puts_sends (by decide) (by decide)

end Texts

end epos.uart
