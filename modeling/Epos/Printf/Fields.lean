import Epos.Lib.WordMem
import Epos.Printf.Digits
import Epos.Printf.Render

open sink

namespace epos.snprintf

section Fields

variable {value w m : Int32} {base flags : UInt32}

theorem sub_toInt {x y : Int32} (hlo : -0x80000000 ≤ x.toInt - y.toInt) (hhi : x.toInt - y.toInt < 0x80000000) :
    (x - y).toInt = x.toInt - y.toInt := by
  rw [Int32.toInt_sub]
  exact Int.bmod_eq_of_le (by omega) (by omega)

theorem clamp_toInt (x : Int32) : (if x < 0 then 0 else x).toInt = max x.toInt 0 := by
  have hlt : x < 0 ↔ x.toInt < 0 := Int32.lt_iff_toInt_lt
  have hzero : (0 : Int32).toInt = 0 := rfl
  by_cases hneg : x < 0
  · have hneg' := hlt.mp hneg
    rw [if_pos hneg, hzero]
    omega
  · have hneg' := mt hlt.mpr hneg
    rw [if_neg hneg]
    omega

theorem MAX_toInt (x y : Int32) : (MAX x y).toInt = max x.toInt y.toInt := by
  have hle : x ≥ y ↔ y.toInt ≤ x.toInt := Int32.le_iff_toInt_le
  unfold MAX
  by_cases hge : x ≥ y
  · have hge' := hle.mp hge
    rw [if_pos hge]
    omega
  · have hge' := mt hle.mpr hge
    rw [if_neg hge]
    omega

/-- The spaces and the zeros of a number, without an overflow if the width is not negative. -/
theorem pads_eq {place sg : Nat} {signvalue : UInt8} (hplace : place ≤ 11) (hw : 0 ≤ w.toInt)
    (hsg : sg = if signvalue ≠ 0 then 1 else 0) (m : Int32) (flags : UInt32) :
    pads place signvalue w m flags =
      if flags &&& DP_F_ZERO ≠ 0 then (0, (max (max m.toInt 0 - place) (w.toInt - max (max m.toInt 0) place - sg)).toNat)
      else ((w.toInt - max (max m.toInt 0) place - sg).toNat, (max m.toInt 0 - place).toNat) := by
  have hwlt := w.toInt_lt
  have hmlt := m.toInt_lt
  have hplace' : (Int32.ofNat place).toInt = place := Int32.toInt_ofNat_of_lt (by omega)
  have hsg' : (if signvalue ≠ 0 then (1 : Int32) else 0).toInt = sg := by
    rw [hsg]
    split <;> rfl
  have hsmall : sg ≤ 1 := by
    rw [hsg]
    split <;> omega
  unfold pads
  simp only
  have hmax := clamp_toInt m
  generalize (if m < 0 then 0 else m) = mx at hmax ⊢
  generalize (if signvalue ≠ 0 then (1 : Int32) else 0) = one at hsg' ⊢
  have hbig := MAX_toInt mx (Int32.ofNat place)
  rw [hplace'] at hbig
  have hzeros : (mx - Int32.ofNat place).toInt = mx.toInt - place := by
    rw [sub_toInt (by omega) (by omega), hplace']
  have hrest : (w - MAX mx (Int32.ofNat place)).toInt = w.toInt - max mx.toInt place := by
    rw [sub_toInt (by omega) (by omega), hbig]
  have hspaces : (w - MAX mx (Int32.ofNat place) - one).toInt = w.toInt - max mx.toInt place - sg := by
    rw [sub_toInt (by omega) (by omega), hrest, hsg']
  rw [MAX_toInt, clamp_toInt, clamp_toInt, hzeros, hspaces, ← hmax]
  split
  · refine Prod.ext rfl ?_
    simp only
    omega
  · refine Prod.ext ?_ ?_
    · simp only
      omega
    · simp only
      omega

/-- The length of a number with its field. -/
theorem int_text_length (hbase : base = 8 ∨ base = 10 ∨ base = 16) (value w m : Int32) (flags : UInt32) {place : Nat}
    (hplace : place = (convert_loop (flags &&& DP_F_UP ≠ 0) base 20 (uvalue_of value flags)).length) :
    (int_text value base w m flags).length = (pads place (sign_of value flags) w m flags).1 +
      (pads place (sign_of value flags) w m flags).2 + place + (if sign_of value flags ≠ 0 then 1 else 0) := by
  have hle := (converted hbase (flags &&& DP_F_UP ≠ 0) (uvalue_of value flags)).le
  rw [← hplace] at hle
  have hroom : place ≠ 20 := by omega
  have hsign : (if sign_of value flags ≠ 0 then [sign_of value flags] else []).length =
      if sign_of value flags ≠ 0 then 1 else 0 := by
    split <;> rfl
  unfold int_text
  simp only [← hplace, if_neg hroom, List.length_append, List.length_reverse, List.length_replicate, List.length_take, hsign,
    Nat.min_self]
  by_cases hleft : flags &&& DP_F_MINUS ≠ 0
  · rw [if_pos hleft, if_pos hleft, List.length_nil, List.length_replicate]
    omega
  · rw [if_neg hleft, if_neg hleft, List.length_nil, List.length_replicate]
    omega

/-- A number fills its field, unless it has the flag for zeros and a precision that asks for more digits than the
number has, but for fewer than the field has room for. -/
theorem fmtint_fills_iff (hbase : base = 8 ∨ base = 10 ∨ base = 16) (hw : 0 ≤ w.toInt) (buffer maxlen : UInt32) (o : Sink)
    (value m : Int32) (flags : UInt32) :
    ∃ text, fmtint buffer maxlen o value base w m flags = puts buffer maxlen o text ∧
      (w.toInt ≤ text.length ↔ ¬ (flags &&& DP_F_ZERO ≠ 0 ∧
        (convert_loop (flags &&& DP_F_UP ≠ 0) base 20 (uvalue_of value flags)).length < m.toInt ∧
        m.toInt + (if sign_of value flags ≠ 0 then 1 else 0) < w.toInt)) := by
  refine ⟨_, fmtint_eq .., ?_⟩
  obtain ⟨place, hplace⟩ :
      ∃ place, place = (convert_loop (flags &&& DP_F_UP ≠ 0) base 20 (uvalue_of value flags)).length := ⟨_, rfl⟩
  obtain ⟨sg, hsg⟩ : ∃ sg : Nat, sg = if sign_of value flags ≠ 0 then 1 else 0 := ⟨_, rfl⟩
  have hle := (converted hbase (flags &&& DP_F_UP ≠ 0) (uvalue_of value flags)).le
  have hsg' : (if sign_of value flags ≠ 0 then (1 : Int) else 0) = sg := by
    rw [hsg]
    split <;> rfl
  rw [← hplace] at hle ⊢
  rw [int_text_length hbase value w m flags hplace, pads_eq hle hw hsg, ← hsg, hsg']
  by_cases hzeros : flags &&& DP_F_ZERO ≠ 0
  · rw [if_pos hzeros, and_iff_right hzeros]
    simp only
    omega
  · rw [if_neg hzeros]
    simp only
    refine iff_of_true (by omega) fun h => hzeros h.1

theorem fmtint_fills_iff_zeros : ∃ text,
    fmtint 0x200 16 ⟨fun _ => 0, 0⟩ 5 10 8 3 DP_F_ZERO = puts 0x200 16 ⟨fun _ => 0, 0⟩ text ∧
    ¬ 8 ≤ (text.length : Int) := by
  have hwidth : (8 : Int32).toInt = 8 := rfl
  obtain ⟨text, htext, hfills⟩ :=
    fmtint_fills_iff (Or.inr (Or.inl rfl)) (w := 8) (by decide) 0x200 16 ⟨fun _ => 0, 0⟩ 5 3 DP_F_ZERO
  rw [hwidth] at hfills
  exact ⟨text, htext, fun h => hfills.mp h (by decide)⟩

/-- The length of a string with its field, the precision of which holds for both. -/
theorem str_text_length {s : List UInt8} (hs : s.length < 2 ^ 31) (hw : 0 ≤ w.toInt) (m : Int32) (flags : UInt32) :
    (str_text s flags w m).length = min m.toInt.toNat (max w.toInt.toNat s.length) := by
  have hwlt := w.toInt_lt
  have hs' : (Int32.ofNat s.length).toInt = s.length := Int32.toInt_ofNat_of_lt hs
  have hpad : (w - Int32.ofNat s.length).toInt = w.toInt - s.length := by
    rw [sub_toInt (by omega) (by omega), hs']
  unfold str_text
  simp only [List.length_take]
  rw [clamp_toInt, hpad]
  split
  · rw [List.length_append, List.length_replicate]
    omega
  · rw [List.length_append, List.length_replicate]
    omega

/-- A string with a precision fills its field only if the precision is not less than the width: the padding counts. -/
theorem fmtstr_fills_iff {buffer maxlen value : UInt32} {o : Sink} {s : List UInt8} (h : Source o.mem buffer maxlen value s)
    (hs : s.length < 2 ^ 31) (hw : 0 ≤ w.toInt) (hm : 0 ≤ m.toInt) (flags : UInt32) :
    ∃ text, fmtstr buffer maxlen o value flags w m = some (puts buffer maxlen o text) ∧
      (w.toInt ≤ text.length ↔ w.toInt ≤ m.toInt) := by
  refine ⟨_, fmtstr_eq h flags w m, ?_⟩
  rw [str_text_length hs hw]
  omega

theorem fmtstr_fills_iff_null : ∃ text,
    fmtstr 0x200 16 ⟨fun _ => 0, 0⟩ 0 0 10 3 = some (puts 0x200 16 ⟨fun _ => 0, 0⟩ text) ∧
    ¬ 10 ≤ (text.length : Int) := by
  have hsource : Source (fun _ => 0) 0x200 16 0 ("<NULL>".toList.map Char.toUInt8) := by
    refine ⟨by decide, by decide, by decide, fun h => absurd rfl h⟩
  have hwidth : (10 : Int32).toInt = 10 := rfl
  obtain ⟨text, htext, hfills⟩ :=
    fmtstr_fills_iff (o := ⟨fun _ => 0, 0⟩) (w := 10) (m := 3) hsource (by decide) (by decide) (by decide) 0
  rw [hwidth] at hfills
  exact ⟨text, htext, fun h => absurd (hfills.mp h) (by decide)⟩

end Fields

section Pointers

/-- No flag of a directive makes a number unsigned, or asks for capitals. -/
theorem flag_bits_and {fs : List UInt8} {start mask : UInt32} (hmask : mask = DP_F_UNSIGNED ∨ mask = DP_F_UP)
    (hstart : start &&& mask = 0) :
    flag_bits fs start &&& mask = 0 := by
  induction fs generalizing start with
  | nil => exact hstart
  | cons c fs ih =>
    have hbit : (flag_of c).getD 0 &&& mask = 0 := by
      unfold flag_of
      obtain rfl | rfl := hmask
      all_goals
        split
        · decide
        split
        · decide
        split
        · decide
        split
        · decide
        split
        · decide
        · decide
    refine ih ?_
    rw [words.or_and, hstart, hbit]
    rfl

theorem pointer_bits_and {mask : UInt32} (hmask : mask = DP_F_UNSIGNED ∨ mask = DP_F_UP) (d : Directive) :
    (d.bits ||| IntConv.p.bits) &&& mask = 0 := by
  rw [words.or_and, Directive.bits, flag_bits_and hmask UInt32.zero_and, UInt32.zero_or]
  exact UInt32.zero_and

theorem sign_of_mem (value : Int32) (flags : UInt32) :
    sign_of value flags = 0 ∨ sign_of value flags = '+'.toUInt8 ∨ sign_of value flags = ' '.toUInt8 ∨
      sign_of value flags = '-'.toUInt8 := by
  unfold sign_of
  split
  · exact Or.inl rfl
  · split
    · exact Or.inr (Or.inr (Or.inr rfl))
    · split
      · exact Or.inr (Or.inl rfl)
      · split
        · exact Or.inr (Or.inr (Or.inl rfl))
        · exact Or.inl rfl

/-- A pointer from 2^31 on is printed as a negative number. -/
theorem pointer_text (d : Directive) (p : UInt32) :
    ∃ l sign ds r, (Piece.directive d (.number .p p)).text =
        List.replicate l ' '.toUInt8 ++ (sign ++ (ds ++ List.replicate r ' '.toUInt8)) ∧
      (sign = [] ∨ sign = ['+'.toUInt8] ∨ sign = [' '.toUInt8] ∨ sign = ['-'.toUInt8]) ∧
      (sign = ['-'.toUInt8] ↔ 2 ^ 31 ≤ p.toNat) ∧ ds ≠ [] ∧ (∀ c ∈ ds, ∃ i < 16, c = digit false i) ∧
      read 16 ds = if 2 ^ 31 ≤ p.toNat then 2 ^ 32 - p.toNat else p.toNat := by
  have hsigned : (d.bits ||| IntConv.p.bits) &&& DP_F_UNSIGNED = 0 := pointer_bits_and (Or.inl rfl) d
  have hlower : decide ((d.bits ||| IntConv.p.bits) &&& DP_F_UP ≠ 0) = false :=
    decide_eq_false (not_not.mpr (pointer_bits_and (Or.inr rfl) d))
  obtain ⟨l, sign, ds, r, htext, hsign, hne, hdigits, -, hvalue⟩ :=
    int_text_reads (Or.inr (Or.inr rfl)) p.toInt32 d.min d.max (d.bits ||| IntConv.p.bits)
  have hsigns : sign = [] ∨ sign = ['+'.toUInt8] ∨ sign = [' '.toUInt8] ∨ sign = ['-'.toUInt8] := by
    rw [hsign]
    obtain hnone | hplus | hspace | hminus := sign_of_mem p.toInt32 (d.bits ||| IntConv.p.bits)
    · rw [hnone]
      exact Or.inl rfl
    · rw [hplus]
      exact Or.inr (Or.inl rfl)
    · rw [hspace]
      exact Or.inr (Or.inr (Or.inl rfl))
    · rw [hminus]
      exact Or.inr (Or.inr (Or.inr rfl))
  have hbase : (16 : UInt32).toNat = 16 := rfl
  have hlt := p.toNat_lt
  have hword := toInt_eq p.toInt32
  rw [UInt32.toUInt32_toInt32] at hword
  have hneg := sign_signed hsigned p.toInt32
  have hminus : sign = ['-'.toUInt8] ↔ p.toInt32.toInt < 0 := by
    rw [← hneg, hsign]
    split
    · exact ⟨fun h => (List.cons.inj h).1, fun h => congrArg (fun c => [c]) h⟩
    · next hnone =>
      refine ⟨fun h => absurd h.symm (List.cons_ne_nil _ _), fun h => ?_⟩
      rw [Decidable.not_not.mp hnone] at h
      exact absurd h (by decide)
  have hvalue := hvalue hsigned
  rw [hlower, hbase] at hdigits
  rw [hbase] at hvalue
  have hhigh : p.toInt32.toInt < 0 ↔ 2 ^ 31 ≤ p.toNat := by
    split at hword <;> omega
  refine ⟨l, sign, ds, r, htext, hsigns, hminus.trans hhigh, hne, hdigits, ?_⟩
  by_cases hp : 2 ^ 31 ≤ p.toNat
  · rw [if_pos (hminus.mpr (hhigh.mpr hp))] at hvalue
    rw [if_pos hp]
    split at hword <;> omega
  · rw [if_neg (mt (fun h => hhigh.mp (hminus.mp h)) hp)] at hvalue
    rw [if_neg hp]
    split at hword <;> omega

end Pointers

end epos.snprintf
