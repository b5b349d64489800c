import Epos.Printf.Text

open sink

namespace epos.snprintf

/-- What a digit stands for, in either case. -/
def digit_value (c : UInt8) : Nat :=
  if c ≤ '9'.toUInt8 then c.toNat - '0'.toNat
  else if c ≤ 'F'.toUInt8 then c.toNat - 'A'.toNat + 10
  else c.toNat - 'a'.toNat + 10

/-- The number that a row of digits stands for. -/
def read (base : Nat) (cs : List UInt8) : Nat := cs.foldl (fun v c => base * v + digit_value c) 0

def digit (caps : Bool) (i : Nat) : UInt8 :=
  ((if caps then "0123456789ABCDEF" else "0123456789abcdef").toList.getD i '0').toUInt8

theorem digit_value_digit : ∀ caps, ∀ i < 16, digit_value (digit caps i) = i := by decide

section Digits

variable {caps : Bool} {base uvalue : UInt32} {room : Nat}

theorem convert_loop_succ (caps : Bool) (base uvalue : UInt32) (room : Nat) :
    convert_loop caps base (room + 1) uvalue =
      digit caps (uvalue % base).toNat :: if uvalue / base ≠ 0 then convert_loop caps base room (uvalue / base) else [] := rfl

/-- The digits are those of the number, as long as there is room for them. -/
theorem convert_loop_value (hbase : 2 ≤ base.toNat) (hmax : base.toNat ≤ 16) (hroom : uvalue.toNat < base.toNat ^ room) :
    (convert_loop caps base room uvalue).foldr (fun c v => base.toNat * v + digit_value c) 0 = uvalue.toNat := by
  induction room generalizing uvalue with
  | zero =>
    rw [Nat.pow_zero] at hroom
    exact (Nat.lt_one_iff.mp hroom).symm
  | succ room ih =>
    have hdigit : (uvalue % base).toNat < 16 := by
      rw [UInt32.toNat_mod]
      exact Nat.lt_of_lt_of_le (Nat.mod_lt _ (by omega)) hmax
    have hdiv : (uvalue / base).toNat = uvalue.toNat / base.toNat := UInt32.toNat_div ..
    have hsum := Nat.div_add_mod uvalue.toNat base.toNat
    rw [convert_loop_succ, List.foldr_cons, digit_value_digit caps _ hdigit, UInt32.toNat_mod]
    split
    · rw [ih, hdiv]
      · exact hsum
      · rw [hdiv]
        exact Nat.div_lt_of_lt_mul (by rw [Nat.mul_comm, ← Nat.pow_succ]; exact hroom)
    · next hzero =>
      have hnone : uvalue.toNat / base.toNat = 0 := by
        rw [← hdiv, Decidable.not_not.mp hzero]
        rfl
      rw [hnone] at hsum
      exact hsum

theorem convert_loop_length {n : Nat} (hn : uvalue.toNat < base.toNat ^ n) (hpos : 0 < n) (hle : n ≤ room) :
    0 < (convert_loop caps base room uvalue).length ∧ (convert_loop caps base room uvalue).length ≤ n := by
  induction n generalizing room uvalue with
  | zero => omega
  | succ n ih =>
    obtain ⟨room, rfl⟩ := Nat.exists_eq_succ_of_ne_zero (Nat.ne_of_gt (Nat.lt_of_lt_of_le (Nat.succ_pos n) hle))
    have hdiv : (uvalue / base).toNat = uvalue.toNat / base.toNat := UInt32.toNat_div ..
    rw [convert_loop_succ, List.length_cons]
    refine ⟨Nat.succ_pos _, Nat.succ_le_succ ?_⟩
    split
    · next hne =>
      have hlt : (uvalue / base).toNat < base.toNat ^ n := by
        rw [hdiv]
        exact Nat.div_lt_of_lt_mul (by rw [Nat.mul_comm, ← Nat.pow_succ]; exact hn)
      have hpos' : 0 < n := by
        refine Nat.pos_of_ne_zero fun hzero => hne ?_
        rw [hzero, Nat.pow_zero, Nat.lt_one_iff] at hlt
        exact UInt32.toNat_inj.mp hlt
      exact (ih hlt hpos' (by omega)).2
    · exact Nat.zero_le _

theorem digit_mem {c : UInt8} (hbase : 0 < base.toNat) (hc : c ∈ convert_loop caps base room uvalue) :
    ∃ i < base.toNat, c = digit caps i := by
  induction room generalizing uvalue with
  | zero => cases hc
  | succ room ih =>
    rw [convert_loop_succ, List.mem_cons] at hc
    obtain rfl | hc := hc
    · refine ⟨_, ?_, rfl⟩
      rw [UInt32.toNat_mod]
      exact Nat.mod_lt _ hbase
    · split at hc
      · exact ih hc
      · cases hc

theorem read_append (base : Nat) (cs ds : List UInt8) :
    read base (cs ++ ds) = ds.foldl (fun v c => base * v + digit_value c) (read base cs) := List.foldl_append

/-- Zeros before a number do not change it. -/
theorem read_zeros (base n : Nat) (ds : List UInt8) : read base (List.replicate n '0'.toUInt8 ++ ds) = read base ds := by
  have hzero : digit_value '0'.toUInt8 = 0 := rfl
  have hzeros : read base (List.replicate n '0'.toUInt8) = 0 := by
    induction n with
    | zero => rfl
    | succ n ih =>
      have hfirst : base * 0 + digit_value '0'.toUInt8 = 0 := by rw [Nat.mul_zero, hzero]
      rw [List.replicate_succ, read, List.foldl_cons, hfirst]
      exact ih
  rw [read_append, hzeros]
  rfl

end Digits

section Numbers

variable {value w m : Int32} {base flags : UInt32} {buffer maxlen : UInt32}

/-- The bases of the conversions, in which a word has at most 11 digits. -/
theorem word_lt_pow (hbase : base = 8 ∨ base = 10 ∨ base = 16) (x : UInt32) :
    2 ≤ base.toNat ∧ base.toNat ≤ 16 ∧ x.toNat < base.toNat ^ 11 := by
  have hlt := x.toNat_lt
  obtain rfl | rfl | rfl := hbase
  · exact ⟨by decide, by decide, Nat.lt_of_lt_of_le hlt (by decide)⟩
  · exact ⟨by decide, by decide, Nat.lt_of_lt_of_le hlt (by decide)⟩
  · exact ⟨by decide, by decide, Nat.lt_of_lt_of_le hlt (by decide)⟩

/-- All digits of a word, and at least one. -/
structure Converted (caps : Bool) (base x : UInt32) (ds : List UInt8) : Prop where
  pos : 0 < ds.length
  le : ds.length ≤ 11
  digits : ∀ c ∈ ds, ∃ i < base.toNat, c = digit caps i
  value : read base.toNat ds.reverse = x.toNat

theorem converted (hbase : base = 8 ∨ base = 10 ∨ base = 16) (caps : Bool) (x : UInt32) :
    Converted caps base x (convert_loop caps base 20 x) := by
  obtain ⟨htwo, hmax, hlt⟩ := word_lt_pow hbase x
  have hlength : 0 < (convert_loop caps base 20 x).length ∧ (convert_loop caps base 20 x).length ≤ 11 :=
    convert_loop_length hlt (by decide) (by decide)
  obtain ⟨hpos, hle⟩ := hlength
  refine ⟨hpos, hle, fun c hc => digit_mem (by omega) hc, ?_⟩
  rw [read, List.foldl_reverse]
  exact convert_loop_value htwo hmax (Nat.lt_of_lt_of_le hlt (Nat.pow_le_pow_right (by omega) (by decide)))

/-- A number is its padding, its sign and its digits. -/
theorem int_text_eq (hbase : base = 8 ∨ base = 10 ∨ base = 16) (value w m : Int32) (flags : UInt32) :
    ∃ ds, Converted (flags &&& DP_F_UP ≠ 0) base (uvalue_of value flags) ds ∧
      int_text value base w m flags =
        (if flags &&& DP_F_MINUS ≠ 0 then [] else List.replicate (pads ds.length (sign_of value flags) w m flags).1 ' '.toUInt8) ++
          ((if sign_of value flags ≠ 0 then [sign_of value flags] else []) ++
            (List.replicate (pads ds.length (sign_of value flags) w m flags).2 '0'.toUInt8 ++
              (ds.reverse ++
                if flags &&& DP_F_MINUS ≠ 0 then
                  List.replicate (pads ds.length (sign_of value flags) w m flags).1 ' '.toUInt8 else []))) := by
  have hconverted := converted hbase (flags &&& DP_F_UP ≠ 0) (uvalue_of value flags)
  have hle := hconverted.le
  have hroom : (convert_loop (flags &&& DP_F_UP ≠ 0) base 20 (uvalue_of value flags)).length ≠ 20 := by omega
  refine ⟨_, hconverted, ?_⟩
  unfold int_text
  simp only [if_neg hroom, List.take_length]

theorem uvalue_signed (hsigned : flags &&& DP_F_UNSIGNED = 0) (value : Int32) :
    (uvalue_of value flags).toNat = value.toInt.natAbs := by
  have hword := toInt_eq value
  have hlt := value.toUInt32.toNat_lt
  have hzero : (0 : Int32).toInt = 0 := rfl
  unfold uvalue_of
  by_cases hneg : value < 0
  · have hneg' := Int32.lt_iff_toInt_lt.mp hneg
    have hsize : UInt32.size = 2 ^ 32 := rfl
    rw [if_pos ⟨hsigned, hneg⟩, Int32.toUInt32_neg, UInt32.toNat_neg, hsize]
    split at hword <;> omega
  · have hneg' := mt Int32.lt_iff_toInt_lt.mpr hneg
    rw [if_neg (fun h => hneg h.2)]
    split at hword <;> omega

theorem sign_signed (hsigned : flags &&& DP_F_UNSIGNED = 0) (value : Int32) :
    sign_of value flags = '-'.toUInt8 ↔ value.toInt < 0 := by
  have hzero : (0 : Int32).toInt = 0 := rfl
  have hplus : '+'.toUInt8 ≠ '-'.toUInt8 := by decide
  have hspace : ' '.toUInt8 ≠ '-'.toUInt8 := by decide
  have hnone : (0 : UInt8) ≠ '-'.toUInt8 := by decide
  unfold sign_of
  rw [if_neg (Decidable.not_not.mpr hsigned)]
  by_cases hneg : value < 0
  · rw [if_pos hneg]
    exact ⟨fun _ => Int32.lt_iff_toInt_lt.mp hneg, fun _ => rfl⟩
  · rw [if_neg hneg]
    refine ⟨fun h => ?_, fun h => absurd (Int32.lt_iff_toInt_lt.mpr h) hneg⟩
    split at h
    · exact absurd h hplus
    · split at h
      · exact absurd h hspace
      · exact absurd h hnone

/-- The text of a number reads as the number, whatever the flags, the width and the precision are. -/
theorem int_text_reads (hbase : base = 8 ∨ base = 10 ∨ base = 16) (value w m : Int32) (flags : UInt32) :
    ∃ l sign ds r, int_text value base w m flags =
        List.replicate l ' '.toUInt8 ++ (sign ++ (ds ++ List.replicate r ' '.toUInt8)) ∧
      sign = (if sign_of value flags ≠ 0 then [sign_of value flags] else []) ∧ ds ≠ [] ∧
      (∀ c ∈ ds, ∃ i < base.toNat, c = digit (flags &&& DP_F_UP ≠ 0) i) ∧
      (flags &&& DP_F_UNSIGNED ≠ 0 → sign = [] ∧ read base.toNat ds = value.toUInt32.toNat) ∧
      (flags &&& DP_F_UNSIGNED = 0 →
        value.toInt = if sign = ['-'.toUInt8] then -(read base.toNat ds : Int) else read base.toNat ds) := by
  obtain ⟨ds, hds, htext⟩ := int_text_eq hbase value w m flags
  rw [htext]
  generalize (pads ds.length (sign_of value flags) w m flags).1 = spaces
  generalize (pads ds.length (sign_of value flags) w m flags).2 = zeros
  obtain ⟨c, hc⟩ : ∃ c, c ∈ ds := List.exists_mem_of_length_pos hds.pos
  have hne : List.replicate zeros '0'.toUInt8 ++ ds.reverse ≠ [] :=
    List.ne_nil_of_mem (List.mem_append_right _ (List.mem_reverse.mpr hc))
  have hbound := (word_lt_pow hbase 0).1
  have hread : read base.toNat (List.replicate zeros '0'.toUInt8 ++ ds.reverse) = (uvalue_of value flags).toNat := by
    rw [read_zeros, hds.value]
  have hdigits : ∀ c ∈ List.replicate zeros '0'.toUInt8 ++ ds.reverse,
      ∃ i < base.toNat, c = digit (flags &&& DP_F_UP ≠ 0) i := by
    intro c hc
    obtain hc | hc := List.mem_append.mp hc
    · refine ⟨0, by omega, (List.eq_of_mem_replicate hc).trans ?_⟩
      cases decide (flags &&& DP_F_UP ≠ 0) <;> rfl
    · exact hds.digits c (List.mem_reverse.mp hc)
  have hunsigned : flags &&& DP_F_UNSIGNED ≠ 0 →
      (if sign_of value flags ≠ 0 then [sign_of value flags] else []) = [] ∧
        read base.toNat (List.replicate zeros '0'.toUInt8 ++ ds.reverse) = value.toUInt32.toNat := by
    intro hu
    have hsign : sign_of value flags = 0 := if_pos hu
    have hvalue : uvalue_of value flags = value.toUInt32 := if_neg fun h => hu h.1
    rw [hread, hvalue, hsign]
    exact ⟨rfl, rfl⟩
  have hsigned : flags &&& DP_F_UNSIGNED = 0 →
      value.toInt = if (if sign_of value flags ≠ 0 then [sign_of value flags] else []) = ['-'.toUInt8] then
        -(read base.toNat (List.replicate zeros '0'.toUInt8 ++ ds.reverse) : Int)
        else read base.toNat (List.replicate zeros '0'.toUInt8 ++ ds.reverse) := by
    intro hs
    have hsign := sign_signed hs value
    have hminus : '-'.toUInt8 ≠ 0 := by decide
    rw [hread, uvalue_signed hs]
    by_cases hneg : value.toInt < 0
    · rw [hsign.mpr hneg, if_pos hminus, if_pos rfl]
      omega
    · have hother : (if sign_of value flags ≠ 0 then [sign_of value flags] else []) ≠ ['-'.toUInt8] := by
        split
        · exact fun h => hneg (hsign.mp (List.cons.inj h).1)
        · exact fun h => absurd h.symm (List.cons_ne_nil _ _)
      rw [if_neg hother]
      omega
  by_cases hleft : flags &&& DP_F_MINUS ≠ 0
  · refine ⟨0, _, _, spaces, ?_, rfl, hne, hdigits, hunsigned, hsigned⟩
    rw [if_pos hleft, if_pos hleft, List.append_assoc]
    rfl
  · refine ⟨spaces, _, _, 0, ?_, rfl, hne, hdigits, hunsigned, hsigned⟩
    rw [if_neg hleft, if_neg hleft, List.append_assoc]
    rfl

/-- What `fmtint` puts reads as the number. -/
theorem fmtint_reads (hbase : base = 8 ∨ base = 10 ∨ base = 16) (buffer maxlen : UInt32) (o : Sink) (value w m : Int32)
    (flags : UInt32) :
    ∃ l sign ds r, fmtint buffer maxlen o value base w m flags =
        puts buffer maxlen o (List.replicate l ' '.toUInt8 ++ (sign ++ (ds ++ List.replicate r ' '.toUInt8))) ∧
      sign = (if sign_of value flags ≠ 0 then [sign_of value flags] else []) ∧ ds ≠ [] ∧
      (∀ c ∈ ds, ∃ i < base.toNat, c = digit (flags &&& DP_F_UP ≠ 0) i) ∧
      (flags &&& DP_F_UNSIGNED ≠ 0 → sign = [] ∧ read base.toNat ds = value.toUInt32.toNat) ∧
      (flags &&& DP_F_UNSIGNED = 0 →
        value.toInt = if sign = ['-'.toUInt8] then -(read base.toNat ds : Int) else read base.toNat ds) := by
  obtain ⟨l, sign, ds, r, htext, hreads⟩ := int_text_reads hbase value w m flags
  exact ⟨l, sign, ds, r, (fmtint_eq ..).trans (congrArg (puts buffer maxlen o) htext), hreads⟩

theorem fmtint_reads_decimal : ∃ l sign ds r, fmtint 0x200 16 ⟨fun _ => 0, 0⟩ (-42) 10 6 (-1) 0 =
      puts 0x200 16 ⟨fun _ => 0, 0⟩ (List.replicate l ' '.toUInt8 ++ (sign ++ (ds ++ List.replicate r ' '.toUInt8))) ∧
    sign = ['-'.toUInt8] ∧ read 10 ds = 42 := by
  have hminus : sign_of (-42) 0 = '-'.toUInt8 := by decide
  have hvalue : (-42 : Int32).toInt = -42 := by decide
  obtain ⟨l, sign, ds, r, htext, hsign, -, -, -, hsigned⟩ :=
    fmtint_reads (Or.inr (Or.inl rfl)) 0x200 16 ⟨fun _ => 0, 0⟩ (-42) 6 (-1) 0
  rw [hminus, if_pos (by decide)] at hsign
  have hread := hsigned (by decide)
  rw [hvalue, if_pos hsign] at hread
  have hbase : (10 : UInt32).toNat = 10 := rfl
  rw [hbase] at hread
  exact ⟨l, sign, ds, r, htext, hsign, by omega⟩

end Numbers

end epos.snprintf
