import Epos.Printf.Defs

open bytes sink

namespace epos.snprintf

section Output

variable {buffer maxlen : UInt32}

theorem outch_eq (buffer maxlen : UInt32) : dopr_outch buffer maxlen = put buffer maxlen := rfl

theorem puts_append (o : Sink) (cs ds : List UInt8) :
    puts buffer maxlen o (cs ++ ds) = puts buffer maxlen (puts buffer maxlen o cs) ds := List.foldl_append

/-- Nothing is written outside the buffer. -/
theorem puts_outside {a : UInt32} (ha : maxlen.toNat ≤ (a - buffer).toNat) (o : Sink) (cs : List UInt8) :
    (puts buffer maxlen o cs).mem a = o.mem a := by
  induction cs generalizing o with
  | nil => rfl
  | cons c cs ih =>
    refine (ih (put buffer maxlen o c)).trans ?_
    unfold put
    split
    · next hlt =>
      have hlt' := UInt32.lt_iff_toNat_lt.mp hlt
      refine if_neg ?_
      rintro rfl
      rw [UInt32.add_comm, UInt32.add_sub_cancel] at ha
      omega
    · rfl

theorem pad_eq (c : UInt8) (n : Nat) (o : Sink) :
    pad buffer maxlen c n o = puts buffer maxlen o (List.replicate n c) := by
  induction n generalizing o with
  | zero => rfl
  | succ n ih => exact ih _

/-- A number as the word that it is passed in. -/
theorem toInt_eq (value : Int32) :
    value.toInt = if 2 * value.toUInt32.toNat < 2 ^ 32 then (value.toUInt32.toNat : Int)
      else value.toUInt32.toNat - (2 ^ 32 : Nat) :=
  BitVec.toInt_eq_toNat_cond value.toBitVec

/-- The text of a number. -/
def int_text (value : Int32) (base : UInt32) (min max : Int32) (flags : UInt32) : List UInt8 :=
  let convert := convert_loop (flags &&& DP_F_UP ≠ 0) base 20 (uvalue_of value flags)
  let place := if convert.length = 20 then 19 else convert.length
  let signvalue := sign_of value flags
  let left := flags &&& DP_F_MINUS ≠ 0
  (if left then [] else List.replicate (pads place signvalue min max flags).1 ' '.toUInt8) ++
    ((if signvalue ≠ 0 then [signvalue] else []) ++
      (List.replicate (pads place signvalue min max flags).2 '0'.toUInt8 ++
        ((convert.take place).reverse ++
          if left then List.replicate (pads place signvalue min max flags).1 ' '.toUInt8 else [])))

theorem fmtint_eq (o : Sink) (value : Int32) (base : UInt32) (min max : Int32) (flags : UInt32) :
    fmtint buffer maxlen o value base min max flags = puts buffer maxlen o (int_text value base min max flags) := by
  unfold fmtint int_text
  simp only [pad_eq, outch_eq, puts_append]
  split <;> split <;> rfl

/-- The text of a string: the precision counts the padding too. -/
def str_text (s : List UInt8) (flags : UInt32) (min max : Int32) : List UInt8 :=
  let padlen := min - Int32.ofNat s.length
  let padding := List.replicate (if padlen < 0 then 0 else padlen).toInt.toNat ' '.toUInt8
  (if flags &&& DP_F_MINUS ≠ 0 then s ++ padding else padding ++ s).take max.toInt.toNat

/-- A count that has not passed its limit. -/
theorem count_lt_iff {m : Int32} {j : Nat} (hj : j ≤ m.toInt.toNat) : Int32.ofNat j < m ↔ j < m.toInt.toNat := by
  have hlt := m.toInt_lt
  have hj' : (Int32.ofNat j).toInt = j := Int32.toInt_ofNat_of_lt (by omega)
  rw [Int32.lt_iff_toInt_lt, hj']
  omega

theorem count_succ (j : Nat) : Int32.ofNat j + 1 = Int32.ofNat (j + 1) := (Int32.ofNat_add j 1).symm

theorem pad_to_eq {m : Int32} {j : Nat} (hj : j ≤ m.toInt.toNat) (n : Nat) (o : Sink) :
    pad_to buffer maxlen m n (Int32.ofNat j) o =
      (Int32.ofNat (j + min n (m.toInt.toNat - j)),
        puts buffer maxlen o (List.replicate (min n (m.toInt.toNat - j)) ' '.toUInt8)) := by
  induction n generalizing j o with
  | zero =>
    rw [Nat.zero_min, Nat.add_zero]
    rfl
  | succ n ih =>
    unfold pad_to
    by_cases hlt : j < m.toInt.toNat
    · have hone : min (n + 1) (m.toInt.toNat - j) = min n (m.toInt.toNat - (j + 1)) + 1 := by omega
      have hsum : j + 1 + min n (m.toInt.toNat - (j + 1)) = j + (min n (m.toInt.toNat - (j + 1)) + 1) := by omega
      have hrest := ih (j := j + 1) (by omega) (dopr_outch buffer maxlen o ' '.toUInt8)
      rw [if_pos ((count_lt_iff hj).mpr hlt), count_succ, hrest, hone, hsum]
      rfl
    · have hnone : min (n + 1) (m.toInt.toNat - j) = 0 := by omega
      rw [if_neg (mt (count_lt_iff hj).mp hlt), hnone]
      rfl

/-- The characters that `fmtstr` reads, none of which it overwrites. -/
structure Source (mem : ByteMem) (buffer maxlen value : UInt32) (s : List UInt8) : Prop where
  char : ∀ i, (hi : i < s.length) → s[i] ≠ 0 ∧ fetch mem value i = s[i]
  last : fetch mem value s.length = 0
  short : s.length < 2 ^ 32
  apart : value ≠ 0 → ∀ i ≤ s.length, maxlen.toNat ≤ (value + UInt32.ofNat i - buffer).toNat

theorem Source.fetch_puts {value : UInt32} {s : List UInt8} {o : Sink} (h : Source o.mem buffer maxlen value s) (cs : List UInt8)
    {i : Nat} (hi : i ≤ s.length) : fetch (puts buffer maxlen o cs).mem value i = fetch o.mem value i := by
  unfold fetch
  split
  · rfl
  · next hne => exact puts_outside (h.apart hne i hi) o cs

theorem Source.puts {value : UInt32} {s : List UInt8} {o : Sink} (h : Source o.mem buffer maxlen value s) (cs : List UInt8) :
    Source (puts buffer maxlen o cs).mem buffer maxlen value s := by
  refine ⟨fun i hi => ?_, ?_, h.short, h.apart⟩
  · rw [h.fetch_puts cs (Nat.le_of_lt hi)]
    exact h.char i hi
  · rw [h.fetch_puts cs (Nat.le_refl _)]
    exact h.last

theorem strln_eq {mem : ByteMem} {value : UInt32} {s : List UInt8} (h : Source mem buffer maxlen value s) :
    strln_loop mem value UInt32.size 0 = some s.length := by
  have hrun : ∀ n i, i ≤ s.length → s.length < i + n → strln_loop mem value n i = some s.length := by
    intro n
    induction n with
    | zero =>
      intro i hi hn
      omega
    | succ n ih =>
      intro i hi hn
      unfold strln_loop
      by_cases hend : i = s.length
      · rw [hend, if_neg (Decidable.not_not.mpr h.last)]
      · obtain ⟨hne, hget⟩ := h.char i (by omega)
        rw [hget, if_pos hne]
        exact ih (i + 1) (by omega) (by omega)
  have hsize : UInt32.size = 2 ^ 32 := rfl
  have hshort := h.short
  exact hrun UInt32.size 0 (Nat.zero_le _) (by omega)

theorem copy_loop_eq {m : Int32} {value : UInt32} {s : List UInt8} {n i j : Nat} {o : Sink}
    (h : Source o.mem buffer maxlen value s) (hi : i ≤ s.length) (hn : s.length < i + n) (hj : j ≤ m.toInt.toNat) :
    copy_loop buffer maxlen m value n i (Int32.ofNat j) o =
      some (Int32.ofNat (j + min (s.length - i) (m.toInt.toNat - j)),
        puts buffer maxlen o ((s.drop i).take (m.toInt.toNat - j))) := by
  induction n generalizing i j o with
  | zero => omega
  | succ n ih =>
    unfold copy_loop
    by_cases hend : i = s.length
    · have hstop : ¬ (fetch o.mem value i ≠ 0 ∧ Int32.ofNat j < m) := fun hgo => hgo.1 (hend ▸ h.last)
      rw [if_neg hstop, hend, Nat.sub_self, Nat.zero_min, List.drop_length, List.take_nil]
      rfl
    by_cases hlt : j < m.toInt.toNat
    · obtain ⟨hne, hget⟩ := h.char i (by omega)
      have hgo : fetch o.mem value i ≠ 0 ∧ Int32.ofNat j < m := ⟨hget ▸ hne, (count_lt_iff hj).mpr hlt⟩
      have hrest := ih (i := i + 1) (j := j + 1) (h.puts [s[i]]) (by omega) (by omega) (by omega)
      have hone : j + 1 + min (s.length - (i + 1)) (m.toInt.toNat - (j + 1)) = j + min (s.length - i) (m.toInt.toNat - j) := by
        omega
      have htake : (s.drop i).take (m.toInt.toNat - j) = s[i] :: (s.drop (i + 1)).take (m.toInt.toNat - (j + 1)) := by
        have hroom : m.toInt.toNat - j = m.toInt.toNat - (j + 1) + 1 := by omega
        rw [List.drop_eq_getElem_cons (by omega), hroom, List.take_succ_cons]
      rw [hone] at hrest
      rw [if_pos hgo, count_succ, hget, htake]
      exact hrest
    · have hstop : ¬ (fetch o.mem value i ≠ 0 ∧ Int32.ofNat j < m) := fun hgo => hlt ((count_lt_iff hj).mp hgo.2)
      have hfull : m.toInt.toNat - j = 0 := by omega
      rw [if_neg hstop, hfull, Nat.min_zero, List.take_zero]
      rfl

theorem fmtstr_eq {value : UInt32} {s : List UInt8} {o : Sink} (h : Source o.mem buffer maxlen value s) (flags : UInt32)
    (w m : Int32) : fmtstr buffer maxlen o value flags w m = some (puts buffer maxlen o (str_text s flags w m)) := by
  have hsize : UInt32.size = 2 ^ 32 := rfl
  have hshort := h.short
  have hzero : (0 : Int32) = Int32.ofNat 0 := rfl
  unfold fmtstr str_text
  rw [strln_eq h, Option.bind_some]
  simp only
  generalize (if w - Int32.ofNat s.length < 0 then 0 else w - Int32.ofNat s.length).toInt.toNat = p
  rw [hzero]
  by_cases hleft : flags &&& DP_F_MINUS ≠ 0
  · -- the string comes first
    have hcopy := copy_loop_eq (m := m) (n := UInt32.size) h (Nat.zero_le _) (by omega) (Nat.zero_le _)
    have hrest : min p (m.toInt.toNat - min s.length m.toInt.toNat) = min (m.toInt.toNat - s.length) p := by omega
    simp only [hleft, ne_eq, not_false_eq_true, if_true, pad_to]
    rw [hcopy, Option.map_some, pad_to_eq (by omega), ← puts_append, List.drop_zero, Nat.sub_zero, Nat.sub_zero, Nat.zero_add,
      List.take_append, List.take_replicate, hrest]
  · have hcopy := copy_loop_eq (m := m) (n := UInt32.size) (j := min p m.toInt.toNat)
      (h.puts (List.replicate (min p m.toInt.toNat) ' '.toUInt8)) (Nat.zero_le _) (by omega) (by omega)
    have hrest : m.toInt.toNat - min p m.toInt.toNat = m.toInt.toNat - p := by omega
    have hcomm := Nat.min_comm p m.toInt.toNat
    simp only [hleft, if_false]
    rw [pad_to_eq (Nat.zero_le _), Nat.zero_add, Nat.sub_zero, hcopy, Option.map_some, ← puts_append, List.drop_zero,
      List.take_append, List.take_replicate, List.length_replicate]
    simp only [pad_to]
    rw [hrest, hcomm]

end Output

end epos.snprintf
