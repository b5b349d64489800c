import Epos.Lib.ByteCopy

open bytes

namespace sink

/-- Bytes that are put into memory one behind the other, and how many there are. -/
structure Sink where
  mem : ByteMem
  len : UInt32

/-- A byte is put at the end, if there is room for it. -/
def put (buffer room : UInt32) (o : Sink) (c : UInt8) : Sink :=
  if o.len < room then { mem := store8 o.mem (buffer + o.len) c, len := o.len + 1 } else o

def puts (buffer room : UInt32) (o : Sink) (cs : List UInt8) : Sink := cs.foldl (put buffer room) o

/-- The sink holds the text as far as there is room for it, and nothing else has been written. -/
structure Holds (start : ByteMem) (buffer room : UInt32) (o : Sink) (text : List UInt8) : Prop where
  len : o.len.toNat = min text.length room.toNat
  bytes : ∀ i < o.len.toNat, text[i]? = some (o.mem (buffer + UInt32.ofNat i))
  outside : ∀ a, room.toNat ≤ (a - buffer).toNat → o.mem a = start a

section Texts

variable {start : ByteMem} {buffer room : UInt32} {o : Sink} {text cs ds : List UInt8}

theorem Holds.nil (start : ByteMem) (buffer room : UInt32) : Holds start buffer room { mem := start, len := 0 } [] :=
  ⟨(Nat.zero_min _).symm, fun i hi => absurd hi (Nat.not_lt_zero i), fun _ _ => rfl⟩

/-- There is no room for what is put behind. -/
theorem Holds.full (h : Holds start buffer room o text) (hfull : room.toNat ≤ text.length) (cs : List UInt8) :
    Holds start buffer room o (text ++ cs) := by
  have hlen := h.len
  refine ⟨?_, fun i hi => ?_, h.outside⟩
  · rw [List.length_append]
    omega
  · rw [List.getElem?_append_left (by omega)]
    exact h.bytes i hi

theorem Holds.lt_iff (h : Holds start buffer room o text) : o.len < room ↔ text.length < room.toNat := by
  have hlen := h.len
  rw [UInt32.lt_iff_toNat_lt]
  omega

theorem Holds.put (h : Holds start buffer room o text) (c : UInt8) : Holds start buffer room (put buffer room o c) (text ++ [c]) := by
  have hlen := h.len
  have hroom := room.toNat_lt
  by_cases hlt : text.length < room.toNat
  · have hput : sink.put buffer room o c = { mem := store8 o.mem (buffer + o.len) c, len := o.len + 1 } := if_pos (h.lt_iff.mpr hlt)
    have hnat : (o.len + 1).toNat = text.length + 1 := by
      rw [UInt32.toNat_add, UInt32.toNat_one]
      omega
    have hend : o.len = UInt32.ofNat text.length := by
      rw [← UInt32.toNat_inj, UInt32.toNat_ofNat']
      omega
    rw [hput]
    refine ⟨?_, fun i hi => ?_, fun a ha => ?_⟩
    · rw [hnat, List.length_append, List.length_singleton]
      omega
    · simp only [hnat] at hi
      simp only [store8, hend]
      by_cases hi' : i = text.length
      · rw [hi', if_pos rfl, List.getElem?_append_right (Nat.le_refl _), Nat.sub_self, List.getElem?_singleton, if_pos rfl]
      · have hne : buffer + UInt32.ofNat i ≠ buffer + UInt32.ofNat text.length := by
          intro heq
          have hsame := congrArg UInt32.toNat (UInt32.add_right_inj buffer |>.mp heq)
          rw [UInt32.toNat_ofNat', UInt32.toNat_ofNat'] at hsame
          omega
        rw [if_neg hne, List.getElem?_append_left (by omega)]
        exact h.bytes i (by omega)
    · have hne : a ≠ buffer + o.len := by
        rintro rfl
        rw [hend, offset_toNat buffer (by omega)] at ha
        omega
      exact (if_neg hne).trans (h.outside a ha)
  · have hput : sink.put buffer room o c = o := if_neg (mt h.lt_iff.mp hlt)
    rw [hput]
    exact h.full (Nat.not_lt.mp hlt) [c]

theorem Holds.puts (h : Holds start buffer room o text) (cs : List UInt8) :
    Holds start buffer room (puts buffer room o cs) (text ++ cs) := by
  induction cs generalizing o text with
  | nil =>
    rw [List.append_nil]
    exact h
  | cons c cs ih =>
    have hrest := ih (h.put c)
    rw [List.append_assoc] at hrest
    exact hrest

/-- Only what there is room for matters. -/
theorem Holds.take {n : Nat} (h : Holds start buffer room o (text ++ cs.take n)) (hn : room.toNat ≤ n) :
    Holds start buffer room o (text ++ cs) := by
  by_cases hlong : n ≤ cs.length
  · have hfull := h.full (by rw [List.length_append, List.length_take]; omega) (cs.drop n)
    rw [List.append_assoc, List.take_append_drop] at hfull
    exact hfull
  · rw [List.take_of_length_le (by omega)] at h
    exact h

end Texts

end sink
