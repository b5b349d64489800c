import Epos.Lib.ByteCopy
import Epos.Strings.Search

open bytes

namespace epos.strings

/-- A pointer into memory all of which can be read. -/
def Ptr.into (mem : ByteMem) (addr : UInt32) : Ptr := { bytes := fun a => some (mem a), addr := addr }

/-- `for (; (*to = *from) != 0; ++from, ++to)`, which is the second loop of `strcat` too. -/
def strcpy_loop : Nat → ByteMem → UInt32 → UInt32 → Option ByteMem
  | 0, _, _, _ => none
  | fuel + 1, mem, dst, src =>
    let byte := mem src
    let mem := store8 mem dst byte
    if byte ≠ 0 then strcpy_loop fuel mem (dst + 1) (src + 1) else some mem

def strcpy (mem : ByteMem) (dst src : UInt32) : Option (UInt32 × ByteMem) :=
  (strcpy_loop UInt32.size mem dst src).map fun mem => (dst, mem)

/-- The first loop is the one of `strlen`. -/
def strcat (mem : ByteMem) (s append : UInt32) : Option (UInt32 × ByteMem) :=
  (strlen_loop UInt32.size (Ptr.into mem s)).bind fun p =>
    (strcpy_loop UInt32.size mem p.addr append).map fun mem => (s, mem)

/-- `for (i = 0; i < n && src[i] != 0; i++)`, with what is left of `n`. -/
def strncpy_copy (dest src : UInt32) : Nat → UInt32 → ByteMem → UInt32 × ByteMem
  | 0, i, mem => (i, mem)
  | n + 1, i, mem =>
    if mem (src + i) ≠ 0 then strncpy_copy dest src n (i + 1) (store8 mem (dest + i) (mem (src + i))) else (i, mem)

/-- `for ( ; i < n; i++)` -/
def strncpy_fill (dest : UInt32) : Nat → UInt32 → ByteMem → ByteMem
  | 0, _, mem => mem
  | n + 1, i, mem => strncpy_fill dest n (i + 1) (store8 mem (dest + i) 0)

def strncpy (mem : ByteMem) (dest src n : UInt32) : UInt32 × ByteMem :=
  let (i, mem) := strncpy_copy dest src n.toNat 0 mem
  (dest, strncpy_fill dest (n - i).toNat i mem)

section Copies

variable {mem mem' : ByteMem} {dst src dest p q append : UInt32} {s t u : List UInt8} {fuel : Nat}

theorem into_add (mem : ByteMem) (p : UInt32) (i : Nat) : (Ptr.into mem p).add i = Ptr.into mem (p + UInt32.ofNat i) := rfl

theorem offset_zero (p : UInt32) : p + UInt32.ofNat 0 = p := UInt32.add_zero p

theorem offset_succ (p : UInt32) (i : Nat) : p + UInt32.ofNat (i + 1) = p + 1 + UInt32.ofNat i := by
  have hone : p + 1 = p + UInt32.ofNat 1 := rfl
  rw [hone, ofNat_add_ofNat, Nat.add_comm 1 i]

/-- A string whose bytes are found elsewhere is there too. -/
theorem IsString.moved (h : IsString (Ptr.into mem p) s)
    (hsame : ∀ i ≤ s.length, mem' (q + UInt32.ofNat i) = mem (p + UInt32.ofNat i)) : IsString (Ptr.into mem' q) s := by
  have hfirst := hsame 0 (Nat.zero_le _)
  rw [offset_zero, offset_zero] at hfirst
  induction s generalizing p q with
  | nil => exact (congrArg some hfirst).trans h
  | cons c s ih =>
    obtain ⟨hc, hget, hrest⟩ := h
    have hnext : ∀ i ≤ s.length, mem' (q + 1 + UInt32.ofNat i) = mem (p + 1 + UInt32.ofNat i) := by
      intro i hi
      rw [← offset_succ, ← offset_succ]
      exact hsame (i + 1) (Nat.succ_le_succ hi)
    have hhead := hnext 0 (Nat.zero_le _)
    rw [offset_zero, offset_zero] at hhead
    exact ⟨hc, (congrArg some hfirst).trans hget, ih hrest hnext hhead⟩

theorem IsString.bytes (h : IsString (Ptr.into mem p) t) :
    ∀ i (hi : i < t.length), t[i] ≠ 0 ∧ mem (p + UInt32.ofNat i) = t[i] := by
  induction t generalizing p with
  | nil => exact fun i hi => absurd hi (Nat.not_lt_zero i)
  | cons c t ih =>
    obtain ⟨hc, hget, hrest⟩ := h
    have hrest' : IsString (Ptr.into mem (p + 1)) t := hrest
    intro i hi
    cases i with
    | zero =>
      rw [offset_zero]
      exact ⟨hc, Option.some.inj hget⟩
    | succ i =>
      rw [offset_succ]
      exact ih hrest' i (Nat.lt_of_succ_lt_succ hi)

theorem IsString.read_back (h : IsString (Ptr.into mem p) t) :
    (List.range t.length).map (fun i => mem (p + UInt32.ofNat i)) = t := by
  refine List.ext_getElem (by rw [List.length_map, List.length_range]) fun i _ hi => ?_
  rw [List.getElem_map, List.getElem_range]
  exact (h.bytes i hi).2

theorem strcpy_loop_eq (h : IsString (Ptr.into mem src) s) (hahead : Ahead dst src (1 + s.length)) (hfuel : s.length < fuel) :
    strcpy_loop fuel mem dst src = some (copied mem dst src (1 + s.length)) := by
  induction s generalizing mem dst src fuel with
  | nil =>
    obtain ⟨fuel, rfl⟩ := Nat.exists_eq_succ_of_ne_zero (Nat.ne_of_gt hfuel)
    have hend : mem src = 0 := Option.some.inj h
    rw [strcpy_loop]
    simp only [hend, ne_eq, not_true, if_false]
    rw [← hend, store8_eq_copied]
    rfl
  | cons c s ih =>
    obtain ⟨fuel, rfl⟩ := Nat.exists_eq_succ_of_ne_zero (Nat.ne_zero_of_lt hfuel)
    obtain ⟨hc, hget, hrest⟩ := h
    have hbyte : mem src = c := Option.some.inj hget
    have hsource : IsString (Ptr.into mem (src + 1)) s := hrest
    have hlater : IsString (Ptr.into (copied mem dst src 1) (src + 1)) s := by
      refine hsource.moved fun i hi => ?_
      rw [← offset_succ]
      exact copied_source mem hahead (Nat.succ_le_succ (Nat.zero_le i)) (by rw [List.length_cons]; omega)
    rw [List.length_cons, Nat.add_comm s.length 1] at hahead ⊢
    rw [strcpy_loop]
    simp only [hbyte, ne_eq, hc, not_false_eq_true, if_true]
    have hcopy : strcpy_loop fuel (copied mem dst src 1) (dst + 1) (src + 1) =
        some (copied (copied mem dst src 1) (dst + UInt32.ofNat 1) (src + UInt32.ofNat 1) (1 + s.length)) :=
      ih hlater hahead.shift (Nat.lt_of_succ_lt_succ hfuel)
    rw [← hbyte, store8_eq_copied, hcopy, copied_copied mem hahead]

/-- `strcpy` copies the string, also when the source is behind the start of the target. -/
theorem strcpy_copies (h : IsString (Ptr.into mem src) s) (hahead : Ahead dst src (1 + s.length)) :
    ∃ mem', strcpy mem dst src = some (dst, mem') ∧ IsString (Ptr.into mem' dst) s ∧
      ∀ a, s.length < (a - dst).toNat → mem' a = mem a := by
  have hsize : 1 + s.length ≤ 2 ^ 32 := Nat.le_trans (Nat.le_add_left _ _) hahead
  refine ⟨copied mem dst src (1 + s.length), ?_, IsString.moved h fun i hi => copied_inside (by omega) hsize, fun a ha => ?_⟩
  · rw [strcpy, strcpy_loop_eq h hahead h.length_lt, Option.map_some]
  · exact copied_outside (by omega)

theorem strcpy_copies_down : ∃ mem',
    strcpy (store8 (store8 (fun _ => 0) 0x101 0x61) 0x102 0x62) 0x100 0x101 = some (0x100, mem') ∧
    IsString (Ptr.into mem' 0x100) [0x61, 0x62] := by
  have hstring : IsString (Ptr.into (store8 (store8 (fun _ => 0) 0x101 0x61) 0x102 0x62) 0x101) [0x61, 0x62] := by decide
  have hahead : Ahead 0x100 0x101 (1 + [(0x61 : UInt8), 0x62].length) := by decide
  obtain ⟨mem', hrun, hcopy, -⟩ := strcpy_copies hstring hahead
  exact ⟨mem', hrun, hcopy⟩

/-- A target in the source gives the loop its own characters again, and it never sees a 0. -/
theorem strcpy_loop_endless {d : Nat} (hd : 0 < d) (hsize : d < 2 ^ 32)
    (hwindow : ∀ i < d, mem (src + UInt32.ofNat i) ≠ 0) (fuel : Nat) :
    strcpy_loop fuel mem (src + UInt32.ofNat d) src = none := by
  induction fuel generalizing mem src with
  | zero => rfl
  | succ fuel ih =>
    have hfirst := hwindow 0 hd
    rw [offset_zero] at hfirst
    have hshift : src + UInt32.ofNat d + 1 = src + 1 + UInt32.ofNat d := by
      rw [UInt32.add_assoc, UInt32.add_comm (UInt32.ofNat d) 1, UInt32.add_assoc]
    rw [strcpy_loop]
    simp only [ne_eq, hfirst, not_false_eq_true, if_true, hshift]
    refine ih fun i hi => ?_
    rw [← offset_succ]
    by_cases hlast : i + 1 = d
    · rw [hlast]
      exact fun hzero => hfirst ((if_pos rfl).symm.trans hzero)
    · have hne : src + UInt32.ofNat (i + 1) ≠ src + UInt32.ofNat d := by
        intro heq
        have hsame := congrArg UInt32.toNat (UInt32.add_right_inj src |>.mp heq)
        rw [UInt32.toNat_ofNat', UInt32.toNat_ofNat'] at hsame
        omega
      exact fun hzero => hwindow (i + 1) (by omega) ((if_neg hne).symm.trans hzero)

/-- The loop of `strcpy` ends exactly if the target does not begin in the source, behind its first character. -/
theorem strcpy_ends_iff (h : IsString (Ptr.into mem src) s) (dst : UInt32) :
    (∃ fuel, strcpy_loop fuel mem dst src ≠ none) ↔ Ahead dst src (1 + s.length) := by
  constructor
  · rintro ⟨fuel, hends⟩
    refine Decidable.byContradiction fun hnot => hends ?_
    have hlen := h.length_lt
    have hsize : UInt32.size = 2 ^ 32 := rfl
    have hback : dst = src + UInt32.ofNat (dst - src).toNat := by
      rw [UInt32.ofNat_toNat, UInt32.add_comm, UInt32.sub_add_cancel]
    have hinside : 0 < (dst - src).toNat ∧ (dst - src).toNat ≤ s.length := by
      have hlt := dst.toNat_lt
      have hlt' := src.toNat_lt
      unfold Ahead at hnot
      rw [UInt32.toNat_sub] at hnot ⊢
      omega
    rw [hback]
    refine strcpy_loop_endless hinside.1 (by omega) (fun i hi => ?_) fuel
    obtain ⟨hc, hget⟩ := h.bytes i (by omega)
    exact hget ▸ hc
  · intro hahead
    refine ⟨s.length + 1, ?_⟩
    rw [strcpy_loop_eq h hahead (Nat.lt_succ_self _)]
    exact Option.some_ne_none _

theorem strcpy_ends_iff_inside :
    ¬ ∃ fuel, strcpy_loop fuel (store8 (store8 (fun _ => 0) 0x100 0x61) 0x101 0x62) 0x101 0x100 ≠ none := by
  have hstring : IsString (Ptr.into (store8 (store8 (fun _ => 0) 0x100 0x61) 0x101 0x62) 0x100) [0x61, 0x62] := by decide
  exact fun hends => absurd ((strcpy_ends_iff hstring 0x101).mp hends) (by decide)

/-- Two strings of which the second begins where the first has its end. -/
theorem IsString.join {v : List UInt8} (ht : ∀ i (hi : i < t.length), t[i] ≠ 0 ∧ mem (p + UInt32.ofNat i) = t[i])
    (hv : IsString (Ptr.into mem (p + UInt32.ofNat t.length)) v) : IsString (Ptr.into mem p) (t ++ v) := by
  induction t generalizing p with
  | nil =>
    rw [List.length_nil, offset_zero] at hv
    exact hv
  | cons c t ih =>
    obtain ⟨hc, hget⟩ := ht 0 (Nat.succ_pos _)
    rw [offset_zero] at hget
    refine ⟨hc, congrArg some hget, ih (p := p + 1) (fun i hi => ?_) ?_⟩
    · rw [← offset_succ]
      exact ht (i + 1) (Nat.succ_lt_succ hi)
    · rw [← offset_succ]
      exact hv

/-- `strcat` puts the second string behind the first. -/
theorem strcat_appends (ht : IsString (Ptr.into mem p) t) (hu : IsString (Ptr.into mem append) u)
    (hfits : t.length + u.length < 2 ^ 32) (hahead : Ahead (p + UInt32.ofNat t.length) append (1 + u.length)) :
    ∃ mem', strcat mem p append = some (p, mem') ∧ IsString (Ptr.into mem' p) (t ++ u) ∧
      ∀ a, t.length + u.length < (a - p).toNat → mem' a = mem a := by
  have hsize : 1 + u.length ≤ 2 ^ 32 := Nat.le_trans (Nat.le_add_left _ _) hahead
  refine ⟨copied mem (p + UInt32.ofNat t.length) append (1 + u.length), ?_, IsString.join (fun i hi => ?_) ?_, fun a ha => ?_⟩
  · rw [strcat, strlen_loop_eq ht ht.length_lt, Option.bind_some, into_add]
    simp only [Ptr.into]
    rw [strcpy_loop_eq hu hahead hu.length_lt, Option.map_some]
  · obtain ⟨hc, hget⟩ := ht.bytes i hi
    refine ⟨hc, (copied_outside ?_).trans hget⟩
    have hlt := p.toNat_lt
    simp only [UInt32.toNat_sub, UInt32.toNat_add, UInt32.toNat_ofNat']
    omega
  · exact hu.moved fun i hi => copied_inside (by omega) hsize
  · refine copied_outside ?_
    have hback := sub_ofNat_toNat (a := a) (d := p) (n := t.length) (by omega)
    omega

theorem strcat_appends_b : ∃ mem',
    strcat (store8 (store8 (fun _ => 0) 0x100 0x61) 0x200 0x62) 0x100 0x200 = some (0x100, mem') ∧
    IsString (Ptr.into mem' 0x100) [0x61, 0x62] := by
  have hfirst : IsString (Ptr.into (store8 (store8 (fun _ => 0) 0x100 0x61) 0x200 0x62) 0x100) [0x61] := by decide
  have hsecond : IsString (Ptr.into (store8 (store8 (fun _ => 0) 0x100 0x61) 0x200 0x62) 0x200) [0x62] := by decide
  obtain ⟨mem', hrun, hcat, -⟩ := strcat_appends hfirst hsecond (by decide) (by decide)
  exact ⟨mem', hrun, hcat⟩

theorem strncpy_copy_eq {n i k : Nat} (h : IsString (Ptr.into mem src) s) (hi : i ≤ s.length) (hk : i + k = n)
    (hahead : Ahead dest src (min n (s.length + 1))) :
    strncpy_copy dest src k (UInt32.ofNat i) (copied mem dest src i) =
      (UInt32.ofNat (min n s.length), copied mem dest src (min n s.length)) := by
  induction k generalizing i with
  | zero =>
    have hmin : min n s.length = i := by omega
    rw [hmin]
    rfl
  | succ k ih =>
    have hsource : copied mem dest src i (src + UInt32.ofNat i) = mem (src + UInt32.ofNat i) :=
      copied_source mem hahead (Nat.le_refl i) (by omega)
    rw [strncpy_copy, hsource]
    by_cases hend : i = s.length
    · have hzero : mem (src + UInt32.ofNat i) = 0 := by
        rw [hend]
        exact Option.some.inj h.get_end
      have hmin : min n s.length = i := by omega
      rw [if_neg (Decidable.not_not.mpr hzero), hmin]
    · obtain ⟨hc, hget⟩ := h.bytes i (by omega)
      have hone : store8 (copied mem dest src i) (dest + UInt32.ofNat i) (mem (src + UInt32.ofNat i)) =
          copied mem dest src (i + 1) := by
        rw [← hsource, store8_eq_copied]
        exact copied_copied mem (hahead.mono (by omega))
      have hnext : UInt32.ofNat i + 1 = UInt32.ofNat (i + 1) := (UInt32.ofNat_add i 1).symm
      rw [if_pos (hget ▸ hc), hone, hnext]
      exact ih (by omega) (by omega)

theorem strncpy_fill_eq {i k : Nat} (dest : UInt32) (hk : i + k ≤ 2 ^ 32) (f : Nat → UInt8) :
    strncpy_fill dest k (UInt32.ofNat i) (written mem dest i f) =
      written mem dest (i + k) fun j => if j < i then f j else 0 := by
  induction k generalizing i f with
  | zero =>
    refine written_congr fun j hj => ?_
    rw [if_pos (by omega)]
  | succ k ih =>
    have hone : store8 (written mem dest i f) (dest + UInt32.ofNat i) 0 =
        written mem dest (i + 1) fun j => if j < i then f j else 0 := by
      rw [store8_eq, written_written (by omega)]
    have hnext : UInt32.ofNat i + 1 = UInt32.ofNat (i + 1) := (UInt32.ofNat_add i 1).symm
    have hsum : i + 1 + k = i + (k + 1) := by omega
    rw [strncpy_fill, hone, hnext, ih (by omega), hsum]
    refine written_congr fun j hj => ?_
    split <;> split <;> first | rfl | omega

/-- `strncpy` writes `n` bytes, those of the string and zeros behind them, so that the target is
a string only if the string is shorter than `n`. -/
theorem strncpy_writes {n : UInt32} (h : IsString (Ptr.into mem src) s)
    (hahead : Ahead dest src (min n.toNat (s.length + 1))) :
    ∃ mem', strncpy mem dest src n = (dest, mem') ∧
      (∀ i < n.toNat, mem' (dest + UInt32.ofNat i) = s.getD i 0) ∧ (∀ a, n.toNat ≤ (a - dest).toNat → mem' a = mem a) ∧
      ((∃ i < n.toNat, mem' (dest + UInt32.ofNat i) = 0) ↔ s.length < n.toNat) := by
  have hlt := n.toNat_lt
  have hstart : copied mem dest src 0 = mem := copied_zero
  have hcopy := strncpy_copy_eq (i := 0) (k := n.toNat) h (Nat.zero_le _) (Nat.zero_add _) hahead
  have hfirst : UInt32.ofNat 0 = 0 := rfl
  rw [hstart, hfirst] at hcopy
  have hleft : (n - UInt32.ofNat (min n.toNat s.length)).toNat = n.toNat - min n.toNat s.length := by
    rw [UInt32.toNat_sub, UInt32.toNat_ofNat']
    omega
  have hfill : strncpy_fill dest (n.toNat - min n.toNat s.length) (UInt32.ofNat (min n.toNat s.length))
      (copied mem dest src (min n.toNat s.length)) = _ := strncpy_fill_eq dest (by omega) _
  have hall : min n.toNat s.length + (n.toNat - min n.toNat s.length) = n.toNat := by omega
  rw [hall] at hfill
  have hbytes : ∀ i < n.toNat, strncpy_fill dest (n.toNat - min n.toNat s.length) (UInt32.ofNat (min n.toNat s.length))
      (copied mem dest src (min n.toNat s.length)) (dest + UInt32.ofNat i) = s.getD i 0 := by
    intro i hi
    have hback := offset_toNat dest (Nat.lt_trans hi hlt)
    rw [hfill, written_inside (by omega), hback]
    by_cases hshort : i < s.length
    · rw [if_pos (by omega), (h.bytes i hshort).2, List.getD_eq_getElem?_getD, List.getElem?_eq_getElem hshort, Option.getD_some]
    · rw [if_neg (by omega), List.getD_eq_getElem?_getD, List.getElem?_eq_none (Nat.not_lt.mp hshort), Option.getD_none]
  refine ⟨_, ?_, hbytes, fun a ha => ?_, ?_⟩
  · unfold strncpy
    simp only [hcopy, hleft]
  · rw [hfill]
    exact written_outside ha
  · constructor
    · rintro ⟨i, hi, hzero⟩
      rw [hbytes i hi] at hzero
      refine Nat.lt_of_not_le fun hle => ?_
      have hshort : i < s.length := by omega
      rw [List.getD_eq_getElem?_getD, List.getElem?_eq_getElem hshort, Option.getD_some] at hzero
      exact (h.bytes i hshort).1 hzero
    · intro hlt'
      refine ⟨s.length, hlt', ?_⟩
      rw [hbytes _ hlt', List.getD_eq_getElem?_getD, List.getElem?_eq_none (Nat.le_refl _), Option.getD_none]

theorem strncpy_writes_cut : ∃ mem',
    strncpy (store8 (store8 (fun _ => 0) 0x100 0x61) 0x101 0x62) 0x200 0x100 2 = (0x200, mem') ∧
    ¬ ∃ i < 2, mem' (0x200 + UInt32.ofNat i) = 0 := by
  have hstring : IsString (Ptr.into (store8 (store8 (fun _ => 0) 0x100 0x61) 0x101 0x62) 0x100) [0x61, 0x62] := by decide
  have hahead : Ahead 0x200 0x100 (min (2 : UInt32).toNat 3) := by decide
  obtain ⟨mem', hrun, -, -, hends⟩ := strncpy_writes hstring hahead
  exact ⟨mem', hrun, fun h => absurd (hends.mp h) (by decide)⟩

end Copies

end epos.strings
