import Epos.Printf.Text

open bytes sink

namespace epos.snprintf

/-- No pointer among the arguments leads to the address. -/
def Unreached (args : List Arg) (a : UInt32) : Prop := ∀ w, Arg.word w ∈ args → 4 ≤ (a - w).toNat

/-- What is written lies in the buffer, or where an argument points to. -/
structure Bounded (buffer maxlen : UInt32) (s s' : Dopr) : Prop where
  args : s'.args ⊆ s.args
  mem : ∀ a, maxlen.toNat ≤ (a - buffer).toNat → Unreached s.args a → s'.out.mem a = s.out.mem a

section Steps

variable {fmtfp : Fmtfp} {buffer maxlen : UInt32} {s s' : Dopr} {o o' : Sink}

theorem Bounded.trans {s₁ s₂ s₃ : Dopr} (h : Bounded buffer maxlen s₁ s₂) (h' : Bounded buffer maxlen s₂ s₃) :
    Bounded buffer maxlen s₁ s₃ :=
  ⟨fun _ ha => h.args (h'.args ha), fun a ha hun =>
    (h'.mem a ha fun w hw => hun w (h.args hw)).trans (h.mem a ha hun)⟩

/-- A step that only puts characters. -/
theorem Bounded.puts {cs : List UInt8} (hargs : s'.args ⊆ s.args) (hout : s'.out = puts buffer maxlen s.out cs) :
    Bounded buffer maxlen s s' := by
  refine ⟨hargs, fun a ha _ => ?_⟩
  rw [hout]
  exact puts_outside ha s.out cs

theorem Bounded.put {c : UInt8} (hargs : s'.args ⊆ s.args) (hout : s'.out = dopr_outch buffer maxlen s.out c) :
    Bounded buffer maxlen s s' := by
  have hone : dopr_outch buffer maxlen s.out c = sink.puts buffer maxlen s.out [c] := rfl
  exact Bounded.puts hargs (hout.trans hone)

/-- A step that puts nothing. -/
theorem Bounded.quiet (hargs : s'.args ⊆ s.args) (hout : s'.out = s.out) : Bounded buffer maxlen s s' :=
  Bounded.puts hargs (hout.trans (List.foldl_nil ..).symm)

theorem Bounded.same (hargs : s'.args = s.args) (hout : s'.out = s.out) : Bounded buffer maxlen s s' :=
  Bounded.quiet (hargs ▸ List.Subset.refl _) hout

theorem va_word_eq {args args' : List Arg} {w : UInt32} (h : va_word args = some (w, args')) :
    args = .word w :: args' := by
  unfold va_word at h
  split at h
  · cases h
    rfl
  · cases h

theorem va_double_eq {args args' : List Arg} {w : UInt64} (h : va_double args = some (w, args')) :
    args = .double w :: args' := by
  unfold va_double at h
  split at h
  · cases h
    rfl
  · cases h

theorem va_word_subset {args args' : List Arg} {w : UInt32} (h : va_word args = some (w, args')) : args' ⊆ args :=
  va_word_eq h ▸ List.subset_cons_self _ _

theorem va_double_subset {args args' : List Arg} {w : UInt64} (h : va_double args = some (w, args')) : args' ⊆ args :=
  va_double_eq h ▸ List.subset_cons_self _ _

theorem pad_to_puts (buffer maxlen : UInt32) (m : Int32) (n : Nat) (cnt : Int32) (o : Sink) :
    ∃ cs, (pad_to buffer maxlen m n cnt o).2 = puts buffer maxlen o cs := by
  induction n generalizing cnt o with
  | zero => exact ⟨[], rfl⟩
  | succ n ih =>
    unfold pad_to
    split
    · obtain ⟨cs, hcs⟩ := ih (cnt + 1) (dopr_outch buffer maxlen o ' '.toUInt8)
      exact ⟨_ :: cs, hcs⟩
    · exact ⟨[], rfl⟩

theorem copy_loop_puts {m : Int32} {value : UInt32} {n i : Nat} {cnt cnt' : Int32}
    (h : copy_loop buffer maxlen m value n i cnt o = some (cnt', o')) : ∃ cs, o' = puts buffer maxlen o cs := by
  induction n generalizing i cnt o with
  | zero => cases h
  | succ n ih =>
    unfold copy_loop at h
    split at h
    · obtain ⟨cs, hcs⟩ := ih h
      exact ⟨_ :: cs, hcs⟩
    · cases h
      exact ⟨[], rfl⟩

theorem fmtstr_puts {value flags : UInt32} {w m : Int32} (h : fmtstr buffer maxlen o value flags w m = some o') :
    ∃ cs, o' = puts buffer maxlen o cs := by
  unfold fmtstr at h
  obtain ⟨strln, -, h⟩ := Option.bind_eq_some_iff.mp h
  simp only [Option.map_eq_some_iff] at h
  obtain ⟨⟨cnt, o₁⟩, hcopy, hend⟩ := h
  obtain ⟨front, hfront⟩ := pad_to_puts buffer maxlen m _ 0 o
  obtain ⟨copied, hcopied⟩ := copy_loop_puts hcopy
  obtain ⟨back, hback⟩ := pad_to_puts buffer maxlen m _ cnt o₁
  refine ⟨front ++ copied ++ back, ?_⟩
  rw [puts_append, puts_append, ← hfront, ← hcopied, ← hback]
  exact hend.symm

theorem conv_int_bounded {base more : UInt32} (h : conv_int buffer maxlen s base more = some s') :
    Bounded buffer maxlen s s' := by
  obtain ⟨⟨value, args⟩, hva, rfl⟩ := Option.map_eq_some_iff.mp h
  exact Bounded.puts (va_word_subset hva) (fmtint_eq ..)

/-- `%n` writes where the argument points to. -/
theorem store_len_outside {num a : UInt32} (ha : 4 ≤ (a - num).toNat) (s : Dopr) : store_len s num a = s.out.mem a := by
  have hfar : ∀ i : Nat, i < 4 → a ≠ num + UInt32.ofNat i := by
    rintro i hi rfl
    rw [UInt32.add_comm, UInt32.add_sub_cancel, UInt32.toNat_ofNat'] at ha
    omega
  unfold store_len
  split
  · have hfirst : a ≠ num := fun heq => hfar 0 (by decide) (heq.trans (UInt32.add_zero num).symm)
    have hsecond : a ≠ num + 1 := hfar 1 (by decide)
    simp only [store8, if_neg hfirst, if_neg hsecond]
  · have hfour : (4 : UInt32).toNat = 4 := rfl
    refine if_neg fun hlt => ?_
    have hlt' := UInt32.lt_iff_toNat_lt.mp hlt
    omega

/-- A result comes from one of the branches. -/
theorem ite_cases {α : Type} {c : Prop} [Decidable c] {x y : Option α} {z : α} (h : (if c then x else y) = some z) :
    x = some z ∨ y = some z := by
  by_cases hc : c
  · exact Or.inl ((if_pos hc).symm.trans h)
  · exact Or.inr ((if_neg hc).symm.trans h)

theorem dopr_conv_bounded (h : dopr_conv fmtfp buffer maxlen s = some s') : Bounded buffer maxlen s s' := by
  unfold dopr_conv at h
  obtain h | h := ite_cases h
  · exact conv_int_bounded h
  obtain h | h := ite_cases h
  · exact conv_int_bounded h
  obtain h | h := ite_cases h
  · exact conv_int_bounded h
  obtain h | h := ite_cases h
  · exact conv_int_bounded h
  obtain h | h := ite_cases h
  · exact conv_int_bounded h
  obtain h | h := ite_cases h
  · obtain ⟨⟨fvalue, args⟩, hva, rfl⟩ := Option.map_eq_some_iff.mp h
    exact Bounded.puts (va_double_subset hva) rfl
  obtain h | h := ite_cases h
  · obtain ⟨⟨fvalue, args⟩, hva, rfl⟩ := Option.map_eq_some_iff.mp h
    exact Bounded.quiet (va_double_subset hva) rfl
  obtain h | h := ite_cases h
  · obtain ⟨⟨c, args⟩, hva, rfl⟩ := Option.map_eq_some_iff.mp h
    exact Bounded.put (va_word_subset hva) rfl
  obtain h | h := ite_cases h
  · obtain ⟨⟨strvalue, args⟩, hva, h⟩ := Option.bind_eq_some_iff.mp h
    obtain ⟨o, ho, rfl⟩ := Option.map_eq_some_iff.mp h
    obtain ⟨cs, rfl⟩ := fmtstr_puts ho
    exact Bounded.puts (va_word_subset hva) rfl
  obtain h | h := ite_cases h
  · exact conv_int_bounded h
  obtain h | h := ite_cases h
  · obtain ⟨⟨num, args⟩, hva, rfl⟩ := Option.map_eq_some_iff.mp h
    refine ⟨va_word_subset hva, fun a _ hun => store_len_outside (hun num ?_) s⟩
    rw [va_word_eq hva]
    exact List.mem_cons_self
  obtain h | h := ite_cases h
  · cases h
    exact Bounded.put (List.Subset.refl _) rfl
  obtain h | h := ite_cases h
  · cases h
    exact Bounded.same rfl rfl
  · cases h
    exact Bounded.same rfl rfl

theorem dopr_step_bounded (h : dopr_step fmtfp buffer maxlen s = some s') : Bounded buffer maxlen s s' := by
  unfold dopr_step at h
  split at h
  · cases h
    exact Bounded.same rfl rfl
  cases hstate : s.state with
  | DP_S_DEFAULT =>
    simp only [hstate] at h
    split at h
    · cases h
      exact Bounded.same rfl rfl
    · cases h
      exact Bounded.put (List.Subset.refl _) rfl
  | DP_S_FLAGS =>
    simp only [hstate] at h
    split at h
    · cases h
      exact Bounded.same rfl rfl
    · cases h
      exact Bounded.same rfl rfl
  | DP_S_MIN =>
    simp only [hstate] at h
    split at h
    · cases h
      exact Bounded.same rfl rfl
    split at h
    · obtain ⟨⟨w, args⟩, hva, rfl⟩ := Option.map_eq_some_iff.mp h
      exact Bounded.quiet (va_word_subset hva) rfl
    · cases h
      exact Bounded.same rfl rfl
  | DP_S_DOT =>
    simp only [hstate] at h
    split at h
    · cases h
      exact Bounded.same rfl rfl
    · cases h
      exact Bounded.same rfl rfl
  | DP_S_MAX =>
    simp only [hstate] at h
    split at h
    · cases h
      exact Bounded.same rfl rfl
    split at h
    · obtain ⟨⟨m, args⟩, hva, rfl⟩ := Option.map_eq_some_iff.mp h
      exact Bounded.quiet (va_word_subset hva) rfl
    · cases h
      exact Bounded.same rfl rfl
  | DP_S_MOD =>
    simp only [hstate] at h
    split at h
    · cases h
      exact Bounded.same rfl rfl
    · cases h
      exact Bounded.same rfl rfl
  | DP_S_CONV =>
    simp only [hstate] at h
    obtain ⟨s₁, hconv, rfl⟩ := Option.map_eq_some_iff.mp h
    exact (dopr_conv_bounded hconv).trans (Bounded.same rfl rfl)
  | DP_S_DONE =>
    simp only [hstate] at h
    cases h
    exact Bounded.same rfl rfl

theorem dopr_loop_bounded {fuel : Nat} (h : dopr_loop fmtfp buffer maxlen fuel s = some s') : Bounded buffer maxlen s s' := by
  induction fuel generalizing s with
  | zero => cases h
  | succ fuel ih =>
    unfold dopr_loop at h
    split at h
    · cases h
      exact Bounded.same rfl rfl
    · obtain ⟨s₁, hstep, hrest⟩ := Option.bind_eq_some_iff.mp h
      exact (dopr_step_bounded hstep).trans (ih hrest)

end Steps

section Strings

variable {mem : ByteMem} {p : UInt32} {n : Nat}

/-- The text at `p` ends at a 0 that is somewhere behind. -/
theorem string_before (hzero : mem (p + UInt32.ofNat n) = 0) :
    ∃ s, strings.IsString (strings.Ptr.into mem p) s ∧ s.length ≤ n := by
  induction n generalizing p with
  | zero =>
    rw [strings.offset_zero] at hzero
    exact ⟨[], congrArg some hzero, Nat.le_refl _⟩
  | succ n ih =>
    by_cases hend : mem p = 0
    · exact ⟨[], congrArg some hend, Nat.zero_le _⟩
    · rw [strings.offset_succ] at hzero
      obtain ⟨s, hs, hle⟩ := ih hzero
      exact ⟨mem p :: s, ⟨hend, rfl, hs⟩, Nat.succ_le_succ hle⟩

end Strings

section Results

variable {fmtfp : Fmtfp} {mem mem' : ByteMem} {str count fmt n : UInt32}
  {args : List Arg} {fuel : Nat}

/-- Where `dopr` puts the 0. -/
theorem terminate_eq (buffer maxlen : UInt32) (o : Sink) :
    ∃ i, terminate buffer maxlen o = store8 o.mem (buffer + UInt32.ofNat i) 0 ∧ i = min o.len.toNat (maxlen - 1).toNat := by
  unfold terminate
  by_cases hlt : o.len < maxlen - 1
  · refine ⟨o.len.toNat, ?_, ?_⟩
    · rw [if_pos hlt, UInt32.ofNat_toNat]
    · exact (Nat.min_eq_left (Nat.le_of_lt (UInt32.lt_iff_toNat_lt.mp hlt))).symm
  · refine ⟨(maxlen - 1).toNat, ?_, ?_⟩
    · rw [if_neg hlt, UInt32.ofNat_toNat]
    · exact (Nat.min_eq_right (Nat.not_lt.mp (mt UInt32.lt_iff_toNat_lt.mpr hlt))).symm

theorem pred_toNat (hcount : count ≠ 0) : (count - 1).toNat + 1 = count.toNat := by
  have hle : 1 ≤ count.toNat := Nat.one_le_iff_ne_zero.mpr fun hzero => hcount (UInt32.toNat_inj.mp hzero)
  rw [UInt32.toNat_sub_of_le count 1 (UInt32.le_iff_toNat_le.mpr hle), UInt32.toNat_one]
  omega

/-- Whatever the format and the arguments are, the result fits the buffer with its 0, and all that
is written lies in the buffer or where an argument points to. -/
theorem vsnprintf_bounded (hcount : count ≠ 0) (h : vsnprintf fmtfp fuel mem str count fmt args = some (n, mem')) :
    (∃ s, strings.IsString (strings.Ptr.into mem' str) s ∧ n.toNat = s.length ∧ s.length < count.toNat) ∧
      ∀ a, count.toNat ≤ (a - str).toNat → Unreached args a → mem' a = mem a := by
  obtain ⟨mem₁, hdopr, hlen⟩ := Option.bind_eq_some_iff.mp h
  obtain ⟨s, hloop, hend⟩ := Option.map_eq_some_iff.mp hdopr
  obtain ⟨k, hstrlen, hk⟩ := Option.map_eq_some_iff.mp hlen
  cases hk
  have hbounded := dopr_loop_bounded hloop
  obtain ⟨i, hterminate, hi⟩ := terminate_eq str count s.out
  have hpred := pred_toNat hcount
  have hlt := count.toNat_lt
  rw [hend] at hterminate
  refine ⟨?_, fun a ha hun => ?_⟩
  · have hzero : mem' (str + UInt32.ofNat i) = 0 := by
      rw [hterminate]
      exact if_pos rfl
    obtain ⟨text, htext, hle⟩ := string_before hzero
    rw [strings.strlen_eq htext] at hstrlen
    cases hstrlen
    refine ⟨text, htext, ?_, by omega⟩
    rw [UInt32.toNat_ofNat']
    omega
  · have hplace : a ≠ str + UInt32.ofNat i := by
      rintro rfl
      rw [UInt32.add_comm, UInt32.add_sub_cancel, UInt32.toNat_ofNat'] at ha
      omega
    have hfirst : a ≠ str := by
      rintro rfl
      rw [UInt32.sub_self] at ha
      exact absurd ha (by rw [UInt32.toNat_zero]; omega)
    rw [hterminate]
    exact (if_neg hplace).trans ((hbounded.mem a ha hun).trans (if_neg hfirst))

/-- Memory that is 0 but for a text. -/
def text_at (p : UInt32) (cs : List UInt8) : ByteMem := fun a => cs.getD (a - p).toNat 0

/-- `"ab%ncde"` in a buffer of four bytes: the 2 that `%n` stores lies outside of it, the text is cut to `"abc"`. -/
theorem vsnprintf_bounded_cut : ∃ mem', vsnprintf (fun _ _ _ _ => []) 16 (text_at 0x100 ("ab%ncde".toList.map Char.toUInt8))
      0x200 4 0x100 [.word 0x300] = some (3, mem') ∧
    (∃ s, strings.IsString (strings.Ptr.into mem' 0x200) s ∧ s.length = 3) ∧ mem' 0x300 = 2 ∧
    mem' 0x204 = 0 ∧ mem' 0x105 = 'd'.toUInt8 := by
  have hcut : (dopr (fun _ _ _ _ => []) 0x200 4 16 (store8 (text_at 0x100 ("ab%ncde".toList.map Char.toUInt8)) 0x200 0) 0x100
      [.word 0x300]).map (fun m => (decide (strings.IsString (strings.Ptr.into m 0x200) ("abc".toList.map Char.toUInt8)),
        m 0x300)) = some (true, 2) := by decide
  obtain ⟨mem', hdopr, hmem⟩ := Option.map_eq_some_iff.mp hcut
  obtain ⟨htext, hstored⟩ := Prod.mk.inj hmem
  have hrun : vsnprintf (fun _ _ _ _ => []) 16 (text_at 0x100 ("ab%ncde".toList.map Char.toUInt8)) 0x200 4 0x100
      [.word 0x300] = some (3, mem') := by
    simp only [vsnprintf, hdopr, Option.bind_some, strings.strlen_eq (of_decide_eq_true htext), Option.map_some]
    rfl
  obtain ⟨⟨s, hs, hn, -⟩, houtside⟩ := vsnprintf_bounded (by decide) hrun
  have hunreached : ∀ a, 4 ≤ (a - 0x300).toNat → Unreached [.word 0x300] a := by
    intro a ha w hw
    cases List.mem_singleton.mp hw
    exact ha
  exact ⟨mem', hrun, ⟨s, hs, hn.symm⟩, hstored, houtside 0x204 (by decide) (hunreached _ (by decide)),
    houtside 0x105 (by decide) (hunreached _ (by decide))⟩

/-- A buffer of no bytes: the first byte behind it is set to 0, whatever the format is. -/
theorem vsnprintf_no_room (fmtfp : Fmtfp) (fuel : Nat) (mem : ByteMem) (str fmt : UInt32)
    (args : List Arg) :
    ∃ mem', vsnprintf fmtfp (fuel + 2) mem str 0 fmt args = some (0, mem') ∧ mem' str = 0 ∧
      (∀ a ≠ str, mem' a = mem a) ∧ (mem' = mem ↔ mem str = 0) := by
  have hdopr : dopr fmtfp str 0 (fuel + 2) (store8 mem str 0) fmt args = some (store8 (store8 mem str 0) (str + 0) 0) := by
    have hfull : dopr_step fmtfp str 0 (dopr_start (store8 mem str 0) fmt args) =
        some { dopr_start (store8 mem str 0) fmt args with state := .DP_S_DONE } := if_pos (Or.inr (UInt32.le_refl 0))
    have hstart : (dopr_start (store8 mem str 0) fmt args).state ≠ .DP_S_DONE := Stage.noConfusion
    unfold dopr
    rw [dopr_loop, if_neg hstart, hfull, Option.bind_some, dopr_loop, if_pos rfl, Option.map_some]
    rfl
  rw [UInt32.add_zero] at hdopr
  have hend : store8 (store8 mem str 0) str 0 str = 0 := if_pos rfl
  have hstring : strings.IsString (strings.Ptr.into (store8 (store8 mem str 0) str 0) str) [] := congrArg some hend
  have hother : ∀ a ≠ str, store8 (store8 mem str 0) str 0 a = mem a := fun a ha => (if_neg ha).trans (if_neg ha)
  refine ⟨store8 (store8 mem str 0) str 0, ?_, hend, hother, fun h => by rw [← h]; exact hend, fun h => funext fun a => ?_⟩
  · simp only [vsnprintf, hdopr, Option.bind_some, strings.strlen_eq hstring, Option.map_some]
    rfl
  · by_cases ha : a = str
    · rw [ha, hend, h]
    · exact hother a ha

end Results

end epos.snprintf
