import Epos.Printf.Text

open bytes sink

namespace epos.snprintf

/-- The characters of a format from `p` on, with their 0, none of which is in the buffer. -/
def Script (mem : ByteMem) (buffer maxlen : UInt32) : UInt32 → List UInt8 → Prop
  | p, [] => mem p = 0 ∧ maxlen.toNat ≤ (p - buffer).toNat
  | p, c :: cs => c ≠ 0 ∧ mem p = c ∧ maxlen.toNat ≤ (p - buffer).toNat ∧ Script mem buffer maxlen (p + 1) cs

instance decidableScript (mem : ByteMem) (buffer maxlen : UInt32) :
    (p : UInt32) → (cs : List UInt8) → Decidable (Script mem buffer maxlen p cs)
  | p, [] => inferInstanceAs (Decidable (mem p = 0 ∧ maxlen.toNat ≤ (p - buffer).toNat))
  | p, c :: cs =>
    have := decidableScript mem buffer maxlen (p + 1) cs
    inferInstanceAs (Decidable (c ≠ 0 ∧ mem p = c ∧ maxlen.toNat ≤ (p - buffer).toNat ∧ Script mem buffer maxlen (p + 1) cs))

/-- A width or a precision. -/
inductive Amount where
  | digits (ds : List UInt8) (ok : ∀ c ∈ ds, isdigit c)
  | star (w : UInt32)

def Amount.chars : Amount → List UInt8
  | .digits ds _ => ds
  | .star _ => ['*'.toUInt8]

def Amount.args : Amount → List Arg
  | .digits _ _ => []
  | .star w => [.word w]

/-- The width. -/
def Amount.min : Amount → Int32
  | .digits ds _ => ds.foldl (fun v c => 10 * v + char_to_int c) 0
  | .star w => w.toInt32

/-- The precision, -1 if there are no digits. -/
def Amount.max : Amount → Int32
  | .digits ds _ => ds.foldl (fun v c => 10 * (if v < 0 then 0 else v) + char_to_int c) (-1)
  | .star w => w.toInt32

/-- What stands between the `%` and the letter of a conversion. A 0 at the front of the width would be a flag. -/
structure Directive where
  flags : List UInt8
  width : Amount
  precision : Option Amount
  modifier : Option UInt8
  flags_ok : ∀ c ∈ flags, flag_of c ≠ none
  width_ok : width.chars.head? ≠ some '0'.toUInt8
  modifier_ok : ∀ c ∈ modifier, cflags_of c ≠ none

/-- A `%` with nothing between it and the letter. -/
def Directive.bare : Directive where
  flags := []
  width := .digits [] fun _ h => absurd h List.not_mem_nil
  precision := none
  modifier := none
  flags_ok _ h := absurd h List.not_mem_nil
  width_ok := by decide
  modifier_ok _ h := absurd h (Option.not_mem_none _)

def Directive.min (d : Directive) : Int32 := d.width.min

def Directive.max (d : Directive) : Int32 :=
  match d.precision with
  | some m => m.max
  | none => -1

def flag_bits (fs : List UInt8) (start : UInt32) : UInt32 := fs.foldl (fun v c => v ||| (flag_of c).getD 0) start

def Directive.bits (d : Directive) : UInt32 := flag_bits d.flags 0

def Directive.precision_chars (d : Directive) : List UInt8 :=
  match d.precision with
  | some m => '.'.toUInt8 :: m.chars
  | none => []

def Directive.precision_args (d : Directive) : List Arg :=
  match d.precision with
  | some m => m.args
  | none => []

def Directive.chars (d : Directive) : List UInt8 :=
  '%'.toUInt8 :: (d.flags ++ (d.width.chars ++ (d.precision_chars ++ d.modifier.toList)))

def Directive.args (d : Directive) : List Arg := d.width.args ++ d.precision_args

/-- A state of the loop, with the characters that it has still to read. -/
structure Reads (buffer maxlen : UInt32) (stage : Stage) (flags : UInt32) (min max : Int32) (args : List Arg) (o : Sink)
    (cs : List UInt8) (s : Dopr) : Prop where
  state : s.state = stage
  flags : s.flags = flags
  min : s.min = min
  max : s.max = max
  args : s.args = args
  out : s.out = o
  script : ∃ p, s.format = p + 1 ∧ s.ch = s.out.mem p ∧ Script s.out.mem buffer maxlen p cs

/-- The loop gets from one state to another. -/
def Leads (fmtfp : Fmtfp) (buffer maxlen : UInt32) (s : Dopr) (P : Dopr → Prop) : Prop :=
  ∃ s', P s' ∧ ∃ k, ∀ n, dopr_loop fmtfp buffer maxlen (k + n) s = dopr_loop fmtfp buffer maxlen n s'

section Reading

variable {fmtfp : Fmtfp} {buffer maxlen : UInt32} {s s' : Dopr} {P Q : Dopr → Prop}
  {stage : Stage} {flags : UInt32} {w m : Int32} {args : List Arg} {o : Sink} {c : UInt8} {cs : List UInt8}

theorem Script.congr {mem mem' : ByteMem} {p : UInt32} (h : Script mem buffer maxlen p cs)
    (hsame : ∀ a, maxlen.toNat ≤ (a - buffer).toNat → mem' a = mem a) : Script mem' buffer maxlen p cs := by
  induction cs generalizing p with
  | nil => exact ⟨(hsame p h.2).trans h.1, h.2⟩
  | cons c cs ih =>
    obtain ⟨hne, hc, hp, hrest⟩ := h
    exact ⟨hne, (hsame p hp).trans hc, hp, ih hrest⟩

theorem Leads.here (h : P s) : Leads fmtfp buffer maxlen s P := ⟨s, h, 0, fun n => by rw [Nat.zero_add]⟩

theorem Leads.step (hstate : s.state ≠ .DP_S_DONE) (hstep : dopr_step fmtfp buffer maxlen s = some s')
    (h : Leads fmtfp buffer maxlen s' P) : Leads fmtfp buffer maxlen s P := by
  obtain ⟨s'', hs, k, hk⟩ := h
  refine ⟨s'', hs, k + 1, fun n => ?_⟩
  rw [Nat.add_right_comm, dopr_loop, if_neg hstate, hstep]
  exact hk n

theorem Leads.trans (h : Leads fmtfp buffer maxlen s P) (hrest : ∀ s', P s' → Leads fmtfp buffer maxlen s' Q) :
    Leads fmtfp buffer maxlen s Q := by
  obtain ⟨s₁, hs₁, k₁, hk₁⟩ := h
  obtain ⟨s₂, hs₂, k₂, hk₂⟩ := hrest s₁ hs₁
  refine ⟨s₂, hs₂, k₁ + k₂, fun n => ?_⟩
  rw [Nat.add_assoc, hk₁, hk₂]

theorem Reads.busy (h : Reads buffer maxlen stage flags w m args o cs s) (hstage : stage ≠ .DP_S_DONE) :
    s.state ≠ .DP_S_DONE :=
  h.state ▸ hstage

theorem Reads.ch_eq (h : Reads buffer maxlen stage flags w m args o (c :: cs) s) : s.ch = c ∧ c ≠ 0 := by
  obtain ⟨p, -, hch, hne, hc, -⟩ := h.script
  exact ⟨hch.trans hc, hne⟩

/-- The next character is read. -/
theorem Reads.next (h : Reads buffer maxlen stage flags w m args o (c :: cs) s) :
    ∃ p, s.advance.format = p + 1 ∧ s.advance.ch = s.advance.out.mem p ∧ Script s.advance.out.mem buffer maxlen p cs := by
  obtain ⟨p, hformat, -, -, -, -, hrest⟩ := h.script
  exact ⟨s.format, rfl, rfl, hformat ▸ hrest⟩

/-- The loop goes on. -/
theorem Reads.guard (h : Reads buffer maxlen stage flags w m args o (c :: cs) s) (hroom : o.len < maxlen) :
    ¬ (s.ch = 0 ∨ s.out.len ≥ maxlen) := by
  obtain ⟨hch, hne⟩ := h.ch_eq
  rintro (hzero | hfull)
  · exact hne (hch ▸ hzero)
  · rw [h.out] at hfull
    exact absurd hroom (UInt32.not_lt.mpr hfull)

theorem Reads.flags_lead {fs : List UInt8} (hfs : ∀ c ∈ fs, flag_of c ≠ none) (hc : flag_of c = none) (hroom : o.len < maxlen)
    (h : Reads buffer maxlen .DP_S_FLAGS flags w m args o (fs ++ c :: cs) s) :
    Leads fmtfp buffer maxlen s (Reads buffer maxlen .DP_S_MIN (flag_bits fs flags) w m args o (c :: cs)) := by
  induction fs generalizing s flags with
  | nil =>
    have hstep : dopr_step fmtfp buffer maxlen s = some { s with state := .DP_S_MIN } := by
      unfold dopr_step
      rw [if_neg (h.guard hroom), h.state]
      simp only [h.ch_eq.1, hc]
    refine Leads.step (h.busy Stage.noConfusion) hstep (Leads.here ?_)
    exact ⟨rfl, h.flags, h.min, h.max, h.args, h.out, h.script⟩
  | cons f fs ih =>
    obtain ⟨bit, hbit⟩ := Option.ne_none_iff_exists'.mp (hfs f List.mem_cons_self)
    have hstep : dopr_step fmtfp buffer maxlen s = some { s with flags := s.flags ||| bit }.advance := by
      unfold dopr_step
      rw [if_neg (h.guard hroom), h.state]
      simp only [h.ch_eq.1, hbit]
    refine Leads.step (h.busy Stage.noConfusion) hstep
      (ih (fun c hc => hfs c (List.mem_cons_of_mem f hc)) ?_)
    have hbits : s.flags ||| bit = flags ||| (flag_of f).getD 0 := by rw [h.flags, hbit, Option.getD_some]
    exact ⟨h.state, hbits, h.min, h.max, h.args, h.out, h.next⟩

theorem Reads.min_digits_lead {ds : List UInt8} (hds : ∀ c ∈ ds, isdigit c) (hc : isdigit c = false) (hstar : c ≠ '*'.toUInt8)
    (hroom : o.len < maxlen) (h : Reads buffer maxlen .DP_S_MIN flags w m args o (ds ++ c :: cs) s) :
    Leads fmtfp buffer maxlen s
      (Reads buffer maxlen .DP_S_DOT flags (ds.foldl (fun v c => 10 * v + char_to_int c) w) m args o (c :: cs)) := by
  induction ds generalizing s w with
  | nil =>
    have hstep : dopr_step fmtfp buffer maxlen s = some { s with state := .DP_S_DOT } := by
      unfold dopr_step
      rw [if_neg (h.guard hroom), h.state]
      simp only [h.ch_eq.1, hc, Bool.false_eq_true, if_false, if_neg hstar]
    refine Leads.step (h.busy Stage.noConfusion) hstep (Leads.here ?_)
    exact ⟨rfl, h.flags, h.min, h.max, h.args, h.out, h.script⟩
  | cons d ds ih =>
    have hdigit := hds d List.mem_cons_self
    have hstep : dopr_step fmtfp buffer maxlen s = some { s with min := 10 * s.min + char_to_int d }.advance := by
      unfold dopr_step
      rw [if_neg (h.guard hroom), h.state]
      simp only [h.ch_eq.1, hdigit, if_true]
    refine Leads.step (h.busy Stage.noConfusion) hstep
      (ih (fun c hc => hds c (List.mem_cons_of_mem d hc)) ?_)
    have hmin : 10 * s.min + char_to_int d = 10 * w + char_to_int d := by rw [h.min]
    exact ⟨h.state, h.flags, hmin, h.max, h.args, h.out, h.next⟩

theorem Reads.max_digits_lead {ds : List UInt8} (hds : ∀ c ∈ ds, isdigit c) (hc : isdigit c = false) (hstar : c ≠ '*'.toUInt8)
    (hroom : o.len < maxlen) (h : Reads buffer maxlen .DP_S_MAX flags w m args o (ds ++ c :: cs) s) :
    Leads fmtfp buffer maxlen s (Reads buffer maxlen .DP_S_MOD flags w
      (ds.foldl (fun v c => 10 * (if v < 0 then 0 else v) + char_to_int c) m) args o (c :: cs)) := by
  induction ds generalizing s m with
  | nil =>
    have hstep : dopr_step fmtfp buffer maxlen s = some { s with state := .DP_S_MOD } := by
      unfold dopr_step
      rw [if_neg (h.guard hroom), h.state]
      simp only [h.ch_eq.1, hc, Bool.false_eq_true, if_false, if_neg hstar]
    refine Leads.step (h.busy Stage.noConfusion) hstep (Leads.here ?_)
    exact ⟨rfl, h.flags, h.min, h.max, h.args, h.out, h.script⟩
  | cons d ds ih =>
    have hdigit := hds d List.mem_cons_self
    have hstep : dopr_step fmtfp buffer maxlen s =
        some { s with max := 10 * (if s.max < 0 then 0 else s.max) + char_to_int d }.advance := by
      unfold dopr_step
      rw [if_neg (h.guard hroom), h.state]
      simp only [h.ch_eq.1, hdigit, if_true]
    refine Leads.step (h.busy Stage.noConfusion) hstep
      (ih (fun c hc => hds c (List.mem_cons_of_mem d hc)) ?_)
    have hmax : 10 * (if s.max < 0 then 0 else s.max) + char_to_int d = 10 * (if m < 0 then 0 else m) + char_to_int d := by
      rw [h.max]
    exact ⟨h.state, h.flags, h.min, hmax, h.args, h.out, h.next⟩

theorem Reads.width_lead (a : Amount) (hc : isdigit c = false) (hstar : c ≠ '*'.toUInt8) (hroom : o.len < maxlen)
    (h : Reads buffer maxlen .DP_S_MIN flags 0 m (a.args ++ args) o (a.chars ++ c :: cs) s) :
    Leads fmtfp buffer maxlen s (Reads buffer maxlen .DP_S_DOT flags a.min m args o (c :: cs)) := by
  cases a with
  | digits ds ok => exact h.min_digits_lead ok hc hstar hroom
  | star v =>
    have hdigit : isdigit '*'.toUInt8 = false := rfl
    have hva : va_word s.args = some (v, args) := by
      rw [h.args]
      rfl
    have hstep : dopr_step fmtfp buffer maxlen s =
        some { s with min := v.toInt32, args := args, state := .DP_S_DOT }.advance := by
      unfold dopr_step
      rw [if_neg (h.guard hroom), h.state]
      simp only [h.ch_eq.1, hdigit, Bool.false_eq_true, if_false, if_true, hva, Option.map_some]
    refine Leads.step (h.busy Stage.noConfusion) hstep (Leads.here ?_)
    exact ⟨rfl, h.flags, rfl, h.max, rfl, h.out, h.next⟩

theorem Reads.max_lead (a : Amount) (hc : isdigit c = false) (hstar : c ≠ '*'.toUInt8) (hroom : o.len < maxlen)
    (h : Reads buffer maxlen .DP_S_MAX flags w (-1) (a.args ++ args) o (a.chars ++ c :: cs) s) :
    Leads fmtfp buffer maxlen s (Reads buffer maxlen .DP_S_MOD flags w a.max args o (c :: cs)) := by
  cases a with
  | digits ds ok => exact h.max_digits_lead ok hc hstar hroom
  | star v =>
    have hdigit : isdigit '*'.toUInt8 = false := rfl
    have hva : va_word s.args = some (v, args) := by
      rw [h.args]
      rfl
    have hstep : dopr_step fmtfp buffer maxlen s =
        some { s with max := v.toInt32, args := args, state := .DP_S_MOD }.advance := by
      unfold dopr_step
      rw [if_neg (h.guard hroom), h.state]
      simp only [h.ch_eq.1, hdigit, Bool.false_eq_true, if_false, if_true, hva, Option.map_some]
    refine Leads.step (h.busy Stage.noConfusion) hstep (Leads.here ?_)
    exact ⟨rfl, h.flags, h.min, rfl, rfl, h.out, h.next⟩

theorem Reads.precision_lead (d : Directive) (hc : isdigit c = false) (hstar : c ≠ '*'.toUInt8) (hdot : c ≠ '.'.toUInt8)
    (hroom : o.len < maxlen)
    (h : Reads buffer maxlen .DP_S_DOT flags w (-1) (d.precision_args ++ args) o (d.precision_chars ++ c :: cs) s) :
    Leads fmtfp buffer maxlen s (Reads buffer maxlen .DP_S_MOD flags w d.max args o (c :: cs)) := by
  unfold Directive.precision_args Directive.precision_chars at h
  unfold Directive.max
  cases hprecision : d.precision with
  | none =>
    rw [hprecision] at h
    have hstep : dopr_step fmtfp buffer maxlen s = some { s with state := .DP_S_MOD } := by
      unfold dopr_step
      rw [if_neg (h.guard hroom), h.state]
      simp only [h.ch_eq.1, if_neg hdot]
    refine Leads.step (h.busy Stage.noConfusion) hstep (Leads.here ?_)
    exact ⟨rfl, h.flags, h.min, h.max, h.args, h.out, h.script⟩
  | some a =>
    rw [hprecision] at h
    have hstep : dopr_step fmtfp buffer maxlen s = some { s with state := .DP_S_MAX }.advance := by
      unfold dopr_step
      rw [if_neg (h.guard hroom), h.state]
      simp only [h.ch_eq.1, if_true]
    refine Leads.step (h.busy Stage.noConfusion) hstep (Reads.max_lead a hc hstar hroom ?_)
    exact ⟨rfl, h.flags, h.min, h.max, h.args, h.out, h.next⟩

theorem Reads.modifier_lead (d : Directive) (hc : cflags_of c = none) (hroom : o.len < maxlen)
    (h : Reads buffer maxlen .DP_S_MOD flags w m args o (d.modifier.toList ++ c :: cs) s) :
    Leads fmtfp buffer maxlen s (Reads buffer maxlen .DP_S_CONV flags w m args o (c :: cs)) := by
  cases hmodifier : d.modifier with
  | none =>
    rw [hmodifier] at h
    have hstep : dopr_step fmtfp buffer maxlen s = some { s with state := .DP_S_CONV } := by
      unfold dopr_step
      rw [if_neg (h.guard hroom), h.state]
      simp only [h.ch_eq.1, hc]
    refine Leads.step (h.busy Stage.noConfusion) hstep (Leads.here ?_)
    exact ⟨rfl, h.flags, h.min, h.max, h.args, h.out, h.script⟩
  | some l =>
    rw [hmodifier] at h
    obtain ⟨cflags, hcflags⟩ := Option.ne_none_iff_exists'.mp (d.modifier_ok l hmodifier)
    have hstep : dopr_step fmtfp buffer maxlen s = some { s with cflags := cflags, state := .DP_S_CONV }.advance := by
      unfold dopr_step
      rw [if_neg (h.guard hroom), h.state]
      simp only [h.ch_eq.1, hcflags]
    refine Leads.step (h.busy Stage.noConfusion) hstep (Leads.here ?_)
    exact ⟨rfl, h.flags, h.min, h.max, h.args, h.out, h.next⟩

end Reading

/-- A character at which every part of a directive ends. -/
structure Letter (c : UInt8) : Prop where
  flag : flag_of c = none
  digit : isdigit c = false
  star : c ≠ '*'.toUInt8
  dot : c ≠ '.'.toUInt8

section Directives

variable {fmtfp : Fmtfp} {buffer maxlen : UInt32} {s : Dopr} {args : List Arg} {o : Sink}
  {c : UInt8} {cs : List UInt8}

theorem letter_of_cflags (h : cflags_of c ≠ none) : Letter c := by
  unfold cflags_of at h
  split at h
  · next hc =>
    rw [hc]
    exact ⟨by decide, by decide, by decide, by decide⟩
  split at h
  · next hc =>
    rw [hc]
    exact ⟨by decide, by decide, by decide, by decide⟩
  split at h
  · next hc =>
    rw [hc]
    exact ⟨by decide, by decide, by decide, by decide⟩
  · exact absurd rfl h

/-- A digit other than 0 is no flag. -/
theorem flag_of_digit (hdigit : isdigit c) (hzero : c ≠ '0'.toUInt8) : flag_of c = none := by
  have hother : ∀ c', isdigit c' = false → c ≠ c' := by
    rintro c' hc' rfl
    rw [hc'] at hdigit
    cases hdigit
  unfold flag_of
  rw [if_neg (hother _ rfl), if_neg (hother _ rfl), if_neg (hother _ rfl), if_neg (hother _ rfl), if_neg hzero]

/-- What the next part of a directive begins with. -/
theorem Directive.modifier_head (d : Directive) (hc : Letter c) (cs : List UInt8) :
    ∃ c' cs', d.modifier.toList ++ c :: cs = c' :: cs' ∧ Letter c' := by
  cases hmodifier : d.modifier with
  | none => exact ⟨c, cs, rfl, hc⟩
  | some l => exact ⟨l, c :: cs, rfl, letter_of_cflags (d.modifier_ok l hmodifier)⟩

theorem Directive.precision_head (d : Directive) (hc : Letter c) (cs : List UInt8) :
    ∃ c' cs', d.precision_chars ++ c :: cs = c' :: cs' ∧ flag_of c' = none ∧ isdigit c' = false ∧ c' ≠ '*'.toUInt8 := by
  unfold Directive.precision_chars
  cases d.precision with
  | none => exact ⟨c, cs, rfl, hc.flag, hc.digit, hc.star⟩
  | some a => exact ⟨'.'.toUInt8, a.chars ++ c :: cs, rfl, by decide, by decide, by decide⟩

theorem Directive.width_head (d : Directive) (hc : flag_of c = none) (cs : List UInt8) :
    ∃ c' cs', d.width.chars ++ c :: cs = c' :: cs' ∧ flag_of c' = none := by
  have hfirst := d.width_ok
  cases hwidth : d.width with
  | digits ds ok =>
    rw [hwidth] at hfirst
    cases ds with
    | nil => exact ⟨c, cs, rfl, hc⟩
    | cons x xs =>
      have hflag := flag_of_digit (ok x List.mem_cons_self) fun hx => hfirst (congrArg some hx)
      exact ⟨x, xs ++ c :: cs, rfl, hflag⟩
  | star v => exact ⟨'*'.toUInt8, c :: cs, rfl, by decide⟩

/-- The loop reads a directive up to its letter. -/
theorem Reads.directive_lead (d : Directive) (hc : Letter c) (hmod : cflags_of c = none) (hroom : o.len < maxlen)
    (h : Reads buffer maxlen .DP_S_DEFAULT 0 0 (-1) (d.args ++ args) o (d.chars ++ c :: cs) s) :
    Leads fmtfp buffer maxlen s (Reads buffer maxlen .DP_S_CONV d.bits d.min d.max args o (c :: cs)) := by
  obtain ⟨c₃, cs₃, hmodifier, hc₃⟩ := d.modifier_head hc cs
  obtain ⟨c₂, cs₂, hprecision, hflag₂, hdigit₂, hstar₂⟩ := d.precision_head hc₃ cs₃
  obtain ⟨c₁, cs₁, hwidth, hflag₁⟩ := d.width_head hflag₂ cs₂
  have hchars : d.chars ++ c :: cs = '%'.toUInt8 :: (d.flags ++ c₁ :: cs₁) := by
    rw [← hwidth, ← hprecision, ← hmodifier, Directive.chars]
    simp only [List.cons_append, List.append_assoc]
  rw [hchars] at h
  have hstep : dopr_step fmtfp buffer maxlen s = some { s with state := .DP_S_FLAGS }.advance := by
    unfold dopr_step
    rw [if_neg (h.guard hroom), h.state]
    simp only [h.ch_eq.1, if_true]
  have hflags : Reads buffer maxlen .DP_S_FLAGS 0 0 (-1) (d.args ++ args) o (d.flags ++ c₁ :: cs₁)
      { s with state := .DP_S_FLAGS }.advance := ⟨rfl, h.flags, h.min, h.max, h.args, h.out, h.next⟩
  refine Leads.step (h.busy Stage.noConfusion) hstep ((hflags.flags_lead d.flags_ok hflag₁ hroom).trans ?_)
  intro s₁ h₁
  rw [← hwidth, Directive.args, List.append_assoc] at h₁
  refine (h₁.width_lead d.width hdigit₂ hstar₂ hroom).trans fun s₂ h₂ => ?_
  rw [← hprecision] at h₂
  refine (h₂.precision_lead d hc₃.digit hc₃.star hc₃.dot hroom).trans fun s₃ h₃ => ?_
  rw [← hmodifier] at h₃
  exact h₃.modifier_lead d hmod hroom

end Directives

end epos.snprintf
