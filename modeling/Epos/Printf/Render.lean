import Epos.Printf.Bounds
import Epos.Printf.Parse

open bytes sink

namespace epos.snprintf

/-- The conversions of `fmtint`. -/
inductive IntConv where
  | d | i | o | u | X | x | p

def IntConv.letter : IntConv → UInt8
  | .d => 'd'.toUInt8
  | .i => 'i'.toUInt8
  | .o => 'o'.toUInt8
  | .u => 'u'.toUInt8
  | .X => 'X'.toUInt8
  | .x => 'x'.toUInt8
  | .p => 'p'.toUInt8

def IntConv.base : IntConv → UInt32
  | .d | .i | .u => 10
  | .o => 8
  | .X | .x | .p => 16

/-- The flags that the letter adds; a pointer is taken for a signed number. -/
def IntConv.bits : IntConv → UInt32
  | .d | .i | .p => 0
  | .o | .u | .x => DP_F_UNSIGNED
  | .X => DP_F_UP ||| DP_F_UNSIGNED

/-- What a conversion is applied to. -/
inductive Value where
  | number (k : IntConv) (value : UInt32)
  | char (c : UInt32)
  | string (value : UInt32) (s : List UInt8)
  | percent

def Value.letter : Value → UInt8
  | .number k _ => k.letter
  | .char _ => 'c'.toUInt8
  | .string _ _ => 's'.toUInt8
  | .percent => '%'.toUInt8

def Value.args : Value → List Arg
  | .number _ value => [.word value]
  | .char c => [.word c]
  | .string value _ => [.word value]
  | .percent => []

/-- The text of a conversion; a string without a precision is not cut. -/
def Value.text (flags : UInt32) (w m : Int32) : Value → List UInt8
  | .number k value => int_text value.toInt32 k.base w m (flags ||| k.bits)
  | .char c => [c.toUInt8]
  | .string _ s =>
    if m < 0 then
      let padding := List.replicate (if w - Int32.ofNat s.length < 0 then 0 else w - Int32.ofNat s.length).toInt.toNat ' '.toUInt8
      if flags &&& DP_F_MINUS ≠ 0 then s ++ padding else padding ++ s
    else str_text s flags w m
  | .percent => ['%'.toUInt8]

/-- A format is made of characters and directives. -/
inductive Piece where
  | char (c : UInt8) (nonzero : c ≠ 0) (plain : c ≠ '%'.toUInt8)
  | directive (d : Directive) (v : Value)

def Piece.chars : Piece → List UInt8
  | .char c _ _ => [c]
  | .directive d v => d.chars ++ [v.letter]

def Piece.args : Piece → List Arg
  | .char _ _ _ => []
  | .directive d v => d.args ++ v.args

def Piece.text : Piece → List UInt8
  | .char c _ _ => [c]
  | .directive d v => v.text d.bits d.min d.max

/-- The string that a piece puts can be read, also when the buffer is written. -/
def Piece.Source (mem : ByteMem) (buffer maxlen : UInt32) : Piece → Prop
  | .directive _ (.string value s) => snprintf.Source mem buffer maxlen value s
  | _ => True

section Conversions

variable {fmtfp : Fmtfp} {start : ByteMem} {buffer maxlen : UInt32} {s : Dopr}
  {flags : UInt32} {w m : Int32} {args : List Arg} {o : Sink} {cs t : List UInt8}

theorem letters_ok : ∀ c ∈ "dioxXupcs%".toList.map Char.toUInt8,
    flag_of c = none ∧ isdigit c = false ∧ c ≠ '*'.toUInt8 ∧ c ≠ '.'.toUInt8 ∧ cflags_of c = none := by
  decide

theorem IntConv.letter_mem (k : IntConv) : k.letter ∈ "dioxXupcs%".toList.map Char.toUInt8 := by
  cases k <;> decide

theorem Value.letter_mem (v : Value) : v.letter ∈ "dioxXupcs%".toList.map Char.toUInt8 := by
  have hc : 'c'.toUInt8 ∈ "dioxXupcs%".toList.map Char.toUInt8 := by decide
  have hs : 's'.toUInt8 ∈ "dioxXupcs%".toList.map Char.toUInt8 := by decide
  have hpercent : '%'.toUInt8 ∈ "dioxXupcs%".toList.map Char.toUInt8 := by decide
  cases v with
  | number k _ => exact k.letter_mem
  | char _ => exact hc
  | string _ _ => exact hs
  | percent => exact hpercent

theorem Value.letter_ok (v : Value) : Letter v.letter ∧ cflags_of v.letter = none := by
  obtain ⟨hflag, hdigit, hstar, hdot, hcflags⟩ := letters_ok v.letter v.letter_mem
  exact ⟨⟨hflag, hdigit, hstar, hdot⟩, hcflags⟩

theorem Source.congr {mem mem' : ByteMem} {value : UInt32} {x : List UInt8} (h : Source mem buffer maxlen value x)
    (hsame : ∀ a, maxlen.toNat ≤ (a - buffer).toNat → mem' a = mem a) : Source mem' buffer maxlen value x := by
  have hfetch : ∀ i ≤ x.length, fetch mem' value i = fetch mem value i := by
    intro i hi
    unfold fetch
    split
    · rfl
    · next hne => exact hsame _ (h.apart hne i hi)
  refine ⟨fun i hi => ?_, (hfetch _ (Nat.le_refl _)).trans h.last, h.short, h.apart⟩
  rw [hfetch i (Nat.le_of_lt hi)]
  exact h.char i hi

theorem dopr_conv_number (k : IntConv) (hch : s.ch = k.letter) :
    dopr_conv fmtfp buffer maxlen s = conv_int buffer maxlen s k.base k.bits := by
  unfold dopr_conv
  rw [hch]
  cases k <;> rfl

/-- A string is cut at the size of the buffer, where there is no more room anyway. -/
theorem str_text_whole (hcount : maxlen.toNat < 2 ^ 31) (hm : m < 0) (value : UInt32) (x : List UInt8) :
    str_text x flags w maxlen.toInt32 = ((Value.string value x).text flags w m).take maxlen.toNat := by
  have htoNat : maxlen.toInt32.toInt.toNat = maxlen.toNat := by
    have hword : maxlen.toInt32.toInt = maxlen.toNat := by
      rw [toInt_eq, UInt32.toUInt32_toInt32]
      split <;> omega
    rw [hword, Int.toNat_natCast]
  unfold str_text Value.text
  rw [htoNat]
  simp only [if_pos hm]

/-- The next character is read after some have been put. -/
theorem Reads.next_puts {stage : Stage} {c : UInt8} {s₁ : Dopr} {text : List UInt8}
    (h : Reads buffer maxlen stage flags w m args o (c :: cs) s) (hformat : s₁.format = s.format)
    (hout : s₁.out = puts buffer maxlen o text) :
    ∃ p, s₁.advance.format = p + 1 ∧ s₁.advance.ch = s₁.advance.out.mem p ∧ Script s₁.advance.out.mem buffer maxlen p cs := by
  obtain ⟨p, hp, -, -, -, -, hrest⟩ := h.script
  refine ⟨s₁.format, rfl, rfl, ?_⟩
  rw [hformat, hp]
  refine hrest.congr fun a ha => ?_
  rw [h.out]
  exact (congrArg (Sink.mem · a) hout).trans (puts_outside ha o text)

/-- A conversion puts the text of its value. -/
theorem Reads.conv_lead (v : Value) (hcount : maxlen.toNat < 2 ^ 31) (hroom : o.len < maxlen)
    (hsource : ∀ value x, v = .string value x → Source o.mem buffer maxlen value x) (hholds : Holds start buffer maxlen o t)
    (h : Reads buffer maxlen .DP_S_CONV flags w m (v.args ++ args) o (v.letter :: cs) s) :
    Leads fmtfp buffer maxlen s fun s' => ∃ text,
      Reads buffer maxlen .DP_S_DEFAULT 0 0 (-1) args (puts buffer maxlen o text) cs s' ∧
      Holds start buffer maxlen (puts buffer maxlen o text) (t ++ v.text flags w m) := by
  -- it is enough to know what `dopr_conv` puts
  have hputs : ∀ s₁ text, dopr_conv fmtfp buffer maxlen s = some s₁ → s₁.format = s.format → s₁.args = args →
      s₁.out = puts buffer maxlen o text → Holds start buffer maxlen (puts buffer maxlen o text) (t ++ v.text flags w m) →
      Leads fmtfp buffer maxlen s fun s' => ∃ text,
      Reads buffer maxlen .DP_S_DEFAULT 0 0 (-1) args (puts buffer maxlen o text) cs s' ∧
        Holds start buffer maxlen (puts buffer maxlen o text) (t ++ v.text flags w m) := by
    intro s₁ text hconv hformat hargs hout htext
    have hstep : dopr_step fmtfp buffer maxlen s =
        some { s₁.advance with state := .DP_S_DEFAULT, flags := 0, cflags := 0, min := 0, max := -1 } := by
      unfold dopr_step
      rw [if_neg (h.guard hroom), h.state]
      simp only [hconv, Option.map_some]
    refine Leads.step (h.busy Stage.noConfusion) hstep (Leads.here ⟨text, ?_, htext⟩)
    exact ⟨rfl, rfl, rfl, rfl, hargs, hout, h.next_puts hformat hout⟩
  cases v with
  | number k value =>
    have hva : va_word s.args = some (value, args) := by
      rw [h.args]
      rfl
    have hconv : dopr_conv fmtfp buffer maxlen s = conv_int buffer maxlen s k.base k.bits := dopr_conv_number k h.ch_eq.1
    unfold conv_int at hconv
    rw [hva, Option.map_some] at hconv
    refine hputs _ _ hconv rfl rfl ?_ (hholds.puts _)
    simp only [h.flags, h.min, h.max, h.out]
    exact fmtint_eq ..
  | char c =>
    have hva : va_word s.args = some (c, args) := by
      rw [h.args]
      rfl
    have hconv : dopr_conv fmtfp buffer maxlen s =
        some { s with args := args, out := dopr_outch buffer maxlen s.out c.toUInt8 } := by
      unfold dopr_conv
      rw [h.ch_eq.1, hva]
      rfl
    refine hputs _ [c.toUInt8] hconv rfl rfl ?_ (hholds.puts _)
    rw [h.out]
    rfl
  | string value x =>
    have hva : va_word s.args = some (value, args) := by
      rw [h.args]
      rfl
    have hfmt := fmtstr_eq (hsource value x rfl) flags w (if m < 0 then maxlen.toInt32 else m)
    have hconv : dopr_conv fmtfp buffer maxlen s = some { s with
        args := args, out := puts buffer maxlen o (str_text x flags w (if m < 0 then maxlen.toInt32 else m)) } := by
      have hbranch : dopr_conv fmtfp buffer maxlen s = (va_word s.args).bind fun arg =>
          (fmtstr buffer maxlen s.out arg.1 s.flags s.min (if s.max < 0 then maxlen.toInt32 else s.max)).map fun o =>
            { s with args := arg.2, out := o } := by
        unfold dopr_conv
        rw [h.ch_eq.1]
        rfl
      rw [hbranch, hva, Option.bind_some]
      simp only [h.out, h.flags, h.min, h.max, hfmt, Option.map_some]
    refine hputs _ _ hconv rfl rfl rfl ?_
    by_cases hm : m < 0
    · rw [if_pos hm, str_text_whole hcount hm value x]
      exact (hholds.puts _).take (Nat.le_refl _)
    · have htext : (Value.string value x).text flags w m = str_text x flags w m := if_neg hm
      rw [if_neg hm, htext]
      exact hholds.puts _
  | percent =>
    have hconv : dopr_conv fmtfp buffer maxlen s = some { s with out := dopr_outch buffer maxlen s.out s.ch } := by
      unfold dopr_conv
      rw [h.ch_eq.1]
      rfl
    refine hputs _ ['%'.toUInt8] hconv rfl h.args ?_ (hholds.puts _)
    rw [h.out, h.ch_eq.1]
    rfl

theorem Piece.Source.congr {mem mem' : ByteMem} {piece : Piece} (h : piece.Source mem buffer maxlen)
    (hsame : ∀ a, maxlen.toNat ≤ (a - buffer).toNat → mem' a = mem a) : piece.Source mem' buffer maxlen := by
  cases piece with
  | char _ _ _ => trivial
  | directive d v =>
    cases v with
    | string value x => exact snprintf.Source.congr h hsame
    | number _ _ | char _ | percent => trivial

theorem Reads.done_lead (h : s.ch = 0 ∨ s.out.len ≥ maxlen) (hstate : s.state ≠ .DP_S_DONE)
    (hholds : Holds start buffer maxlen s.out t) :
    Leads fmtfp buffer maxlen s fun s' => s'.state = .DP_S_DONE ∧ Holds start buffer maxlen s'.out t :=
  Leads.step hstate (if_pos h) (Leads.here ⟨rfl, hholds⟩)

/-- The loop puts the texts of all pieces, as far as there is room. -/
theorem Reads.pieces_lead (pieces : List Piece) (hcount : maxlen.toNat < 2 ^ 31)
    (hsource : ∀ piece ∈ pieces, piece.Source o.mem buffer maxlen) (hholds : Holds start buffer maxlen o t)
    (h : Reads buffer maxlen .DP_S_DEFAULT 0 0 (-1) (pieces.flatMap Piece.args ++ args) o (pieces.flatMap Piece.chars) s) :
    Leads fmtfp buffer maxlen s fun s' =>
      s'.state = .DP_S_DONE ∧ Holds start buffer maxlen s'.out (t ++ pieces.flatMap Piece.text) := by
  induction pieces generalizing s o t with
  | nil =>
    obtain ⟨p, -, hch, hzero, -⟩ := h.script
    rw [List.flatMap_nil, List.append_nil]
    exact Reads.done_lead (Or.inl (hch.trans hzero)) (h.busy Stage.noConfusion) (h.out ▸ hholds)
  | cons piece pieces ih =>
    by_cases hroom : o.len < maxlen
    case neg =>
      -- the buffer is full, and the rest of the format is not read
      have hfull := hholds.full (Nat.not_lt.mp (mt hholds.lt_iff.mpr hroom)) ((piece :: pieces).flatMap Piece.text)
      exact Reads.done_lead (Or.inr (by rw [h.out]; exact UInt32.not_lt.mp hroom)) (h.busy Stage.noConfusion)
        (h.out ▸ hfull)
    have hrest : ∀ text, ∀ piece' ∈ pieces, piece'.Source (puts buffer maxlen o text).mem buffer maxlen := fun text piece' hmem =>
      (hsource piece' (List.mem_cons_of_mem _ hmem)).congr fun a ha => puts_outside ha o text
    simp only [List.flatMap_cons] at h ⊢
    rw [← List.append_assoc]
    cases piece with
    | char c nonzero plain =>
      have hstep : dopr_step fmtfp buffer maxlen s = some { s with out := dopr_outch buffer maxlen s.out s.ch }.advance := by
        unfold dopr_step
        rw [if_neg (h.guard hroom), h.state]
        simp only [h.ch_eq.1, if_neg plain]
      have hout : dopr_outch buffer maxlen s.out s.ch = puts buffer maxlen o [c] := by
        rw [h.out, h.ch_eq.1]
        rfl
      refine Leads.step (h.busy Stage.noConfusion) hstep (ih (hrest [c]) (hholds.puts [c]) ?_)
      exact ⟨h.state, h.flags, h.min, h.max, h.args, hout, h.next_puts rfl hout⟩
    | directive d v =>
      obtain ⟨hletter, hcflags⟩ := v.letter_ok
      simp only [Piece.chars, Piece.args, List.append_assoc] at h
      refine (h.directive_lead d hletter hcflags hroom).trans fun s₁ h₁ => ?_
      have hstring : ∀ value x, v = .string value x → snprintf.Source o.mem buffer maxlen value x := by
        rintro value x rfl
        exact hsource _ List.mem_cons_self
      refine (h₁.conv_lead v hcount hroom hstring hholds).trans ?_
      rintro s₂ ⟨text, h₂, hholds₂⟩
      exact ih (hrest text) hholds₂ h₂

end Conversions

section Results

variable {fmtfp : Fmtfp} {mem : ByteMem} {str count fmt : UInt32} {text : List UInt8}

/-- What a reader of the buffer finds of a text that has been put into it: the characters up to the first 0. -/
def printed (text : List UInt8) (count : UInt32) : List UInt8 := (text.take (count.toNat - 1)).takeWhile (· ≠ 0)

theorem string_take {p : UInt32} {i : Nat} (hbytes : ∀ j < i, text[j]? = some (mem (p + UInt32.ofNat j)))
    (hzero : mem (p + UInt32.ofNat i) = 0) :
    strings.IsString (strings.Ptr.into mem p) ((text.take i).takeWhile (· ≠ 0)) := by
  induction i generalizing p text with
  | zero =>
    rw [strings.offset_zero] at hzero
    exact congrArg some hzero
  | succ i ih =>
    have hfirst := hbytes 0 (Nat.succ_pos i)
    rw [strings.offset_zero] at hfirst
    cases text with
    | nil => cases hfirst
    | cons c text =>
      cases hfirst
      by_cases hend : mem p = 0
      · rw [List.take_succ_cons, List.takeWhile_cons_of_neg (by simp [hend])]
        exact congrArg some hend
      · rw [strings.offset_succ] at hzero
        have hnext : ∀ j < i, text[j]? = some (mem (p + 1 + UInt32.ofNat j)) := by
          intro j hj
          rw [← strings.offset_succ]
          exact hbytes (j + 1) (Nat.succ_lt_succ hj)
        rw [List.take_succ_cons, List.takeWhile_cons_of_pos (by simp [hend])]
        exact ⟨hend, rfl, ih hnext hzero⟩

theorem printed_length (hcount : count ≠ 0) (text : List UInt8) : (printed text count).length < count.toNat := by
  have hpred := pred_toNat hcount
  have hle : (printed text count).length ≤ (text.take (count.toNat - 1)).length := (List.takeWhile_sublist _).length_le
  rw [List.length_take] at hle
  omega

/-- The run of `dopr` over a format ends, and leaves its text in the buffer. -/
theorem dopr_text (fmtfp : Fmtfp) (pieces : List Piece) (hcount : count ≠ 0)
    (hsize : count.toNat < 2 ^ 31)
    (hscript : Script mem str count fmt (pieces.flatMap Piece.chars)) (hsource : ∀ piece ∈ pieces, piece.Source mem str count)
    (more : List Arg) :
    ∃ fuel mem', (∀ n, dopr fmtfp str count (fuel + n) (store8 mem str 0) fmt (pieces.flatMap Piece.args ++ more) = some mem') ∧
      strings.IsString (strings.Ptr.into mem' str) (printed (pieces.flatMap Piece.text) count) ∧
      ∀ a, count.toNat ≤ (a - str).toNat → mem' a = mem a := by
  have hpred := pred_toNat hcount
  have hcleared : ∀ a, count.toNat ≤ (a - str).toNat → store8 mem str 0 a = mem a := by
    intro a ha
    refine if_neg ?_
    rintro rfl
    rw [UInt32.sub_self, UInt32.toNat_zero] at ha
    omega
  have hstart : Reads str count .DP_S_DEFAULT 0 0 (-1) (pieces.flatMap Piece.args ++ more) ⟨store8 mem str 0, 0⟩
      (pieces.flatMap Piece.chars) (dopr_start (store8 mem str 0) fmt (pieces.flatMap Piece.args ++ more)) :=
    ⟨rfl, rfl, rfl, rfl, rfl, rfl, fmt, rfl, rfl, hscript.congr hcleared⟩
  have hlead : Leads fmtfp str count (dopr_start (store8 mem str 0) fmt (pieces.flatMap Piece.args ++ more)) _ :=
    hstart.pieces_lead pieces hsize (fun piece hmem => (hsource piece hmem).congr hcleared) (Holds.nil _ str count)
  obtain ⟨s', ⟨hdone, hholds⟩, fuel, hrun⟩ := hlead
  obtain ⟨i, hterminate, hi⟩ := terminate_eq str count s'.out
  rw [List.nil_append] at hholds
  have hlen := hholds.len
  refine ⟨fuel + 1, terminate str count s'.out, fun n => ?_, ?_, fun a ha => ?_⟩
  · have hlast : dopr_loop fmtfp str count (n + 1) s' = some s' := if_pos hdone
    rw [dopr, Nat.add_assoc, Nat.add_comm 1 n, hrun, hlast, Option.map_some]
  · have htake : (pieces.flatMap Piece.text).take (count.toNat - 1) = (pieces.flatMap Piece.text).take i :=
      List.take_eq_take_iff.mpr (by omega)
    rw [printed, htake, hterminate]
    refine string_take (fun j hj => ?_) (if_pos rfl)
    have hne : str + UInt32.ofNat j ≠ str + UInt32.ofNat i := by
      intro heq
      have hsame := congrArg UInt32.toNat (UInt32.add_right_inj str |>.mp heq)
      rw [UInt32.toNat_ofNat', UInt32.toNat_ofNat'] at hsame
      omega
    have hbyte := hholds.bytes j (by omega)
    rw [hbyte]
    exact congrArg some (if_neg hne).symm
  · have hplace : a ≠ str + UInt32.ofNat i := by
      rintro rfl
      rw [UInt32.add_comm, UInt32.add_sub_cancel, UInt32.toNat_ofNat'] at ha
      omega
    rw [hterminate]
    exact (if_neg hplace).trans ((hholds.outside a ha).trans (hcleared a ha))

theorem vsnprintf_eq {fuel : Nat} {args : List Arg} {mem' : ByteMem} {s : List UInt8}
    (h : dopr fmtfp str count fuel (store8 mem str 0) fmt args = some mem')
    (hs : strings.IsString (strings.Ptr.into mem' str) s) :
    vsnprintf fmtfp fuel mem str count fmt args = some (UInt32.ofNat s.length, mem') := by
  simp only [vsnprintf, h, Option.bind_some, strings.strlen_eq hs, Option.map_some]

/-- `vsnprintf` returns, for every format with as many arguments as it reads. The buffer then holds the text of
the format, cut so that its 0 fits, and nothing outside the buffer has been written. -/
theorem vsnprintf_text (fmtfp : Fmtfp) (pieces : List Piece) (hcount : count ≠ 0)
    (hsize : count.toNat < 2 ^ 31)
    (hscript : Script mem str count fmt (pieces.flatMap Piece.chars)) (hsource : ∀ piece ∈ pieces, piece.Source mem str count)
    (more : List Arg) :
    ∃ fuel mem', (∀ n, vsnprintf fmtfp (fuel + n) mem str count fmt (pieces.flatMap Piece.args ++ more) =
        some (UInt32.ofNat (printed (pieces.flatMap Piece.text) count).length, mem')) ∧
      strings.IsString (strings.Ptr.into mem' str) (printed (pieces.flatMap Piece.text) count) ∧
      ∀ a, count.toNat ≤ (a - str).toNat → mem' a = mem a := by
  obtain ⟨fuel, mem', hrun, htext, houtside⟩ := dopr_text fmtfp pieces hcount hsize hscript hsource more
  exact ⟨fuel, mem', fun n => vsnprintf_eq (hrun n) htext, htext, houtside⟩

/-- `"%d!"` for -42, in a buffer with room for three characters. -/
theorem vsnprintf_text_cut : ∃ fuel mem', vsnprintf (fun _ _ _ _ => []) fuel (text_at 0x100 ("%d!".toList.map Char.toUInt8))
      0x200 4 0x100 [.word 0xFFFFFFD6] = some (3, mem') ∧
    strings.IsString (strings.Ptr.into mem' 0x200) ("-42".toList.map Char.toUInt8) := by
  have hscript : Script (text_at 0x100 ("%d!".toList.map Char.toUInt8)) 0x200 4 0x100
      (List.flatMap Piece.chars [.directive Directive.bare (.number .d 0xFFFFFFD6), .char '!'.toUInt8 (by decide) (by decide)]) := by
    decide
  obtain ⟨fuel, mem', hrun, htext, -⟩ := vsnprintf_text (fun _ _ _ _ => []) _ (by decide) (by decide) hscript
    (by simp [Piece.Source]) []
  exact ⟨fuel, mem', hrun 0, htext⟩

/-- `printk` sends the first 127 characters of the text. -/
theorem printk_text (fmtfp : Fmtfp) {buf : UInt32} (pieces : List Piece)
    (hscript : Script mem buf 128 fmt (pieces.flatMap Piece.chars))
    (hsource : ∀ piece ∈ pieces, piece.Source mem buf 128) (more : List Arg) :
    ∃ fuel, ∀ n, printk fmtfp (fuel + n) mem buf fmt (pieces.flatMap Piece.args ++ more) =
      some (Int32.ofNat (printed (pieces.flatMap Piece.text) 128).length, printed (pieces.flatMap Piece.text) 128) := by
  have hcount : (128 : UInt32) ≠ 0 := by decide
  obtain ⟨fuel, mem', hrun, htext, -⟩ := dopr_text fmtfp pieces hcount (by decide) hscript hsource more
  have hshort : (printed (pieces.flatMap Piece.text) 128).length < 128 := printed_length hcount _
  have hint : (UInt32.ofNat (printed (pieces.flatMap Piece.text) 128).length).toInt32 =
      Int32.ofNat (printed (pieces.flatMap Piece.text) 128).length := rfl
  have hlength : (Int32.ofNat (printed (pieces.flatMap Piece.text) 128).length).toInt =
      (printed (pieces.flatMap Piece.text) 128).length := Int32.toInt_ofNat_of_lt (by omega)
  refine ⟨fuel, fun n => ?_⟩
  rw [printk, vsnprintf_eq (hrun n) htext, Option.map_some]
  simp only [hint, hlength, Int.toNat_natCast, htext.read_back]

theorem printk_text_number : ∃ fuel, printk (fun _ _ _ _ => []) fuel (text_at 0x100 ("%d!".toList.map Char.toUInt8))
    0x200 0x100 [.word 0xFFFFFFD6] = some (4, "-42!".toList.map Char.toUInt8) := by
  have hscript : Script (text_at 0x100 ("%d!".toList.map Char.toUInt8)) 0x200 128 0x100
      (List.flatMap Piece.chars [.directive Directive.bare (.number .d 0xFFFFFFD6), .char '!'.toUInt8 (by decide) (by decide)]) := by
    decide
  obtain ⟨fuel, hrun⟩ := printk_text (fun _ _ _ _ => []) _ hscript (by simp [Piece.Source]) []
  exact ⟨fuel, hrun 0⟩

end Results

end epos.snprintf
