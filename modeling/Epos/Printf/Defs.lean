import Epos.Lib.Sink
import Epos.Strings.Copy

open bytes sink

namespace epos.snprintf

/-- What is left of a `va_list`: words, and doubles for the conversions of floating point. -/
inductive Arg where
  | word (w : UInt32)
  | double (w : UInt64)

/-- `va_arg (args, int)`, and all the other types of one word. It is undefined if there is none. -/
def va_word : List Arg → Option (UInt32 × List Arg)
  | .word w :: args => some (w, args)
  | _ => none

def va_double : List Arg → Option (UInt64 × List Arg)
  | .double w :: args => some (w, args)
  | _ => none

/-- The format read states. -/
inductive Stage where
  | DP_S_DEFAULT | DP_S_FLAGS | DP_S_MIN | DP_S_DOT | DP_S_MAX | DP_S_MOD | DP_S_CONV | DP_S_DONE
  deriving DecidableEq

def DP_F_MINUS : UInt32 := (1 : UInt32) <<< 0
def DP_F_PLUS : UInt32 := (1 : UInt32) <<< 1
def DP_F_SPACE : UInt32 := (1 : UInt32) <<< 2
def DP_F_NUM : UInt32 := (1 : UInt32) <<< 3
def DP_F_ZERO : UInt32 := (1 : UInt32) <<< 4
def DP_F_UP : UInt32 := (1 : UInt32) <<< 5
def DP_F_UNSIGNED : UInt32 := (1 : UInt32) <<< 6

def DP_C_SHORT : UInt32 := 1
def DP_C_LONG : UInt32 := 2
def DP_C_LDOUBLE : UInt32 := 3

def isdigit (c : UInt8) : Bool := '0'.toUInt8 ≤ c && c ≤ '9'.toUInt8
def char_to_int (p : UInt8) : Int32 := (p - '0'.toUInt8).toUInt32.toInt32
def MAX (p q : Int32) : Int32 := if p ≥ q then p else q

section Output

variable (buffer maxlen : UInt32)

def dopr_outch (o : Sink) (c : UInt8) : Sink :=
  if o.len < maxlen then { mem := store8 o.mem (buffer + o.len) c, len := o.len + 1 } else o

/-- `while (n > 0) { dopr_outch (c); --n; }` -/
def pad (c : UInt8) : Nat → Sink → Sink
  | 0, o => o
  | n + 1, o => pad c n (dopr_outch buffer maxlen o c)

/-- Spaces while `cnt < max`: what they leave of `cnt`. -/
def pad_to (max : Int32) : Nat → Int32 → Sink → Int32 × Sink
  | 0, cnt, o => (cnt, o)
  | n + 1, cnt, o =>
    if cnt < max then pad_to max n (cnt + 1) (dopr_outch buffer maxlen o ' '.toUInt8) else (cnt, o)

/-- `"<NULL>"`, with the 0 after it. -/
def NULL_TEXT : List UInt8 := "<NULL>".toList.map Char.toUInt8 ++ [0]

/-- `value[i]`. -/
def fetch (mem : ByteMem) (value : UInt32) (i : Nat) : UInt8 :=
  if value = 0 then NULL_TEXT.getD i 0 else mem (value + UInt32.ofNat i)

/-- The length of the string, which is nowhere if none of the bytes of memory is its end. -/
def strln_loop (mem : ByteMem) (value : UInt32) : Nat → Nat → Option Nat
  | 0, _ => none
  | fuel + 1, i => if fetch mem value i ≠ 0 then strln_loop mem value fuel (i + 1) else some i

def copy_loop (max : Int32) (value : UInt32) : Nat → Nat → Int32 → Sink → Option (Int32 × Sink)
  | 0, _, _, _ => none
  | fuel + 1, i, cnt, o =>
    if fetch o.mem value i ≠ 0 ∧ cnt < max then
      copy_loop max value fuel (i + 1) (cnt + 1) (dopr_outch buffer maxlen o (fetch o.mem value i))
    else some (cnt, o)

def fmtstr (o : Sink) (value flags : UInt32) (min max : Int32) : Option Sink :=
  (strln_loop o.mem value UInt32.size 0).bind fun strln =>
    let padlen := min - Int32.ofNat strln
    let padlen := if padlen < 0 then 0 else padlen
    let left := flags &&& DP_F_MINUS ≠ 0
    let (cnt, o) := pad_to buffer maxlen max (if left then 0 else padlen.toInt.toNat) 0 o
    (copy_loop buffer maxlen max value UInt32.size 0 cnt o).map fun (cnt, o) =>
      (pad_to buffer maxlen max (if left then padlen.toInt.toNat else 0) cnt o).2

/-- The digits, the last one first; there are at most as many as `convert` has room for. -/
def convert_loop (caps : Bool) (base : UInt32) : Nat → UInt32 → List UInt8
  | 0, _ => []
  | room + 1, uvalue =>
    ((if caps then "0123456789ABCDEF" else "0123456789abcdef").toList.getD (uvalue % base).toNat '0').toUInt8 ::
      (if uvalue / base ≠ 0 then convert_loop caps base room (uvalue / base) else [])

/-- The sign, or 0. -/
def sign_of (value : Int32) (flags : UInt32) : UInt8 :=
  if flags &&& DP_F_UNSIGNED ≠ 0 then 0
  else if value < 0 then '-'.toUInt8
  else if flags &&& DP_F_PLUS ≠ 0 then '+'.toUInt8
  else if flags &&& DP_F_SPACE ≠ 0 then ' '.toUInt8
  else 0

def uvalue_of (value : Int32) (flags : UInt32) : UInt32 :=
  if flags &&& DP_F_UNSIGNED = 0 ∧ value < 0 then (-value).toUInt32 else value.toUInt32

/-- `spadlen`, without the sign that it has for a left justified number, and `zpadlen`. -/
def pads (place : Nat) (signvalue : UInt8) (min max : Int32) (flags : UInt32) : Nat × Nat :=
  let max := if max < 0 then 0 else max
  let zpadlen := max - Int32.ofNat place
  let spadlen := min - MAX max (Int32.ofNat place) - (if signvalue ≠ 0 then 1 else 0)
  let zpadlen := if zpadlen < 0 then 0 else zpadlen
  let spadlen := if spadlen < 0 then 0 else spadlen
  if flags &&& DP_F_ZERO ≠ 0 then (0, (MAX zpadlen spadlen).toInt.toNat) else (spadlen.toInt.toNat, zpadlen.toInt.toNat)

def fmtint (o : Sink) (value : Int32) (base : UInt32) (min max : Int32) (flags : UInt32) : Sink :=
  let signvalue := sign_of value flags
  let convert := convert_loop (flags &&& DP_F_UP ≠ 0) base 20 (uvalue_of value flags)
  let place := if convert.length = 20 then 19 else convert.length
  let (spadlen, zpadlen) := pads place signvalue min max flags
  let left := flags &&& DP_F_MINUS ≠ 0
  let o := if left then o else pad buffer maxlen ' '.toUInt8 spadlen o
  let o := if signvalue ≠ 0 then dopr_outch buffer maxlen o signvalue else o
  let o := pad buffer maxlen '0'.toUInt8 zpadlen o
  let o := (convert.take place).reverse.foldl (dopr_outch buffer maxlen) o
  if left then pad buffer maxlen ' '.toUInt8 spadlen o else o

end Output

/-- The local variables of `dopr`, with the output. -/
structure Dopr where
  ch : UInt8
  format : UInt32
  state : Stage
  flags : UInt32
  cflags : UInt32
  min : Int32
  max : Int32
  args : List Arg
  out : Sink

/-- `ch = *format++` -/
def Dopr.advance (s : Dopr) : Dopr := { s with ch := s.out.mem s.format, format := s.format + 1 }

def flag_of (ch : UInt8) : Option UInt32 :=
  if ch = '-'.toUInt8 then some DP_F_MINUS
  else if ch = '+'.toUInt8 then some DP_F_PLUS
  else if ch = ' '.toUInt8 then some DP_F_SPACE
  else if ch = '#'.toUInt8 then some DP_F_NUM
  else if ch = '0'.toUInt8 then some DP_F_ZERO
  else none

def cflags_of (ch : UInt8) : Option UInt32 :=
  if ch = 'h'.toUInt8 then some DP_C_SHORT
  else if ch = 'l'.toUInt8 then some DP_C_LONG
  else if ch = 'L'.toUInt8 then some DP_C_LDOUBLE
  else none

/-- What `fmtfp` puts: it computes with floating point numbers, and is a parameter. -/
abbrev Fmtfp := UInt64 → Int32 → Int32 → UInt32 → List UInt8

section Loop

variable (fmtfp : Fmtfp) (buffer maxlen : UInt32)

/-- The conversions of `fmtint`: `short`, `int` and `long` are all passed in one word. -/
def conv_int (s : Dopr) (base more : UInt32) : Option Dopr :=
  (va_word s.args).map fun (value, args) =>
    { s with args := args, flags := s.flags ||| more,
             out := fmtint buffer maxlen s.out value.toInt32 base s.min s.max (s.flags ||| more) }

/-- `%n` -/
def store_len (s : Dopr) (num : UInt32) : ByteMem :=
  if s.cflags = DP_C_SHORT then store8 (store8 s.out.mem num (byte_of s.out.len 0)) (num + 1) (byte_of s.out.len 1)
  else store32 s.out.mem num s.out.len

/-- The `switch (ch)` of `DP_S_CONV`. -/
def dopr_conv (s : Dopr) : Option Dopr :=
  if s.ch = 'd'.toUInt8 ∨ s.ch = 'i'.toUInt8 then conv_int buffer maxlen s 10 0
  else if s.ch = 'o'.toUInt8 then conv_int buffer maxlen s 8 DP_F_UNSIGNED
  else if s.ch = 'u'.toUInt8 then conv_int buffer maxlen s 10 DP_F_UNSIGNED
  else if s.ch = 'X'.toUInt8 then conv_int buffer maxlen s 16 (DP_F_UP ||| DP_F_UNSIGNED)
  else if s.ch = 'x'.toUInt8 then conv_int buffer maxlen s 16 DP_F_UNSIGNED
  else if s.ch = 'f'.toUInt8 then
    (va_double s.args).map fun (fvalue, args) =>
      { s with args := args, out := (fmtfp fvalue s.min s.max s.flags).foldl (dopr_outch buffer maxlen) s.out }
  else if s.ch = 'E'.toUInt8 ∨ s.ch = 'e'.toUInt8 ∨ s.ch = 'G'.toUInt8 ∨ s.ch = 'g'.toUInt8 then
    -- these only take their argument
    (va_double s.args).map fun (_, args) => { s with args := args }
  else if s.ch = 'c'.toUInt8 then
    (va_word s.args).map fun (c, args) => { s with args := args, out := dopr_outch buffer maxlen s.out c.toUInt8 }
  else if s.ch = 's'.toUInt8 then
    (va_word s.args).bind fun (strvalue, args) =>
      (fmtstr buffer maxlen s.out strvalue s.flags s.min (if s.max < 0 then maxlen.toInt32 else s.max)).map fun o =>
        { s with args := args, out := o }
  else if s.ch = 'p'.toUInt8 then conv_int buffer maxlen s 16 0
  else if s.ch = 'n'.toUInt8 then
    (va_word s.args).map fun (num, args) => { s with args := args, out := { s.out with mem := store_len s num } }
  else if s.ch = '%'.toUInt8 then some { s with out := dopr_outch buffer maxlen s.out s.ch }
  else if s.ch = 'w'.toUInt8 then some s.advance
  else some s

/-- One round of the loop. -/
def dopr_step (s : Dopr) : Option Dopr :=
  if s.ch = 0 ∨ s.out.len ≥ maxlen then some { s with state := .DP_S_DONE }
  else
    match s.state with
    | .DP_S_DEFAULT =>
      if s.ch = '%'.toUInt8 then some { s with state := .DP_S_FLAGS }.advance
      else some { s with out := dopr_outch buffer maxlen s.out s.ch }.advance
    | .DP_S_FLAGS =>
      match flag_of s.ch with
      | some flag => some { s with flags := s.flags ||| flag }.advance
      | none => some { s with state := .DP_S_MIN }
    | .DP_S_MIN =>
      if isdigit s.ch then some { s with min := 10 * s.min + char_to_int s.ch }.advance
      else if s.ch = '*'.toUInt8 then
        (va_word s.args).map fun (min, args) => { s with min := min.toInt32, args := args, state := .DP_S_DOT }.advance
      else some { s with state := .DP_S_DOT }
    | .DP_S_DOT =>
      if s.ch = '.'.toUInt8 then some { s with state := .DP_S_MAX }.advance else some { s with state := .DP_S_MOD }
    | .DP_S_MAX =>
      if isdigit s.ch then
        some { s with max := 10 * (if s.max < 0 then 0 else s.max) + char_to_int s.ch }.advance
      else if s.ch = '*'.toUInt8 then
        (va_word s.args).map fun (max, args) => { s with max := max.toInt32, args := args, state := .DP_S_MOD }.advance
      else some { s with state := .DP_S_MOD }
    | .DP_S_MOD =>
      match cflags_of s.ch with
      | some cflags => some { s with cflags := cflags, state := .DP_S_CONV }.advance
      | none => some { s with state := .DP_S_CONV }
    | .DP_S_CONV =>
      (dopr_conv fmtfp buffer maxlen s).map fun s =>
        { s.advance with state := .DP_S_DEFAULT, flags := 0, cflags := 0, min := 0, max := -1 }
    | .DP_S_DONE => some s

/-- `while (state != DP_S_DONE)` -/
def dopr_loop : Nat → Dopr → Option Dopr
  | 0, _ => none
  | fuel + 1, s =>
    if s.state = .DP_S_DONE then some s else (dopr_step fmtfp buffer maxlen s).bind (dopr_loop fuel)

/-- The state before the loop. -/
def dopr_start (mem : ByteMem) (format : UInt32) (args : List Arg) : Dopr :=
  { ch := mem format, format := format + 1, state := .DP_S_DEFAULT, flags := 0, cflags := 0, min := 0, max := -1,
    args := args, out := { mem := mem, len := 0 } }

/-- The 0 behind the output. -/
def terminate (o : Sink) : ByteMem :=
  if o.len < maxlen - 1 then store8 o.mem (buffer + o.len) 0 else store8 o.mem (buffer + (maxlen - 1)) 0

def dopr (fuel : Nat) (mem : ByteMem) (format : UInt32) (args : List Arg) : Option ByteMem :=
  (dopr_loop fmtfp buffer maxlen fuel (dopr_start mem format args)).map fun s => terminate buffer maxlen s.out

def vsnprintf (fuel : Nat) (mem : ByteMem) (str count fmt : UInt32) (args : List Arg) : Option (UInt32 × ByteMem) :=
  let mem := store8 mem str 0
  (dopr fmtfp str count fuel mem fmt args).bind fun mem =>
    (strings.strlen (strings.Ptr.into mem str)).map fun n => (n, mem)

/-- The result, and the bytes that are sent; `buf` is where the 128 bytes are on the stack. -/
def printk (fuel : Nat) (mem : ByteMem) (buf fmt : UInt32) (args : List Arg) : Option (Int32 × List UInt8) :=
  (vsnprintf fmtfp fuel mem buf 128 fmt args).map fun (n, mem) =>
    let i := n.toInt32
    (i, (List.range i.toInt.toNat).map fun j => mem (buf + UInt32.ofNat j))

end Loop

end epos.snprintf
