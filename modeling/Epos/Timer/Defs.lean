import Epos.Lib.Counter

open counters

namespace epos.timer

def HZ : UInt32 := 100

/-- `sleep`, with the number of the last reading it made of the counter at TIMER_CL0. The
multiplication wraps as the compiled code does it. -/
def sleep (TIMER_CL0 : Nat → UInt32) (fuel : Nat) (ms : Int32) : Option (Int32 × Nat) :=
  if ms < 0 then some (-1, 0)
  else
    let us := (ms * 1000).toUInt32
    let current_time := TIMER_CL0 0
    (wait_loop TIMER_CL0 current_time us fuel 1).map fun n => (0, n)

/-- `_sleep`, with the number of the last reading it made of `g_timer_ticks`; it yields
between two of them. -/
def _sleep (g_timer_ticks : Nat → UInt32) (fuel : Nat) (ticks : UInt32) : Option (UInt32 × Nat) :=
  let start := g_timer_ticks 0
  (wait_loop g_timer_ticks start ticks fuel 1).map fun n => (0, n)

/-! `g_timer_ticks` is read by number: the loops that wait take one number for each pass, whether
it reads the ticks or not, so that any timing is that of some sequence. -/

/-- `while (tmp == g_timer_ticks);` from `now` on, with the number of what comes next. -/
def wait_tick (g_timer_ticks : Nat → UInt32) (tmp : UInt32) : Nat → Nat → Option Nat
  | 0, _ => none
  | fuel + 1, now => if tmp = g_timer_ticks now then wait_tick g_timer_ticks tmp fuel (now + 1) else some (now + 1)

/-- `do {} while (loops-- > 0);` -/
def busy_wait : Nat → Nat → Nat
  | 0, now => now + 1
  | loops + 1, now => busy_wait loops (now + 1)

/-- The part that both loops of `calibrate_delay` have: from the start of a clock tick on,
`g_timer_ticks` before and after `busy_wait(loops_per_tick)`. -/
def time_loops (g_timer_ticks : Nat → UInt32) (fuel : Nat) (loops_per_tick : UInt32) (now : Nat) :
    Option (UInt32 × UInt32 × Nat) :=
  (wait_tick g_timer_ticks (g_timer_ticks now) fuel (now + 1)).map fun now =>
    let tmp := g_timer_ticks now
    let now := busy_wait loops_per_tick.toNat (now + 1)
    (tmp, g_timer_ticks now, now + 1)

/-- `while (loops_per_tick <<= 1)`; the first number is for its passes. -/
def double_loops (g_timer_ticks : Nat → UInt32) (fuel : Nat) : Nat → UInt32 → Nat → Option (UInt32 × Nat)
  | 0, _, _ => none
  | passes + 1, loops_per_tick, now =>
    let loops_per_tick := loops_per_tick <<< 1
    if loops_per_tick = 0 then some (loops_per_tick, now)
    else
      (time_loops g_timer_ticks fuel loops_per_tick now).bind fun (tmp, ticks, now) =>
        let tmp := ticks - tmp
        if tmp ≠ 0 then some (loops_per_tick, now)
        else double_loops g_timer_ticks fuel passes loops_per_tick now

def LPS_PREC : Nat := 8

/-- `while (lps_precision-- && (loopbit >>= 1))` -/
def approximate (g_timer_ticks : Nat → UInt32) (fuel : Nat) : Nat → UInt32 → UInt32 → Nat → Option (UInt32 × Nat)
  | 0, loops_per_tick, _, now => some (loops_per_tick, now)
  | lps_precision + 1, loops_per_tick, loopbit, now =>
    let loopbit := loopbit >>> 1
    if loopbit = 0 then some (loops_per_tick, now)
    else
      let loops_per_tick := loops_per_tick ||| loopbit
      (time_loops g_timer_ticks fuel loops_per_tick now).bind fun (tmp, ticks, now) =>
        let loops_per_tick := if ticks ≠ tmp then loops_per_tick &&& ~~~loopbit else loops_per_tick
        approximate g_timer_ticks fuel lps_precision loops_per_tick loopbit now

/-- `calibrate_delay`, without what it prints: the `loops_per_tick` that it leaves. -/
def calibrate_delay (g_timer_ticks : Nat → UInt32) (now fuel : Nat) : Option UInt32 :=
  let loops_per_tick := (1 : UInt32) <<< (12 : UInt32)
  (double_loops g_timer_ticks fuel fuel loops_per_tick now).bind fun (loops_per_tick, now) =>
    let loops_per_tick := loops_per_tick >>> 1
    let loopbit := loops_per_tick
    (approximate g_timer_ticks fuel LPS_PREC loops_per_tick loopbit now).map Prod.fst

/-! The calls of `_sleep` that the calls below make, as the ticks they ask for. -/

/-- The call of `busy_wait` is commented out. -/
def _delay (_num _denom : UInt32) : List UInt32 := []

/-- So is the division by `denom`. -/
def do_sleep (num denom : UInt32) : List UInt32 :=
  let ticks := num * HZ
  if ticks > 0 then [ticks] else _delay num denom

def sys_sleep (seconds : UInt32) : List UInt32 := do_sleep seconds 1

structure timespec where
  tv_sec : Int32
  tv_nsec : Int32

def sys_nanosleep (rqtp : timespec) : List UInt32 :=
  (if rqtp.tv_sec > 0 then do_sleep rqtp.tv_sec.toUInt32 1 else []) ++
    if rqtp.tv_nsec > 0 then do_sleep rqtp.tv_nsec.toUInt32 (1000 * 1000 * 1000) else []

end epos.timer
