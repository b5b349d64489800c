import Epos.Page.Vmspace

open chains
open epos.page (NULL loop_fuel)

namespace epos.thread

def TASK_STATE_WAITING : Int32 := -1
def TASK_STATE_READY : Int32 := 1
def TASK_STATE_ZOMBIE : Int32 := 2
def TASK_TIMESLICE_DEFAULT : Int32 := 4
def TASK_SIGNATURE : UInt32 := 0x20160201

structure tcb where
  kstack : UInt32
  tid : Int32
  state : Int32
  timeslice : Int32
  code_exit : Int32
  wq_exit : UInt32
  next : UInt32
  signature : UInt32
deriving DecidableEq

structure wait_queue where
  tsk : UInt32
  next : UInt32
deriving DecidableEq

/-- The control blocks and the wait queue entries at their addresses, the globals
of `task.c` and the static counter of `sys_task_create`. `heap` has the blocks
that `kmalloc` handed out and `kfree` has not taken back. -/
structure Threads where
  tcbs : UInt32 → tcb
  waits : UInt32 → wait_queue
  g_resched : Int32
  g_task_head : UInt32
  g_task_running : UInt32
  task0 : UInt32
  g_task_own_fpu : UInt32
  tid : Int32
  heap : List UInt32

namespace Threads

def next (s : Threads) (p : UInt32) : UInt32 := (s.tcbs p).next

def set_tcb (s : Threads) (p : UInt32) (tsk : tcb) : Threads :=
  { s with tcbs := Function.update s.tcbs p tsk }

/-- `p->next = n` -/
def set_next (s : Threads) (p n : UInt32) : Threads := s.set_tcb p { s.tcbs p with next := n }

/-- The loops over the threads from `g_task_head` on. -/
def walk {ρ : Type} (s : Threads) (body : UInt32 → UInt32 → Unit → Pass Unit ρ) (finish : UInt32 → Unit → ρ) :
    Option ρ :=
  chains.walk NULL s.next body finish loop_fuel NULL s.g_task_head ()

/-- Where the loop of `schedule` is left. -/
def schedule_stop (s : Threads) (select : UInt32) : Bool :=
  select = s.g_task_running ∨ (s.tcbs select).tid ≠ 0 ∧ (s.tcbs select).state = TASK_STATE_READY

end Threads

/-- `switch_to(select)` is commented out, so `schedule` comes back to the thread
that called it. `none` if its loop never ends. -/
def schedule (s : Threads) : Option Threads :=
  (circle NULL s.next s.g_task_head s.schedule_stop loop_fuel s.g_task_running).map fun select =>
    if select = s.g_task_running ∧ (s.tcbs select).state = TASK_STATE_READY then s
    else { s with g_resched := 0 }

/-- `sleep_on(&tsk->wq_exit)` up to its call of `schedule`, with the local `wait` at the
address given. -/
def sleep_on_enter (s : Threads) (wait tsk : UInt32) : Threads :=
  let s := { s with waits := Function.update s.waits wait ⟨s.g_task_running, (s.tcbs tsk).wq_exit⟩ }
  let s := s.set_tcb tsk { s.tcbs tsk with wq_exit := wait }
  s.set_tcb s.g_task_running { s.tcbs s.g_task_running with state := TASK_STATE_WAITING }

/-- The loop `do { q = p; p = p->next; if (p == &wait) break; } while (p != NULL)`, with the
`q` it breaks at, if any. `none` if it follows NULL or never ends. -/
def find_wait (next : UInt32 → UInt32) (wait : UInt32) : Nat → UInt32 → Option (Option UInt32)
  | 0, _ => none
  | fuel + 1, p =>
    if p = NULL then none
    else
      let q := p
      let p := next q
      if p = wait then some (some q)
      else if p = NULL then some none
      else find_wait next wait fuel p

/-- The part of `sleep_on` that takes `&wait` out of the inside of the queue of `tsk`. -/
def leave_queue (s : Threads) (wait tsk : UInt32) : Option Threads :=
  (find_wait (fun p => (s.waits p).next) wait loop_fuel (s.tcbs tsk).wq_exit).map fun
    | none => s
    | some q =>
      { s with waits := Function.update s.waits q { s.waits q with next := (s.waits wait).next } }

/-- `sleep_on(&tsk->wq_exit)` from the return of `schedule` on. -/
def sleep_on_leave (s : Threads) (wait tsk : UInt32) : Option Threads :=
  if (s.tcbs tsk).wq_exit = wait then some (s.set_tcb tsk { s.tcbs tsk with wq_exit := (s.waits wait).next })
  else leave_queue s wait tsk

def sleep_on (s : Threads) (wait tsk : UInt32) : Option Threads :=
  (schedule (sleep_on_enter s wait tsk)).bind fun s => sleep_on_leave s wait tsk

/-- `wake_up(&tsk->wq_exit, n)` -/
def wake_up (s : Threads) (tsk : UInt32) (n : Int32) : Option Threads :=
  chains.walk NULL (fun p => (s.waits p).next)
    (fun _ p (t : Threads × Int32) =>
      if t.2 = 0 then .stop t.1
      else
        let woken := (s.waits p).tsk
        .go (t.1.set_tcb woken { t.1.tcbs woken with state := TASK_STATE_READY }, t.2 - 1))
    (fun _ t => t.1) loop_fuel NULL (s.tcbs tsk).wq_exit (s, n)

def add_task (s : Threads) (tsk : UInt32) : Option Threads :=
  if s.g_task_head = NULL then some { s with g_task_head := tsk }
  else (s.walk (fun _ _ _ => .go ()) (fun q _ => q)).map fun q => s.set_next q tsk

def remove_task (s : Threads) (tsk : UInt32) : Option Threads :=
  if s.g_task_head = NULL then some s
  else if tsk = s.g_task_head then some { s with g_task_head := s.next s.g_task_head }
  else
    (s.walk (fun q p _ => if p = tsk then .stop (some q) else .go ()) (fun _ _ => none)).map fun
      | none => s
      | some q => s.set_next q (s.next tsk)

def get_task (s : Threads) (tid : Int32) : Option UInt32 :=
  s.walk (fun _ p _ => if (s.tcbs p).tid = tid then .stop p else .go ()) (fun _ _ => NULL)

/-- What `sys_task_create` makes of the block at `p`. With no user stack two words
are pushed on the kernel stack. -/
def new_tcb (p ustack : UInt32) (tid : Int32) : tcb :=
  { kstack := if ustack ≠ 0 then p + PAGE_SIZE else p + PAGE_SIZE - 4 - 4
    tid
    state := TASK_STATE_READY
    timeslice := TASK_TIMESLICE_DEFAULT
    code_exit := 0
    wq_exit := NULL
    next := NULL
    signature := TASK_SIGNATURE }

/-- `sys_task_create`; `p` is what `kmalloc` returns, should it be called. -/
def sys_task_create (s : Threads) (p tos : UInt32) : Option (UInt32 × Threads) :=
  if tos &&& 3 ≠ 0 then some (NULL, s)
  else if p = NULL then some (NULL, s)
  else
    let s := { s.set_tcb p (new_tcb p tos s.tid) with tid := s.tid + 1, heap := p :: s.heap }
    (add_task s p).map fun s => (p, s)

def sys_task_exit (s : Threads) (code_exit : Int32) : Option Threads :=
  (wake_up s s.g_task_running (-1)).bind fun s =>
    let s := s.set_tcb s.g_task_running { s.tcbs s.g_task_running with code_exit }
    let s := s.set_tcb s.g_task_running { s.tcbs s.g_task_running with state := TASK_STATE_ZOMBIE }
    let s := if s.g_task_own_fpu = s.g_task_running then { s with g_task_own_fpu := NULL } else s
    schedule s

def kfree (s : Threads) (p : UInt32) : Threads := { s with heap := s.heap.erase p }

/-- `sys_task_wait(tid, &code)`: the result, what is stored to `code`, if anything,
and the state. -/
def sys_task_wait (s : Threads) (wait : UInt32) (tid : Int32) : Option (Int32 × Option Int32 × Threads) :=
  if s.g_task_running = NULL then some (-1, none, s)
  else
    (get_task s tid).bind fun tsk =>
      if tsk = NULL then some (-1, none, s)
      else
        (if (s.tcbs tsk).state ≠ TASK_STATE_ZOMBIE then sleep_on s wait tsk else some s).bind fun s =>
          let code := (s.tcbs tsk).code_exit
          if (s.tcbs tsk).wq_exit = NULL then
            (remove_task s tsk).map fun s => (0, some code, kfree s tsk)
          else some (0, some code, s)

def sys_task_yield (s : Threads) : Option Threads := schedule s

/-- `init_task`, on whatever memory; `p` is what `kmalloc` returns. -/
def init_task (s : Threads) (p : UInt32) : Option Threads :=
  let s := { s with g_resched := 0, g_task_running := NULL, g_task_head := NULL, g_task_own_fpu := NULL }
  (sys_task_create s p NULL).map fun (task0, s) => { s with task0 }

end epos.thread
