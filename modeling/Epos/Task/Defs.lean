import Epos.Cpu
import Mathlib.Logic.Function.Basic

namespace epos.task

def MAX_rank : UInt8 := 3

inductive TASK_STATUS_ENUM where
  | STATUS_NULL
  | READY
  | RUN
  | WAIT
  | SUSPEND
  | DEAD
  deriving DecidableEq, Repr

structure TASK_INFO where
  rank : UInt8
  status : TASK_STATUS_ENUM
  task_func : UInt32
  /-- Task Ready ID -/
  TRID : UInt32
  deriving DecidableEq, Repr

/-- The register file `__vector_irq` saves, as `machdep.h` lays it out. -/
structure context where
  r0 : UInt32
  r1 : UInt32
  r2 : UInt32
  r3 : UInt32
  r4 : UInt32
  r5 : UInt32
  r6 : UInt32
  r7 : UInt32
  r8 : UInt32
  r9 : UInt32
  r10 : UInt32
  r11 : UInt32
  r12 : UInt32
  sp : UInt32
  lr : UInt32
  pc : UInt32
  cpsr : UInt32
  spsr : UInt32
  deriving DecidableEq, Repr

/-- The source declares `tid` an `unsigned int`; every assignment to it is of an
`unsigned char`. -/
structure tcb1 where
  kstack : UInt32
  tid : UInt8
  schedule_lock : Bool
  deriving DecidableEq, Repr

/-- The arrays have 256 entries, one for each value of an `unsigned char`. -/
structure Tasks where
  task_info : UInt8 → TASK_INFO
  task_table : UInt8 → context
  task_global : tcb1

/-! Link addresses, from the committed `kernel.list`. -/

def task_idle_addr : UInt32 := 0xc0008d68
def task_delete_addr : UInt32 := 0xc0009448
def task_stack_addr : UInt32 := 0xc0011f3c
def task_table_addr : UInt32 := 0xc0051f40
def task_global_addr : UInt32 := 0xc0057344

/-- `&task_table[TID]`; a `struct context` has 18 words. -/
def task_table_entry (TID : UInt8) : UInt32 := task_table_addr + 72 * TID.toUInt32

/-- The test `task_get_id` makes of a slot. -/
def Free (info : TASK_INFO) : Prop :=
  info.rank = 0 ∧ info.status = .STATUS_NULL ∧ info.task_func = 0 ∧ info.TRID = 256

instance (info : TASK_INFO) : Decidable (Free info) := by
  unfold Free
  infer_instance

/-- The first free slot, or 0, which is also the slot of the idle task. -/
def task_get_id (s : Tasks) : UInt8 :=
  match (List.range 256).find? (fun id => Free (s.task_info (UInt8.ofNat id))) with
  | some id => UInt8.ofNat id
  | none => 0

/-- The context `task_create` writes for a task entered at `task_func`. -/
def create_context (TID : UInt8) (task_func : UInt32) : context :=
  { r0 := 0, r1 := 0, r2 := 0, r3 := 0, r4 := 0, r5 := 0, r6 := 0, r7 := 0, r8 := 0, r9 := 0,
    r10 := 0, r11 := 0, r12 := 0
    sp := task_stack_addr + 1024 * TID.toUInt32 + 1024
    lr := task_delete_addr
    pc := task_func
    cpsr := 0x53
    spsr := 0x53 }

/-- `TRID` is the content of the local `task_info_this.TRID`, which the source
copies into the slot without having assigned it. -/
def task_create (s : Tasks) (rank : UInt8) (task_func TRID : UInt32) : UInt8 × Tasks :=
  if rank > MAX_rank + 1 then
    (0, s)
  else
    let TID := task_get_id s
    let task_info_this : TASK_INFO := { rank, status := .DEAD, task_func, TRID }
    (TID,
      { s with
        task_info := Function.update s.task_info TID task_info_this
        task_table := Function.update s.task_table TID (create_context TID task_func) })

def task_run (s : Tasks) (TID : UInt8) : UInt8 × Tasks :=
  if (s.task_info TID).status ≠ .DEAD then
    (0, s)
  else
    (TID,
      { s with
        task_info := Function.update s.task_info TID
          { s.task_info TID with TRID := TID.toUInt32, status := .READY } })

/-- The `i`-th slot the scheduler looks at, from a current TRID. -/
def probe (current_TRID : UInt8) (i : Nat) : UInt8 :=
  UInt8.ofNat ((current_TRID.toNat + i + 1) % 256)

def task_schedule (s : Tasks) : Tasks :=
  let current_TRID := (s.task_info s.task_global.tid).TRID.toUInt8
  let found := (List.range 17).findSome? fun i =>
    let _temp := (s.task_info (probe current_TRID i)).TRID
    if 17 ≠ _temp then some _temp.toUInt8 else none
  let current_TID := found.getD current_TRID
  { s with
    task_global := { s.task_global with
      tid := current_TID
      kstack := task_table_entry current_TID } }

/-- `task_delete` leaves `cpsr` as it was. -/
def delete_context (ctx : context) : context :=
  { r0 := 0, r1 := 0, r2 := 0, r3 := 0, r4 := 0, r5 := 0, r6 := 0, r7 := 0, r8 := 0, r9 := 0,
    r10 := 0, r11 := 0, r12 := 0, sp := 0, lr := 0, pc := 0, cpsr := ctx.cpsr, spsr := 0 }

def task_delete (s : Tasks) : Tasks :=
  let TID := s.task_global.tid
  { s with
    task_info := Function.update s.task_info TID
      { rank := 0, status := .STATUS_NULL, task_func := 0, TRID := 0 }
    task_table := Function.update s.task_table TID (delete_context (s.task_table TID)) }

def task_lock_schedule (s : Tasks) : Tasks :=
  { s with task_global := { s.task_global with schedule_lock := true } }

def task_unlock_schedule (s : Tasks) : Tasks :=
  { s with task_global := { s.task_global with schedule_lock := false } }

/-- `s` is whatever the memory holds at boot, `TRID` the uninitialised local of
the inner `task_create`. -/
def task_init (s : Tasks) (TRID : UInt32) : Tasks :=
  let s := { s with
    task_info := fun _ => { rank := 0, status := .STATUS_NULL, task_func := 0, TRID := 256 } }
  let (TID, s) := task_create s MAX_rank task_idle_addr TRID
  let (_, s) := task_run s TID
  { s with task_global := { kstack := task_table_entry TID, tid := TID, schedule_lock := false } }

end epos.task
