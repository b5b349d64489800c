import Epos.Task.Defs
import Epos.Lib.Run
import Mathlib.Data.Finset.Basic

open runs

namespace epos.task

/-- What the kernel and its tasks do with the task tables. A tick is a whole
pass of `__vector_irq`: `saved` is the context it stores for the interrupted
task before it calls `task_schedule`. -/
inductive Op where
  | create (rank : UInt8) (task_func TRID : UInt32)
  | run (TID : UInt8)
  | delete
  | tick (saved : context)

/-- The tables together with the slots of the tasks that were created and not
yet deleted. The source keeps no such record. -/
structure System where
  tasks : Tasks
  live : Finset UInt8

def System.boot (s : Tasks) (TRID : UInt32) : System :=
  { tasks := task_init s TRID, live := {0} }

def save_context (s : Tasks) (saved : context) : Tasks :=
  { s with task_table := Function.update s.task_table s.task_global.tid saved }

/-- A `task_create` that fails returns 0, where the idle task lives already. -/
def System.step (sys : System) : Op → System
  | .create rank task_func TRID =>
    let (TID, tasks) := task_create sys.tasks rank task_func TRID
    { tasks, live := insert TID sys.live }
  | .run TID => { sys with tasks := (task_run sys.tasks TID).2 }
  | .delete =>
    { tasks := task_delete sys.tasks, live := sys.live.erase sys.tasks.task_global.tid }
  | .tick saved => { sys with tasks := task_schedule (save_context sys.tasks saved) }

/-- Only a running task other than the idle task deletes itself. Running a slot
that holds no `DEAD` task changes nothing, so `run` takes any TID. -/
def System.Enabled (sys : System) : Op → Prop
  | .delete => sys.tasks.task_global.tid ≠ 0 ∧ sys.tasks.task_global.tid ∈ sys.live
  | _ => True

/-- The states a run reaches from `task_init`, on any memory `s` and for any
content `TRID` of the uninitialised local. -/
def System.Reached (sys : System) : Prop :=
  ∃ s TRID, Reachable System.step System.Enabled (.boot s TRID) sys

/-- `task_get_id` returns a free slot, or 0 when there is none. -/
theorem task_get_id_spec (s : Tasks) :
    Free (s.task_info (task_get_id s)) ∨ task_get_id s = 0 ∧ ∀ i, ¬ Free (s.task_info i) := by
  unfold task_get_id
  split
  · next id hfind =>
    have hfree := (List.find?_range_eq_some.mp hfind).1
    exact Or.inl (by simpa using hfree)
  · next hfind =>
    refine Or.inr ⟨rfl, fun i => ?_⟩
    have hnone := List.find?_range_eq_none.mp hfind i.toNat i.toNat_lt
    simpa using hnone

theorem task_create_rejected {s : Tasks} {rank : UInt8} (hrank : rank > MAX_rank + 1)
    (task_func TRID : UInt32) : task_create s rank task_func TRID = (0, s) := by
  simp only [task_create, if_pos hrank]

theorem task_create_accepted {s : Tasks} {rank : UInt8} (hrank : ¬ rank > MAX_rank + 1)
    (task_func TRID : UInt32) :
    task_create s rank task_func TRID = (task_get_id s,
      { s with
        task_info := Function.update s.task_info (task_get_id s) ⟨rank, .DEAD, task_func, TRID⟩
        task_table := Function.update s.task_table (task_get_id s)
          (create_context (task_get_id s) task_func) }) := by
  simp only [task_create, if_neg hrank]

theorem task_run_ignored {s : Tasks} {TID : UInt8} (hdead : (s.task_info TID).status ≠ .DEAD) :
    task_run s TID = (0, s) := by
  simp only [task_run, if_pos hdead]

theorem task_run_started {s : Tasks} {TID : UInt8} (hdead : (s.task_info TID).status = .DEAD) :
    task_run s TID = (TID,
      { s with
        task_info := Function.update s.task_info TID
          { s.task_info TID with TRID := TID.toUInt32, status := .READY } }) := by
  simp only [task_run, hdead, ne_eq, not_true_eq_false, if_false]

@[simp] theorem task_schedule_task_info (s : Tasks) :
    (task_schedule s).task_info = s.task_info := rfl

/-- What one operation does to the slots, whatever it does to the contexts:
nothing, fill the slot `task_get_id` found, start a `DEAD` task, or empty the
running task's slot. -/
theorem step_task_info (sys : System) (op : Op) :
    (sys.step op).tasks.task_info = sys.tasks.task_info ∨
    (∃ rank task_func TRID, op = .create rank task_func TRID ∧ ¬ rank > MAX_rank + 1 ∧
      (sys.step op).tasks.task_info = Function.update sys.tasks.task_info
        (task_get_id sys.tasks) ⟨rank, .DEAD, task_func, TRID⟩) ∨
    (∃ TID, op = .run TID ∧ (sys.tasks.task_info TID).status = .DEAD ∧
      (sys.step op).tasks.task_info = Function.update sys.tasks.task_info TID
        { sys.tasks.task_info TID with TRID := TID.toUInt32, status := .READY }) ∨
    (op = .delete ∧ (sys.step op).tasks.task_info = Function.update sys.tasks.task_info
      sys.tasks.task_global.tid ⟨0, .STATUS_NULL, 0, 0⟩) := by
  cases op with
  | create rank task_func TRID =>
    by_cases hrank : rank > MAX_rank + 1
    · left
      simp only [System.step, task_create_rejected hrank]
    · right; left
      refine ⟨rank, task_func, TRID, rfl, hrank, ?_⟩
      simp only [System.step, task_create_accepted hrank]
  | run TID =>
    by_cases hdead : (sys.tasks.task_info TID).status = .DEAD
    · right; right; left
      refine ⟨TID, rfl, hdead, ?_⟩
      simp only [System.step, task_run_started hdead]
    · left
      simp only [System.step, task_run_ignored hdead]
  | delete =>
    right; right; right
    exact ⟨rfl, rfl⟩
  | tick saved =>
    left
    rfl

/-- The shape every reachable table has: a `READY` slot carries its own index
as TRID, an empty one a TRID that truncates to 0, and slot 0 is never empty. -/
structure SlotInvariant (s : Tasks) : Prop where
  ready_trid : ∀ i, (s.task_info i).status = .READY → (s.task_info i).TRID = i.toUInt32
  null_trid : ∀ i, (s.task_info i).status = .STATUS_NULL →
    (s.task_info i).TRID = 0 ∨ (s.task_info i).TRID = 256
  null_fields : ∀ i, (s.task_info i).status = .STATUS_NULL →
    (s.task_info i).rank = 0 ∧ (s.task_info i).task_func = 0
  status_cases : ∀ i, (s.task_info i).status = .STATUS_NULL ∨
    (s.task_info i).status = .READY ∨ (s.task_info i).status = .DEAD
  idle : (s.task_info 0).status ≠ .STATUS_NULL

/-- Overwriting one slot keeps the invariant when the new record is in order by
itself. -/
theorem SlotInvariant.update {s t : Tasks} (hinv : SlotInvariant s) {slot : UInt8}
    {info : TASK_INFO} (ht : t.task_info = Function.update s.task_info slot info)
    (hready : info.status = .READY → info.TRID = slot.toUInt32)
    (hnull : info.status = .STATUS_NULL → info = ⟨0, .STATUS_NULL, 0, 0⟩ ∧ slot ≠ 0)
    (hcases : info.status = .STATUS_NULL ∨ info.status = .READY ∨ info.status = .DEAD) :
    SlotInvariant t := by
  constructor
  · intro i
    rw [ht]
    by_cases hi : i = slot
    · subst hi
      simpa using hready
    · simpa [hi] using hinv.ready_trid i
  · intro i
    rw [ht]
    by_cases hi : i = slot
    · subst hi
      intro h
      rw [Function.update_self] at h ⊢
      exact Or.inl (by rw [(hnull h).1])
    · simpa [hi] using hinv.null_trid i
  · intro i
    rw [ht]
    by_cases hi : i = slot
    · subst hi
      intro h
      rw [Function.update_self] at h ⊢
      rw [(hnull h).1]
      exact ⟨rfl, rfl⟩
    · simpa [hi] using hinv.null_fields i
  · intro i
    rw [ht]
    by_cases hi : i = slot
    · subst hi
      simpa using hcases
    · simpa [hi] using hinv.status_cases i
  · rw [ht]
    by_cases hi : (0 : UInt8) = slot
    · subst hi
      rw [Function.update_self]
      intro h
      exact (hnull h).2 rfl
    · simpa [hi] using hinv.idle

theorem slotInvariant_step (sys : System) (op : Op) (hinv : SlotInvariant sys.tasks)
    (henabled : sys.Enabled op) : SlotInvariant (sys.step op).tasks := by
  obtain hsame | ⟨rank, task_func, TRID, rfl, -, hinfo⟩ | ⟨TID, rfl, -, hinfo⟩ | ⟨rfl, hinfo⟩ :=
    step_task_info sys op
  · exact ⟨hsame ▸ hinv.ready_trid, hsame ▸ hinv.null_trid, hsame ▸ hinv.null_fields,
      hsame ▸ hinv.status_cases, hsame ▸ hinv.idle⟩
  · exact hinv.update hinfo (by simp) (by simp) (by simp)
  · exact hinv.update hinfo (by simp) (by simp) (by simp)
  · exact hinv.update hinfo (by simp) (fun _ => ⟨rfl, henabled.1⟩) (by simp)

theorem task_get_id_empty {s : Tasks} (hempty : s.task_info = fun _ => ⟨0, .STATUS_NULL, 0, 256⟩) :
    task_get_id s = 0 := by
  have hfind : (List.range 256).find? (fun id => Free (s.task_info (UInt8.ofNat id))) = some 0 := by
    rw [List.find?_range_eq_some]
    refine ⟨?_, by simp, by simp⟩
    simp [hempty, Free]
  simp only [task_get_id, hfind]
  rfl

/-- `task_init` creates the idle task in slot 0. -/
theorem task_init_eq (s : Tasks) (TRID : UInt32) : task_init s TRID =
    { task_info := Function.update (fun _ => ⟨0, .STATUS_NULL, 0, 256⟩) 0
        ⟨MAX_rank, .READY, task_idle_addr, 0⟩
      task_table := Function.update s.task_table 0 (create_context 0 task_idle_addr)
      task_global := { kstack := task_table_entry 0, tid := 0, schedule_lock := false } } := by
  simp [task_init, task_create, task_run, task_get_id_empty, MAX_rank]

/-- It leaves the other slots free. -/
theorem task_init_task_info (s : Tasks) (TRID : UInt32) :
    (task_init s TRID).task_info =
      Function.update (fun _ => ⟨0, .STATUS_NULL, 0, 256⟩) 0
        ⟨MAX_rank, .READY, task_idle_addr, 0⟩ := by
  rw [task_init_eq]

theorem slotInvariant_boot (s : Tasks) (TRID : UInt32) :
    SlotInvariant (System.boot s TRID).tasks := by
  constructor <;> simp only [System.boot, task_init_task_info]
  · intro i
    by_cases hi : i = 0 <;> simp [hi]
  · intro i
    by_cases hi : i = 0 <;> simp [hi]
  · intro i
    by_cases hi : i = 0 <;> simp [hi]
  · intro i
    by_cases hi : i = 0 <;> simp [hi]
  · simp

/-- The slots that hold a task created and not yet deleted are the ones with a
status. -/
structure SystemInvariant (sys : System) : Prop where
  slots : SlotInvariant sys.tasks
  live_iff : ∀ i, i ∈ sys.live ↔ (sys.tasks.task_info i).status ≠ .STATUS_NULL

theorem systemInvariant_boot (s : Tasks) (TRID : UInt32) :
    SystemInvariant (System.boot s TRID) := by
  refine ⟨slotInvariant_boot s TRID, fun i => ?_⟩
  simp only [System.boot, task_init_task_info]
  by_cases hi : i = 0 <;> simp [hi]

theorem systemInvariant_step (sys : System) (op : Op) (hinv : SystemInvariant sys)
    (henabled : sys.Enabled op) : SystemInvariant (sys.step op) := by
  refine ⟨slotInvariant_step sys op hinv.slots henabled, fun i => ?_⟩
  have hlive := hinv.live_iff
  cases op with
  | create rank task_func TRID =>
    by_cases hrank : rank > MAX_rank + 1
    · have hzero : 0 ∈ sys.live := (hlive 0).mpr hinv.slots.idle
      simpa only [System.step, task_create_rejected hrank, Finset.insert_eq_of_mem hzero]
        using hlive i
    · simp only [System.step, task_create_accepted hrank, Finset.mem_insert]
      by_cases hi : i = task_get_id sys.tasks
      · simp [hi]
      · simpa [hi] using hlive i
  | run TID =>
    by_cases hdead : (sys.tasks.task_info TID).status = .DEAD
    · simp only [System.step, task_run_started hdead]
      by_cases hi : i = TID
      · subst hi
        simpa [hdead] using hlive i
      · simpa [hi] using hlive i
    · simpa only [System.step, task_run_ignored hdead] using hlive i
  | delete =>
    simp only [System.step, task_delete, Finset.mem_erase]
    by_cases hi : i = sys.tasks.task_global.tid
    · simp [hi]
    · simpa [hi] using hlive i
  | tick saved => exact hlive i

theorem System.Reached.invariant {sys : System} (h : sys.Reached) : SystemInvariant sys := by
  obtain ⟨s, TRID, hreach⟩ := h
  exact hreach.invariant SystemInvariant systemInvariant_step (systemInvariant_boot s TRID)

end epos.task
