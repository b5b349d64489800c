import Epos.Thread.Lists
import Mathlib.Data.List.Find

open chains
open epos.page (NULL loop_fuel)

namespace epos.thread

/-- `schedule`, with the last value of its local `select`. -/
def schedule_select (s : Threads) : Option (UInt32 × Threads) :=
  (circle NULL s.next s.g_task_head s.schedule_stop loop_fuel s.g_task_running).map fun select =>
    if select = s.g_task_running then
      if (s.tcbs select).state = TASK_STATE_READY then (select, s)
      else (s.task0, { s with g_resched := 0 })
    else (select, { s with g_resched := 0 })

/-- A thread that may run next. -/
def Threads.eligible (s : Threads) (p : UInt32) : Bool :=
  (s.tcbs p).tid ≠ 0 ∧ (s.tcbs p).state = TASK_STATE_READY

theorem schedule_eq (s : Threads) : schedule s = (schedule_select s).map Prod.snd := by
  rw [schedule, schedule_select, Option.map_map]
  congr 1
  funext select
  simp only [Function.comp_apply]
  by_cases hrun : select = s.g_task_running
  · by_cases hready : (s.tcbs select).state = TASK_STATE_READY
    · rw [if_pos ⟨hrun, hready⟩, if_pos hrun, if_pos hready]
    · rw [if_neg fun h => hready h.2, if_pos hrun, if_neg hready]
  · rw [if_neg fun h => hrun h.1, if_neg hrun]

/-- On the threads other than the running one, the loop stops at those that may run. -/
theorem find_schedule_stop {s : Threads} {nodes : List UInt32} (hnodes : s.g_task_running ∉ nodes) :
    nodes.find? s.schedule_stop = nodes.find? s.eligible := by
  apply List.find?_congr
  intro p hp
  have hne : p ≠ s.g_task_running := ne_of_mem_of_not_mem hp hnodes
  simp [Threads.schedule_stop, Threads.eligible, hne]

/-- `schedule` selects the next thread of the round that may run; if there is none, the
running thread if it is ready, and otherwise `task0`. -/
theorem schedule_round_robin (s : Threads) {before after : List UInt32}
    (hlist : Chain NULL s.next s.g_task_head (before ++ s.g_task_running :: after)) :
    schedule_select s = some (match (after ++ before).find? s.eligible with
      | some p => (p, { s with g_resched := 0 })
      | none =>
        if (s.tcbs s.g_task_running).state = TASK_STATE_READY then (s.g_task_running, s)
        else (s.task0, { s with g_resched := 0 })) := by
  have hlinked : s.Linked (before ++ s.g_task_running :: after) := ⟨hlist, hlist.nodup⟩
  have hlength := hlinked.length_lt
  rw [List.length_append, List.length_cons] at hlength
  have hstop : s.schedule_stop s.g_task_running = true := by simp [Threads.schedule_stop]
  have hround : s.g_task_running ∉ after ++ before := by
    have hperm := List.nodup_middle.mp hlist.nodup
    rw [List.nodup_cons, List.mem_append, or_comm, ← List.mem_append] at hperm
    exact hperm.1
  have hcircle : circle NULL s.next s.g_task_head s.schedule_stop loop_fuel s.g_task_running =
      (after ++ (before ++ [s.g_task_running])).find? s.schedule_stop := hlist.circle_find hstop (by omega)
  rw [← List.append_assoc, List.find?_append, find_schedule_stop hround, List.find?_cons_of_pos hstop] at hcircle
  rw [schedule_select, hcircle]
  cases hfind : (after ++ before).find? s.eligible with
  | some p =>
    have hne : p ≠ s.g_task_running := ne_of_mem_of_not_mem (List.mem_of_find?_eq_some hfind) hround
    rw [Option.some_or, Option.map_some, if_neg hne]
  | none =>
    rw [Option.none_or, Option.map_some, if_pos rfl]

/-- `task0`, a thread that is ready, and the running one, which has begun to wait. -/
def three_threads : Threads :=
  { tcbs := fun p =>
      if p = 0xc1000000 then ⟨0, 0, TASK_STATE_READY, 4, 0, NULL, 0xc1001000, TASK_SIGNATURE⟩
      else if p = 0xc1001000 then ⟨0, 1, TASK_STATE_READY, 4, 0, NULL, 0xc1002000, TASK_SIGNATURE⟩
      else ⟨0, 2, TASK_STATE_WAITING, 4, 0, NULL, NULL, TASK_SIGNATURE⟩
    waits := fun _ => ⟨NULL, NULL⟩, g_resched := 1, g_task_head := 0xc1000000
    g_task_running := 0xc1002000, task0 := 0xc1000000, g_task_own_fpu := NULL, tid := 3
    heap := [0xc1002000, 0xc1001000, 0xc1000000] }

theorem three_threads_list :
    Chain NULL three_threads.next three_threads.g_task_head [0xc1000000, 0xc1001000, 0xc1002000] := by
  simp only [Chain]
  decide

/-- The running thread, the last of the list, waits: the first ready one is past `task0`. -/
theorem three_threads_round_robin :
    schedule_select three_threads = some (0xc1001000, { three_threads with g_resched := 0 }) :=
  @schedule_round_robin three_threads [0xc1000000, 0xc1001000] [] three_threads_list

end epos.thread
