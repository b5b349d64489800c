import Epos.Task.Dispatch

open runs

namespace epos.task

/-- The kernel after its setup, with the slots whose context a tick has restored. -/
structure Ticking where
  tasks : Tasks
  restored : Finset UInt8

/-- A pass of `__vector_irq`: the interrupted context goes to the running task's
slot, and what `task_schedule` selects is restored. -/
def Ticking.next (t : Ticking) (saved : context) : Ticking :=
  let tasks := task_schedule (save_context t.tasks saved)
  { tasks, restored := insert tasks.task_global.tid t.restored }

/-- `kstack` leads the handler to the context that `task_create` wrote for the
running task. -/
def AtEntry (s : Tasks) : Prop :=
  s.task_global.kstack = task_table_entry s.task_global.tid ∧
    s.task_table s.task_global.tid =
      create_context s.task_global.tid (s.task_info s.task_global.tid).task_func

/-- If the tick restores a task that was created and run, and does so for the
first time, the task starts at its entry. -/
def FirstAtEntry (t : Ticking) (saved : context) : Prop :=
  ((t.next saved).tasks.task_info (t.next saved).tasks.task_global.tid).status = .READY →
    (t.next saved).tasks.task_global.tid ∉ t.restored → AtEntry (t.next saved).tasks

/-- What the boot code does with the tables before the first tick. -/
def Setup : Op → Prop
  | .create .. | .run .. => True
  | .delete | .tick .. => False

/-- Before the first tick every slot in use has the context of its creation. -/
structure SetupInvariant (s : Tasks) : Prop where
  running : s.task_global.tid = 0
  created : ∀ i, (s.task_info i).status ≠ .STATUS_NULL →
    s.task_table i = create_context i (s.task_info i).task_func

theorem setupInvariant_boot (s : Tasks) (TRID : UInt32) : SetupInvariant (System.boot s TRID).tasks := by
  simp only [System.boot, task_init_eq]
  refine ⟨rfl, fun i hi => ?_⟩
  by_cases hslot : i = 0
  · subst hslot
    simp only [Function.update_self]
  · simp [Function.update_of_ne hslot] at hi

theorem setupInvariant_step (sys : System) (op : Op) (hinv : SetupInvariant sys.tasks) (hop : Setup op) :
    SetupInvariant (sys.step op).tasks := by
  cases op with
  | create rank task_func TRID =>
    by_cases hrank : rank > MAX_rank + 1
    · simp only [System.step, task_create_rejected hrank]
      exact hinv
    · simp only [System.step, task_create_accepted hrank]
      refine ⟨hinv.running, fun i hi => ?_⟩
      by_cases hslot : i = task_get_id sys.tasks
      · subst hslot
        simp only [Function.update_self]
      · simp only [Function.update_of_ne hslot] at hi ⊢
        exact hinv.created i hi
  | run TID =>
    by_cases hdead : (sys.tasks.task_info TID).status = .DEAD
    · simp only [System.step, task_run_started hdead]
      refine ⟨hinv.running, fun i hi => ?_⟩
      by_cases hslot : i = TID
      · subst hslot
        simp only [Function.update_self]
        apply hinv.created
        rw [hdead]
        decide
      · simp only [Function.update_of_ne hslot] at hi ⊢
        exact hinv.created i hi
    · simp only [System.step, task_run_ignored hdead]
      exact hinv
  | delete => exact hop.elim
  | tick saved => exact hop.elim

theorem setupInvariant_exec (s : Tasks) (TRID : UInt32) {setup : List Op} (hsetup : ∀ op ∈ setup, Setup op) :
    SetupInvariant (exec System.step (.boot s TRID) setup).tasks :=
  exec_invariant (fun sys : System => SetupInvariant sys.tasks)
    (fun sys op hinv hop => setupInvariant_step sys op hinv hop) (setupInvariant_boot s TRID)
    (AllSteps.of_forall_mem hsetup)

/-- `READY` slots other than 0 that were not restored yet have the context of
their creation also when `saved` has been stored, and slot 0 has `first`. -/
structure Unstarted (t : Ticking) (saved first : context) : Prop where
  created : ∀ i, i ∉ t.restored → i ≠ 0 → (t.tasks.task_info i).status = .READY →
    (save_context t.tasks saved).task_table i = create_context i (t.tasks.task_info i).task_func
  slot0 : 0 ∉ t.restored → (save_context t.tasks saved).task_table 0 = first

section Ticks

variable {t : Ticking} {saved first : context}

theorem Ticking.next_tid_iff (TID : UInt8) :
    (t.next saved).tasks.task_global.tid = TID ↔ InLine t.tasks TID :=
  task_schedule_tid_iff (save_context t.tasks saved) TID

/-- Slot 0 alone can be restored with a context other than that of its creation. -/
theorem firstAtEntry_iff (hunstarted : Unstarted t saved first) :
    FirstAtEntry t saved ↔ ((t.tasks.task_info 0).status = .READY → InLine t.tasks 0 → 0 ∉ t.restored →
      first = create_context 0 (t.tasks.task_info 0).task_func) := by
  constructor
  · intro hfirst hready hline hnew
    have htid : (t.next saved).tasks.task_global.tid = 0 := (t.next_tid_iff 0).mpr hline
    have hentry := (hfirst (by rw [htid]; exact hready) (by rw [htid]; exact hnew)).2
    rw [htid] at hentry
    rw [← hunstarted.slot0 hnew]
    exact hentry
  · intro hzero hready hnew
    refine ⟨rfl, ?_⟩
    by_cases htid : (t.next saved).tasks.task_global.tid = 0
    · rw [htid] at hready hnew ⊢
      exact (hunstarted.slot0 hnew).trans (hzero hready ((t.next_tid_iff 0).mp htid) hnew)
    · exact hunstarted.created _ hnew htid hready

/-- What holds from the first tick on, which has stored `first` in slot 0. -/
structure TickInvariant (t : Ticking) (first : context) : Prop where
  running : t.tasks.task_global.tid ∈ t.restored
  created : ∀ i, i ∉ t.restored → i ≠ 0 → (t.tasks.task_info i).status = .READY →
    t.tasks.task_table i = create_context i (t.tasks.task_info i).task_func
  slot0 : 0 ∉ t.restored → t.tasks.task_table 0 = first

/-- A tick stores to a slot that was restored before. -/
theorem TickInvariant.unstarted (hinv : TickInvariant t first) (saved : context) :
    Unstarted t saved first := by
  have hkept : ∀ i, i ∉ t.restored → (save_context t.tasks saved).task_table i = t.tasks.task_table i := by
    intro i hi
    apply Function.update_of_ne
    rintro rfl
    exact hi hinv.running
  refine ⟨fun i hi hne hready => ?_, fun hnew => ?_⟩
  · rw [hkept i hi]
    exact hinv.created i hi hne hready
  · rw [hkept 0 hnew]
    exact hinv.slot0 hnew

theorem Unstarted.next (hunstarted : Unstarted t saved first) : TickInvariant (t.next saved) first := by
  have hold : ∀ i, i ∉ (t.next saved).restored → i ∉ t.restored :=
    fun i hi hmem => hi (Finset.mem_insert_of_mem hmem)
  refine ⟨Finset.mem_insert_self .., fun i hi hne hready => ?_, fun hnew => ?_⟩
  · exact hunstarted.created i (hold i hi) hne hready
  · exact hunstarted.slot0 (hold 0 hnew)

theorem mem_restored_next : 0 ∈ (t.next saved).restored ↔ InLine t.tasks 0 ∨ 0 ∈ t.restored := by
  have htid : (t.next saved).tasks.task_global.tid = 0 ↔ InLine t.tasks 0 := t.next_tid_iff 0
  rw [← htid, eq_comm]
  exact Finset.mem_insert

/-- From the first tick on all goes well unless slot 0 is restored. -/
theorem TickInvariant.allSteps_iff (hinv : TickInvariant t first) (ticks : List context) :
    AllSteps Ticking.next FirstAtEntry t ticks ↔
      ((t.tasks.task_info 0).status = .READY → 0 ∈ t.restored ∨
        first = create_context 0 (t.tasks.task_info 0).task_func ∨
        AllSteps Ticking.next (fun t _ => ¬ InLine t.tasks 0) t ticks) := by
  induction ticks generalizing t with
  | nil => exact ⟨fun _ _ => .inr (.inr trivial), fun _ => trivial⟩
  | cons saved ticks ih =>
    have hunstarted := hinv.unstarted saved
    rw [AllSteps, AllSteps, firstAtEntry_iff hunstarted, ih hunstarted.next, mem_restored_next]
    have hsame : (t.next saved).tasks.task_info = t.tasks.task_info := rfl
    rw [hsame]
    constructor
    · rintro ⟨hfirst, hrest⟩ hready
      by_cases hold : 0 ∈ t.restored
      · exact .inl hold
      by_cases hline : InLine t.tasks 0
      · exact .inr (.inl (hfirst hready hline hold))
      obtain (hnow | hold') | hcreated | hlater := hrest hready
      · exact absurd hnow hline
      · exact absurd hold' hold
      · exact .inr (.inl hcreated)
      · exact .inr (.inr ⟨hline, hlater⟩)
    · intro hall
      refine ⟨fun hready hline hold => ?_, fun hready => ?_⟩
      · obtain hold' | hcreated | hnever := hall hready
        · exact absurd hold' hold
        · exact hcreated
        · exact absurd hline hnever.1
      · obtain hold | hcreated | hnever := hall hready
        · exact .inl (.inr hold)
        · exact .inr (.inl hcreated)
        · exact .inr (.inr hnever.2)

end Ticks

/-- The tables when the first tick comes, on memory `s` at reset. -/
def booted (s : Tasks) (TRID : UInt32) (setup : List Op) : Tasks :=
  (exec System.step (.boot s TRID) setup).tasks

/-- Every task that was created and run starts at its entry exactly if the boot
code's own context, which the first tick stores in slot 0, is that of the idle
task's creation, or no tick comes when slot 0 is next in line. -/
theorem starts_at_entry_iff (s : Tasks) (TRID : UInt32) {setup : List Op} (hsetup : ∀ op ∈ setup, Setup op)
    (ticks : List context) :
    AllSteps Ticking.next FirstAtEntry ⟨booted s TRID setup, ∅⟩ ticks ↔
      (((booted s TRID setup).task_info 0).status = .READY →
        ticks.head? = some (create_context 0 ((booted s TRID setup).task_info 0).task_func) ∨
        AllSteps Ticking.next (fun t _ => ¬ InLine t.tasks 0) ⟨booted s TRID setup, ∅⟩ ticks) := by
  have hbooted : SetupInvariant (booted s TRID setup) := setupInvariant_exec s TRID hsetup
  cases ticks with
  | nil => exact ⟨fun _ _ => .inr trivial, fun _ => trivial⟩
  | cons first ticks =>
    have hunstarted : Unstarted ⟨booted s TRID setup, ∅⟩ first first := by
      have htable : (save_context (booted s TRID setup) first).task_table =
          Function.update (booted s TRID setup).task_table 0 first := by
        rw [save_context, hbooted.running]
      refine ⟨fun i _ hne hready => ?_, fun _ => ?_⟩
      · rw [htable, Function.update_of_ne hne]
        apply hbooted.created
        rw [hready]
        decide
      · rw [htable, Function.update_self]
    have hrest := hunstarted.next.allSteps_iff ticks
    have hinfo : (Ticking.next ⟨booted s TRID setup, ∅⟩ first).tasks.task_info =
        (booted s TRID setup).task_info := rfl
    rw [mem_restored_next, hinfo] at hrest
    rw [AllSteps, AllSteps, firstAtEntry_iff hunstarted, hrest, List.head?_cons, Option.some.injEq]
    constructor
    · rintro ⟨hfirst, hlater⟩ hready
      by_cases hline : InLine (booted s TRID setup) 0
      · exact .inl (hfirst hready hline (Finset.notMem_empty 0))
      obtain (hnow | hold) | hcreated | hnever := hlater hready
      · exact absurd hnow hline
      · exact absurd hold (Finset.notMem_empty 0)
      · exact .inl hcreated
      · exact .inr ⟨hline, hnever⟩
    · intro hall
      refine ⟨fun hready hline _ => ?_, fun hready => ?_⟩
      · obtain hcreated | hnever := hall hready
        · exact hcreated
        · exact absurd hline hnever.1
      · obtain hcreated | hnever := hall hready
        · exact .inr (.inl hcreated)
        · exact .inr (.inr hnever.2)

/-- `cstart` creates and runs three tasks. -/
def cstart_setup : List Op :=
  [.create 3 0xc0008840 0, .run 1, .create 3 0xc0008858 0, .run 2, .create 3 0xc0008870 0, .run 3]

theorem cstart_setup_spec : ∀ op ∈ cstart_setup, Setup op := by
  intro op hop
  simp only [cstart_setup, List.mem_cons, List.not_mem_nil, or_false] at hop
  obtain rfl | rfl | rfl | rfl | rfl | rfl := hop <;> exact trivial

/-- The boot code when the timer interrupts its last loop. -/
def cstart_context : context :=
  { create_context 0 0xc0008bdc with sp := 0xc0003fd8, lr := 0xc0008bd4, r11 := 0xc0003ff8 }

/-- Three ticks start the three tasks at their entries. -/
theorem starts_at_entry_cstart :
    AllSteps Ticking.next FirstAtEntry ⟨booted bss 0 cstart_setup, ∅⟩
        [cstart_context, create_context 1 0xc0008840, create_context 2 0xc0008858] ↔
      (((booted bss 0 cstart_setup).task_info 0).status = .READY →
        some cstart_context = some (create_context 0 ((booted bss 0 cstart_setup).task_info 0).task_func) ∨
        AllSteps Ticking.next (fun t _ => ¬ InLine t.tasks 0) ⟨booted bss 0 cstart_setup, ∅⟩
          [cstart_context, create_context 1 0xc0008840, create_context 2 0xc0008858]) :=
  starts_at_entry_iff bss 0 cstart_setup_spec _

/-- The fourth tick restores the boot code in the idle task's place. -/
theorem idle_not_at_entry : (∀ op ∈ cstart_setup, Setup op) ∧
    ¬ AllSteps Ticking.next FirstAtEntry ⟨booted bss 0 cstart_setup, ∅⟩
      [cstart_context, create_context 1 0xc0008840, create_context 2 0xc0008858, create_context 3 0xc0008870] := by
  refine ⟨cstart_setup_spec, fun hall => ?_⟩
  have hfourth := hall.2.2.2.1
  have hready := (hfourth (by decide +kernel) (by decide +kernel)).2
  exact absurd hready (by decide +kernel)

end epos.task
