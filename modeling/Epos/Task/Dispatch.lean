import Epos.Task.Create

open runs

namespace epos.task

/-- The TRID of the running task, as the scheduler truncates it. -/
def current_TRID (s : Tasks) : UInt8 := (s.task_info s.task_global.tid).TRID.toUInt8

/-- The slot whose TRID the scheduler takes, when no slot but 17 holds the
sentinel value 17: the one after the running task's, or the one after that. -/
def next_in_line (s : Tasks) : UInt8 :=
  if current_TRID s + 1 = 17 ∧ (s.task_info 17).status = .READY then 18 else current_TRID s + 1

theorem probe_eq (current_TRID : UInt8) (i : Nat) :
    probe current_TRID i = current_TRID + UInt8.ofNat (i + 1) := by
  rw [← UInt8.toNat_inj]
  simp only [probe, UInt8.toNat_add, UInt8.toNat_ofNat', Nat.mod_mod, Nat.add_mod_mod,
    Nat.add_assoc]

/-- The TRID in the `i`-th slot the scheduler looks at. -/
def probed_TRID (s : Tasks) (i : Nat) : UInt32 := (s.task_info (probe (current_TRID s) i)).TRID

/-- The 17 slots after the current TRID lead to `TID`: the first that does not
hold the sentinel 17 holds `TID`, or all hold 17 and `TID` is the current TRID. -/
def InLine (s : Tasks) (TID : UInt8) : Prop :=
  (∃ i < 17, probed_TRID s i ≠ 17 ∧ (probed_TRID s i).toUInt8 = TID ∧ ∀ j < i, probed_TRID s j = 17) ∨
    (∀ i < 17, probed_TRID s i = 17) ∧ current_TRID s = TID

theorem InLine.unique {s : Tasks} {TID other : UInt8} (h : InLine s TID) (hother : InLine s other) :
    TID = other := by
  obtain ⟨i, hi, hne, hTID, hbefore⟩ | ⟨hall, hTID⟩ := h
  · obtain ⟨j, hj, hne', hother, hbefore'⟩ | ⟨hall, -⟩ := hother
    · obtain hlt | rfl | hlt := Nat.lt_trichotomy i j
      · exact absurd (hbefore' i hlt) hne
      · exact hTID.symm.trans hother
      · exact absurd (hbefore j hlt) hne'
    · exact absurd (hall i hi) hne
  · obtain ⟨j, hj, hne', -, -⟩ | ⟨-, hother⟩ := hother
    · exact absurd (hall j hj) hne'
    · exact hTID.symm.trans hother

/-- What the scheduler takes from the `i`-th slot it looks at. -/
def taken (s : Tasks) (i : Nat) : Option UInt8 :=
  if 17 ≠ probed_TRID s i then some (probed_TRID s i).toUInt8 else none

theorem taken_none {s : Tasks} {i : Nat} (h : taken s i = none) : probed_TRID s i = 17 := by
  by_contra hne
  rw [taken, if_pos (Ne.symm hne)] at h
  cases h

theorem taken_some {s : Tasks} {i : Nat} {TID : UInt8} (h : taken s i = some TID) :
    probed_TRID s i ≠ 17 ∧ (probed_TRID s i).toUInt8 = TID := by
  unfold taken at h
  split at h
  · next hne => exact ⟨Ne.symm hne, Option.some.inj h⟩
  · cases h

theorem inLine_task_schedule (s : Tasks) : InLine s (task_schedule s).task_global.tid := by
  have htid : (task_schedule s).task_global.tid =
      ((List.range 17).findSome? (taken s)).getD (current_TRID s) := rfl
  rw [htid]
  cases hfound : (List.range 17).findSome? (taken s) with
  | none =>
    refine .inr ⟨fun i hi => ?_, rfl⟩
    exact taken_none (List.findSome?_eq_none_iff.mp hfound i (List.mem_range.mpr hi))
  | some TID =>
    obtain ⟨before, i, after, hrange, htaken, hbefore⟩ := List.findSome?_eq_some_iff.mp hfound
    rw [List.range_eq_range', List.range'_eq_append_iff] at hrange
    obtain ⟨k, hk, rfl, hrest⟩ := hrange
    obtain ⟨rfl, hlt, -⟩ := List.range'_eq_cons_iff.mp hrest.symm
    obtain ⟨hne, hTID⟩ := taken_some htaken
    refine .inl ⟨0 + k * 1, by omega, hne, hTID, fun j hj => ?_⟩
    apply taken_none
    apply hbefore
    rw [List.mem_range'_1]
    omega

theorem task_schedule_tid_iff (s : Tasks) (TID : UInt8) :
    (task_schedule s).task_global.tid = TID ↔ InLine s TID :=
  ⟨fun h => h ▸ inLine_task_schedule s, fun h => (inLine_task_schedule s).unique h⟩

/-- The scheduler finds the slot next in line at its first or second probe. -/
theorem task_schedule_tid {s : Tasks} (hinv : SlotInvariant s)
    (hnext : (s.task_info (next_in_line s)).TRID ≠ 17) :
    (task_schedule s).task_global.tid = (s.task_info (next_in_line s)).TRID.toUInt8 := by
  have hrange : List.range 17 = 0 :: 1 :: (List.range 15).map (· + 2) := by decide
  have hcurrent : (s.task_info s.task_global.tid).TRID.toUInt8 = current_TRID s := rfl
  unfold next_in_line at hnext ⊢
  by_cases hskip : current_TRID s + 1 = 17 ∧ (s.task_info 17).status = .READY
  · have hsentinel : (s.task_info (current_TRID s + 1)).TRID = 17 := by
      rw [hskip.1, hinv.ready_trid 17 hskip.2]
      rfl
    have hsecond : current_TRID s + 2 = 18 := by
      have := congrArg (· + 1) hskip.1
      simpa [UInt8.add_assoc] using this
    rw [if_pos hskip] at hnext ⊢
    simp [task_schedule, hcurrent, hrange, probe_eq, hsentinel, hsecond, hnext.symm]
  · rw [if_neg hskip] at hnext ⊢
    simp [task_schedule, hcurrent, hrange, probe_eq, hnext.symm]

theorem next_in_line_ne_of_ready {s : Tasks}
    (hready : (s.task_info (next_in_line s)).status = .READY) : next_in_line s ≠ 17 := by
  unfold next_in_line at hready ⊢
  by_cases hskip : current_TRID s + 1 = 17 ∧ (s.task_info 17).status = .READY
  · rw [if_pos hskip]
    decide
  · rw [if_neg hskip] at hready ⊢
    exact fun h => hskip ⟨h, h ▸ hready⟩

theorem toUInt32_toUInt8 (i : UInt8) : i.toUInt32.toUInt8 = i := by simp

/-- A `READY` slot that is next in line is selected. -/
theorem task_schedule_tid_of_ready {s : Tasks} (hinv : SlotInvariant s)
    (hready : (s.task_info (next_in_line s)).status = .READY) :
    (task_schedule s).task_global.tid = next_in_line s := by
  have hTRID := hinv.ready_trid _ hready
  have hne : (s.task_info (next_in_line s)).TRID ≠ 17 := by
    rw [hTRID]
    intro h
    have := congrArg UInt32.toUInt8 h
    rw [toUInt32_toUInt8] at this
    exact next_in_line_ne_of_ready hready this
  rw [task_schedule_tid hinv hne, hTRID, toUInt32_toUInt8]

/-- A slot with a TRID that truncates to 0 sends the scheduler back to slot 0. -/
theorem task_schedule_tid_of_zero {s : Tasks} (hinv : SlotInvariant s)
    (hzero : (s.task_info (next_in_line s)).TRID.toUInt8 = 0) :
    (task_schedule s).task_global.tid = 0 := by
  have hne : (s.task_info (next_in_line s)).TRID ≠ 17 := by
    intro h
    rw [h] at hzero
    exact absurd hzero (by decide)
  rw [task_schedule_tid hinv hne, hzero]

theorem SlotInvariant.null_toUInt8 {s : Tasks} (hinv : SlotInvariant s) {i : UInt8}
    (hnull : (s.task_info i).status = .STATUS_NULL) : (s.task_info i).TRID.toUInt8 = 0 := by
  obtain h | h := hinv.null_trid i hnull <;> rw [h] <;> rfl

/-- The running task is `READY` and its context is where the interrupt handler
will look for it. -/
def Dispatched (s : Tasks) : Prop :=
  (s.task_info s.task_global.tid).status = .READY ∧
    s.task_global.kstack = task_table_entry s.task_global.tid

/-- The slot next in line holds no task that was created and not yet run, and
if it is empty, slot 0, which is taken in its place, is `READY`. -/
def Settled (s : Tasks) : Prop :=
  (s.task_info (next_in_line s)).status ≠ .DEAD ∧
    ((s.task_info (next_in_line s)).status = .STATUS_NULL → (s.task_info 0).status = .READY)

theorem dispatched_of_settled {s : Tasks} (hinv : SlotInvariant s) (hsettled : Settled s) :
    Dispatched (task_schedule s) := by
  refine ⟨?_, rfl⟩
  rw [task_schedule_task_info]
  obtain hnull | hready | hdead := hinv.status_cases (next_in_line s)
  · rw [task_schedule_tid_of_zero hinv (hinv.null_toUInt8 hnull)]
    exact hsettled.2 hnull
  · rw [task_schedule_tid_of_ready hinv hready]
    exact hready
  · exact absurd hdead hsettled.1

/-- When the slot next in line is empty the condition is necessary too. -/
theorem settled_of_dispatched {s : Tasks} (hinv : SlotInvariant s)
    (hrun : (s.task_info (next_in_line s)).status ≠ .DEAD) (h : Dispatched (task_schedule s)) :
    Settled s := by
  refine ⟨hrun, fun hnull => ?_⟩
  have hready := h.1
  rwa [task_schedule_task_info, task_schedule_tid_of_zero hinv (hinv.null_toUInt8 hnull)] at hready

/-- In every run from `task_init` whose ticks come in settled states, each tick
dispatches a `READY` task, whatever the uninitialised TRIDs hold. -/
theorem task_schedule_dispatches_ready (s : Tasks) (TRID : UInt32) (acts : List Op)
    (hacts : AllSteps System.step System.Enabled (.boot s TRID) acts)
    (hsettled : AllSteps System.step (fun sys op => ∀ saved, op = .tick saved → Settled sys.tasks)
      (.boot s TRID) acts) :
    AllSteps System.step
      (fun sys op => ∀ saved, op = .tick saved → Dispatched (sys.step op).tasks)
      (.boot s TRID) acts := by
  refine AllSteps.of_invariant SystemInvariant
    (fun sys op hI hC => systemInvariant_step sys op hI hC.1) ?_ (systemInvariant_boot s TRID)
    (hacts.and hsettled)
  rintro sys op hinv ⟨-, hop⟩ saved rfl
  have hslots : SlotInvariant (save_context sys.tasks saved) :=
    ⟨hinv.slots.ready_trid, hinv.slots.null_trid, hinv.slots.null_fields,
      hinv.slots.status_cases, hinv.slots.idle⟩
  exact dispatched_of_settled hslots (hop saved rfl)

/-- A task is created and run, and a tick comes. -/
def create_run_tick : List Op :=
  [.create 3 0xc0008840 0, .run 1, .tick (create_context 0 task_idle_addr)]

theorem task_schedule_dispatches_slot_one :
    AllSteps System.step
      (fun sys op => ∀ saved, op = .tick saved → Dispatched (sys.step op).tasks)
      (.boot bss 0) create_run_tick := by
  refine task_schedule_dispatches_ready bss 0 create_run_tick ⟨trivial, trivial, trivial, trivial⟩ ?_
  refine ⟨by simp, by simp, fun saved _ => ⟨?_, ?_⟩, trivial⟩ <;> decide +kernel

/-- A task is created, and a tick comes before it is run. Its slot still holds
the TRID of the uninitialised local, here 77. -/
def create_tick : List Op :=
  [.create 3 0xc0008840 77, .tick (create_context 0 task_idle_addr)]

/-- The tick dispatches slot 77, which no task was ever created in. -/
theorem task_schedule_dispatches_garbage :
    AllSteps System.step System.Enabled (.boot bss 0) create_tick ∧
      ¬ AllSteps System.step
        (fun sys op => ∀ saved, op = .tick saved → Dispatched (sys.step op).tasks)
        (.boot bss 0) create_tick := by
  refine ⟨⟨trivial, trivial, trivial⟩, fun hall => ?_⟩
  have hready := (hall.2.1 _ rfl).1
  exact absurd hready (by decide +kernel)

end epos.task
