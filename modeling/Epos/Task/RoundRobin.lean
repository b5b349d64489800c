import Epos.Task.Dispatch
import Mathlib.Data.Finset.Card
import Mathlib.Data.Finset.Image
import Mathlib.Data.FinEnum
import Mathlib.Data.List.Rotate

open runs

namespace epos.task

/-- The slots with status `READY`. -/
def ready (s : Tasks) : Finset UInt8 :=
  Finset.univ.filter fun i => (s.task_info i).status = .READY

/-- The tasks that consecutive calls of `task_schedule` select. -/
def selections : Tasks → Nat → List UInt8
  | _, 0 => []
  | s, k + 1 => (task_schedule s).task_global.tid :: selections (task_schedule s) k

/-- As many calls as there are `READY` slots select each of them exactly once. -/
def RoundRobin (s : Tasks) : Prop :=
  ∀ i ∈ ready s, (selections s (ready s).card).count i = 1

/-- The `READY` slots are the first `m`, at most 17, and no created task that
was not yet run is in the way: neither the running slot nor, unless its TRID
truncates to 0, the slot that ends the row. -/
structure Compact (s : Tasks) (m : Nat) : Prop where
  le : m ≤ 17
  ready_iff : ∀ i, (s.task_info i).status = .READY ↔ i.toNat < m
  running : (s.task_info s.task_global.tid).status ≠ .DEAD
  next : (s.task_info (UInt8.ofNat m)).status = .DEAD →
    (s.task_info (UInt8.ofNat m)).TRID.toUInt8 = 0

@[simp] theorem mem_ready (s : Tasks) (i : UInt8) :
    i ∈ ready s ↔ (s.task_info i).status = .READY := by
  simp [ready]

theorem Compact.card_ready {s : Tasks} {m : Nat} (h : Compact s m) : (ready s).card = m := by
  have heq : ready s = (Finset.range m).image UInt8.ofNat := by
    ext i
    rw [mem_ready, h.ready_iff, Finset.mem_image]
    constructor
    · exact fun hi => ⟨i.toNat, Finset.mem_range.mpr hi, UInt8.ofNat_toNat⟩
    · rintro ⟨n, hn, rfl⟩
      have hm := h.le
      have hlt := Finset.mem_range.mp hn
      rw [UInt8.toNat_ofNat', Nat.mod_eq_of_lt (by omega)]
      exact hlt
  rw [heq, Finset.card_image_of_injOn, Finset.card_range]
  intro a ha b hb hab
  have hm := h.le
  simp only [Finset.coe_range, Set.mem_Iio] at ha hb
  have hnat := congrArg UInt8.toNat hab
  rwa [UInt8.toNat_ofNat', UInt8.toNat_ofNat', Nat.mod_eq_of_lt (by omega),
    Nat.mod_eq_of_lt (by omega)] at hnat

/-- The scheduler only moves `task_global`. -/
theorem Compact.schedule {s : Tasks} {m : Nat} (h : Compact s m)
    (hready : (task_schedule s).task_global.tid.toNat < m) : Compact (task_schedule s) m := by
  refine ⟨h.le, h.ready_iff, ?_, h.next⟩
  rw [task_schedule_task_info, (h.ready_iff _).mpr hready]
  decide

theorem SlotInvariant.schedule {s : Tasks} (hinv : SlotInvariant s) :
    SlotInvariant (task_schedule s) :=
  ⟨hinv.ready_trid, hinv.null_trid, hinv.null_fields, hinv.status_cases, hinv.idle⟩

/-- The current TRID is a `READY` slot: the running one, or slot 0 when the
running task has just deleted itself. -/
theorem Compact.current_lt {s : Tasks} {m : Nat} (hinv : SlotInvariant s) (h : Compact s m)
    (hm : 0 < m) : (current_TRID s).toNat < m := by
  unfold current_TRID
  obtain hnull | hready | hdead := hinv.status_cases s.task_global.tid
  · rw [hinv.null_toUInt8 hnull]
    exact hm
  · rw [hinv.ready_trid _ hready, toUInt32_toUInt8]
    exact (h.ready_iff _).mp hready
  · exact absurd hdead h.running

theorem current_TRID_of_ready {s : Tasks} (hinv : SlotInvariant s)
    (hready : (s.task_info s.task_global.tid).status = .READY) :
    current_TRID s = s.task_global.tid := by
  rw [current_TRID, hinv.ready_trid _ hready, toUInt32_toUInt8]

/-- In a compact table the scheduler goes one slot up, and from the last `READY`
slot back to slot 0. -/
theorem Compact.task_schedule_tid {s : Tasks} {m : Nat} (hinv : SlotInvariant s)
    (h : Compact s m) (hm : 0 < m) :
    (task_schedule s).task_global.tid.toNat = ((current_TRID s).toNat + 1) % m := by
  have hcurrent := h.current_lt hinv hm
  have hle := h.le
  have hsucc : (current_TRID s + 1).toNat = (current_TRID s).toNat + 1 := by
    rw [UInt8.toNat_add]
    exact Nat.mod_eq_of_lt (by change (current_TRID s).toNat + 1 < 256; omega)
  have hnext : next_in_line s = current_TRID s + 1 := by
    refine if_neg ?_
    rintro ⟨-, hready⟩
    have hlt := (h.ready_iff 17).mp hready
    change 17 < m at hlt
    omega
  by_cases hinside : (current_TRID s).toNat + 1 < m
  · have hready : (s.task_info (next_in_line s)).status = .READY := by
      rw [h.ready_iff, hnext, hsucc]
      exact hinside
    rw [task_schedule_tid_of_ready hinv hready, hnext, hsucc, Nat.mod_eq_of_lt hinside]
  · have hlast : (current_TRID s).toNat + 1 = m := by omega
    have hslot : next_in_line s = UInt8.ofNat m := by
      rw [hnext, ← UInt8.toNat_inj, hsucc, hlast, UInt8.toNat_ofNat', Nat.mod_eq_of_lt (by omega)]
    have hzero : (s.task_info (next_in_line s)).TRID.toUInt8 = 0 := by
      rw [hslot]
      obtain hnull | hready | hdead := hinv.status_cases (UInt8.ofNat m)
      · exact hinv.null_toUInt8 hnull
      · have hlt := (h.ready_iff _).mp hready
        rw [← hslot, hnext, hsucc] at hlt
        omega
      · exact h.next hdead
    rw [task_schedule_tid_of_zero hinv hzero, hlast, Nat.mod_self]
    rfl

/-- From a compact table the selections run round the row of `READY` slots. -/
theorem Compact.selections_eq {m : Nat} (hm : 0 < m) (k : Nat) :
    ∀ s : Tasks, SlotInvariant s → Compact s m → (selections s k).map UInt8.toNat =
      (List.range k).map fun j => ((current_TRID s).toNat + 1 + j) % m := by
  induction k with
  | zero => simp [selections]
  | succ k ih =>
    intro s hinv h
    have htid := h.task_schedule_tid hinv hm
    have hlt : (task_schedule s).task_global.tid.toNat < m := htid ▸ Nat.mod_lt _ hm
    have hready : ((task_schedule s).task_info (task_schedule s).task_global.tid).status = .READY :=
      (h.ready_iff _).mpr hlt
    have hcurrent := current_TRID_of_ready hinv.schedule hready
    rw [selections, List.map_cons, ih _ hinv.schedule (h.schedule hlt), hcurrent, htid,
      List.range_succ_eq_map, List.map_cons, List.map_map]
    refine congrArg₂ _ (by simp) (List.map_congr_left fun j _ => ?_)
    simp only [Function.comp_apply, Nat.succ_eq_add_one]
    rw [Nat.add_assoc, Nat.mod_add_mod]
    congr 1
    omega

/-- Going once round a row of `m` visits each place once, wherever one starts. -/
theorem count_round {m a i : Nat} (hi : i < m) :
    ((List.range m).map fun j => (a + j) % m).count i = 1 := by
  have hrotate : (List.range m).map (fun j => (a + j) % m) = (List.range m).rotate a := by
    apply List.ext_getElem
    · simp
    · intro j h₁ h₂
      simp [List.getElem_rotate, Nat.add_comm]
  rw [hrotate, (List.rotate_perm _ _).count_eq]
  exact List.count_eq_one_of_mem List.nodup_range (List.mem_range.mpr hi)

theorem Compact.roundRobin {s : Tasks} {m : Nat} (hinv : SlotInvariant s) (h : Compact s m) :
    RoundRobin s := by
  intro i hi
  have hlt : i.toNat < m := (h.ready_iff i).mp ((mem_ready s i).mp hi)
  have hinj : Function.Injective UInt8.toNat := fun _ _ => UInt8.toNat_inj.mp
  rw [h.card_ready, ← List.count_map_of_injective _ _ hinj,
    h.selections_eq (by omega) m s hinv, count_round hlt]

/-- With no task waiting to be run, the current TRID names a `READY` slot. -/
theorem current_ready {s : Tasks} (hinv : SlotInvariant s)
    (hrun : ∀ i, (s.task_info i).status ≠ .DEAD) :
    (s.task_info (current_TRID s)).status = .READY := by
  obtain hnull | hready | hdead := hinv.status_cases s.task_global.tid
  · rw [current_TRID, hinv.null_toUInt8 hnull]
    obtain hnull' | hready' | hdead' := hinv.status_cases 0
    · exact absurd hnull' hinv.idle
    · exact hready'
    · exact absurd hdead' (hrun 0)
  · rw [current_TRID_of_ready hinv hready]
    exact hready
  · exact absurd hdead (hrun _)

/-- A slot other than 0 is selected only from the `READY` slot right below it,
and slot 17, which holds the sentinel value, is never selected. -/
theorem selected_cases {s : Tasks} (hinv : SlotInvariant s)
    (hrun : ∀ i, (s.task_info i).status ≠ .DEAD) :
    (task_schedule s).task_global.tid = 0 ∨ (task_schedule s).task_global.tid ≠ 17 ∧
      (s.task_info ((task_schedule s).task_global.tid - 1)).status = .READY := by
  obtain hnull | hready | hdead := hinv.status_cases (next_in_line s)
  · exact Or.inl (task_schedule_tid_of_zero hinv (hinv.null_toUInt8 hnull))
  · right
    rw [task_schedule_tid_of_ready hinv hready]
    refine ⟨next_in_line_ne_of_ready hready, ?_⟩
    unfold next_in_line
    split
    · next hskip => exact hskip.2
    · rw [UInt8.add_sub_cancel]
      exact current_ready hinv hrun
  · exact absurd hdead (hrun _)

theorem selections_cases (k : Nat) : ∀ s : Tasks, SlotInvariant s →
    (∀ i, (s.task_info i).status ≠ .DEAD) → ∀ r ∈ selections s k,
      r = 0 ∨ r ≠ 17 ∧ (s.task_info (r - 1)).status = .READY := by
  induction k with
  | zero => simp [selections]
  | succ k ih =>
    intro s hinv hrun r hr
    rcases List.mem_cons.mp hr with rfl | hr
    · exact selected_cases hinv hrun
    · exact ih (task_schedule s) hinv.schedule hrun r hr

/-- If every `READY` slot is selected, each but slot 0 has a `READY` slot right
below it, and slot 17 is not among them. They are then the first `m` slots. -/
theorem exists_compact {s : Tasks} (hinv : SlotInvariant s)
    (hrun : ∀ i, (s.task_info i).status ≠ .DEAD) (hround : RoundRobin s) :
    ∃ m, Compact s m := by
  have hdown (r : UInt8) (hr : (s.task_info r).status = .READY) :
      r = 0 ∨ r ≠ 17 ∧ (s.task_info (r - 1)).status = .READY := by
    refine selections_cases (ready s).card s hinv hrun r ?_
    have hone := hround r ((mem_ready s r).mpr hr)
    exact List.count_pos_iff.mp (by omega)
  have hseventeen : ¬ (s.task_info (UInt8.ofNat 17)).status = .READY := by
    intro h
    obtain h0 | ⟨hne, -⟩ := hdown 17 h
    · exact absurd h0 (by decide)
    · exact hne rfl
  -- below a `READY` slot all slots are `READY`, by going down one at a time
  have hbelow (d : Nat) : ∀ r : UInt8, (s.task_info r).status = .READY → d ≤ r.toNat →
      (s.task_info (UInt8.ofNat (r.toNat - d))).status = .READY := by
    induction d with
    | zero => simp
    | succ d ih =>
      intro r hr hd
      have hprev := ih r hr (by omega)
      have hlt := r.toNat_lt
      have hval : (UInt8.ofNat (r.toNat - d)).toNat = r.toNat - d := by
        rw [UInt8.toNat_ofNat']
        exact Nat.mod_eq_of_lt (by omega)
      obtain h0 | ⟨-, hpred⟩ := hdown _ hprev
      · rw [h0] at hval
        change 0 = r.toNat - d at hval
        omega
      · have hsub : UInt8.ofNat (r.toNat - d) - 1 = UInt8.ofNat (r.toNat - (d + 1)) := by
          rw [← UInt8.toNat_inj, UInt8.toNat_sub, hval, UInt8.toNat_ofNat']
          change (2 ^ 8 - 1 + (r.toNat - d)) % 2 ^ 8 = (r.toNat - (d + 1)) % 2 ^ 8
          omega
        rwa [hsub] at hpred
  have hexists : ∃ n, ¬ (s.task_info (UInt8.ofNat n)).status = .READY := ⟨17, hseventeen⟩
  classical
  refine ⟨Nat.find hexists, Nat.find_min' hexists hseventeen, fun i => ⟨fun hi => ?_, fun hi => ?_⟩,
    hrun _, fun h => absurd h (hrun _)⟩
  · by_contra hnot
    have hslot := hbelow (i.toNat - Nat.find hexists) i hi (by omega)
    rw [show i.toNat - (i.toNat - Nat.find hexists) = Nat.find hexists by omega] at hslot
    exact Nat.find_spec hexists hslot
  · have hready := Nat.find_min hexists hi
    rwa [not_not, UInt8.ofNat_toNat] at hready

/-- In a reachable state with a compact table the scheduler is fair to every
`READY` task, and where no created task is still to be run it is fair in no
other state. -/
theorem task_schedule_round_robin {sys : System} (hreached : sys.Reached) :
    ((∃ m, Compact sys.tasks m) → RoundRobin sys.tasks) ∧
      ((∀ i, (sys.tasks.task_info i).status ≠ .DEAD) →
        (RoundRobin sys.tasks ↔ ∃ m, Compact sys.tasks m)) := by
  have hinv := hreached.invariant.slots
  have hfair : (∃ m, Compact sys.tasks m) → RoundRobin sys.tasks := by
    rintro ⟨m, hm⟩
    exact hm.roundRobin hinv
  exact ⟨hfair, fun hrun => ⟨exists_compact hinv hrun, hfair⟩⟩

/-- Two tasks are created and run, and a tick dispatches the first. -/
def two_tasks : List Op :=
  [.create 3 0xc0008840 0, .run 1, .create 3 0xc0008860 0, .run 2,
    .tick (create_context 0 task_idle_addr)]

theorem two_tasks_reached : (exec System.step (.boot bss 0) two_tasks).Reached :=
  ⟨bss, 0, two_tasks, ⟨trivial, trivial, trivial, trivial, trivial, trivial⟩, rfl⟩

theorem two_tasks_round_robin : RoundRobin (exec System.step (.boot bss 0) two_tasks).tasks := by
  refine (task_schedule_round_robin two_tasks_reached).1 ⟨3, by decide, ?_, ?_, ?_⟩
  · decide +kernel
  · decide +kernel
  · decide +kernel

/-- When the first of the two tasks has deleted itself, two ticks both select
the idle task, and the second task, in slot 2, is passed over. -/
theorem deletion_starves_slot_two :
    (exec System.step (.boot bss 0) (two_tasks ++ [.delete])).Reached ∧
      ¬ RoundRobin (exec System.step (.boot bss 0) (two_tasks ++ [.delete])).tasks := by
  constructor
  · refine ⟨bss, 0, two_tasks ++ [.delete], ?_, rfl⟩
    refine ⟨trivial, trivial, trivial, trivial, trivial, ?_, trivial⟩
    simp only [System.Enabled]
    decide +kernel
  · intro hround
    have hready : 2 ∈ ready (exec System.step (.boot bss 0) (two_tasks ++ [.delete])).tasks := by
      rw [mem_ready]
      decide +kernel
    have hcard : (ready (exec System.step (.boot bss 0) (two_tasks ++ [.delete])).tasks).card = 2 := by
      decide +kernel
    have hone := hround 2 hready
    rw [hcard] at hone
    exact absurd hone (by decide +kernel)

end epos.task
