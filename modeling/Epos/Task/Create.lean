import Epos.Task.Runs

open runs

namespace epos.task

/-- The memory of the tables at boot: the `.bss` section, all zero. -/
def bss : Tasks :=
  { task_info := fun _ => { rank := 0, status := .STATUS_NULL, task_func := 0, TRID := 0 }
    task_table := fun _ => delete_context { create_context 0 0 with cpsr := 0 }
    task_global := { kstack := 0, tid := 0, schedule_lock := false } }

theorem boot_reached (s : Tasks) (TRID : UInt32) : (System.boot s TRID).Reached :=
  ⟨s, TRID, [], trivial, rfl⟩

/-- `task_create` has a reason to fail: the rank is none of the four
priorities, or every slot is taken. -/
def CreateMustFail (s : Tasks) (rank : UInt8) : Prop :=
  rank > MAX_rank ∨ ∀ i, ¬ Free (s.task_info i)

/-- `task_create` returns 0 exactly when it has to fail, and then leaves both
tables alone; otherwise it returns a slot that was free and changes no other. -/
def CreatesCleanly (s : Tasks) (rank : UInt8) (task_func TRID : UInt32) : Prop :=
  let r := task_create s rank task_func TRID
  (r.1 = 0 ↔ CreateMustFail s rank) ∧
  (CreateMustFail s rank → r.2.task_info = s.task_info ∧ r.2.task_table = s.task_table) ∧
  (¬ CreateMustFail s rank → Free (s.task_info r.1) ∧
    ∀ i, i ≠ r.1 → r.2.task_info i = s.task_info i ∧ r.2.task_table i = s.task_table i)

theorem rank_cases (rank : UInt8) :
    rank > MAX_rank + 1 ∨ rank = MAX_rank + 1 ∨ rank ≤ MAX_rank := by
  simp only [MAX_rank, gt_iff_lt, UInt8.lt_iff_toNat_lt, UInt8.le_iff_toNat_le, ← UInt8.toNat_inj]
  simp
  omega

/-- On a full table `task_create` takes the failure value 0 for a slot, and
overwrites the task that lives there. -/
theorem task_create_full_overwrites {s : Tasks} (hfull : ∀ i, ¬ Free (s.task_info i))
    {rank : UInt8} (hrank : ¬ rank > MAX_rank + 1) (task_func TRID : UInt32) :
    (task_create s rank task_func TRID).2.task_info 0 = ⟨rank, .DEAD, task_func, TRID⟩ := by
  have hget : task_get_id s = 0 := by
    obtain hfree | ⟨hzero, -⟩ := task_get_id_spec s
    · exact absurd hfree (hfull _)
    · exact hzero
  simp only [task_create_accepted hrank, hget, Function.update_self]

/-- Some content of the uninitialised local makes the overwriting visible. -/
theorem not_clean_of_full {s : Tasks} (hfull : ∀ i, ¬ Free (s.task_info i)) {rank : UInt8}
    (hrank : ¬ rank > MAX_rank + 1) (task_func : UInt32) :
    ¬ ∀ TRID, CreatesCleanly s rank task_func TRID := by
  intro hclean
  have hunchanged := ((hclean ((s.task_info 0).TRID + 1)).2.1 (Or.inr hfull)).1
  have hzero := task_create_full_overwrites hfull hrank task_func ((s.task_info 0).TRID + 1)
  rw [hunchanged] at hzero
  have hTRID := congrArg TASK_INFO.TRID hzero
  simp at hTRID

theorem clean_of_rejected {s : Tasks} {rank : UInt8} (hrank : rank > MAX_rank + 1)
    (task_func TRID : UInt32) : CreatesCleanly s rank task_func TRID := by
  have hfail : CreateMustFail s rank := by
    refine Or.inl ?_
    simp only [MAX_rank, gt_iff_lt, UInt8.lt_iff_toNat_lt] at hrank ⊢
    simp at hrank ⊢
    omega
  simp [CreatesCleanly, task_create_rejected hrank, hfail]

theorem clean_of_free {s : Tasks} (hidle : ¬ Free (s.task_info 0)) {rank : UInt8}
    (hrank : rank ≤ MAX_rank) {slot : UInt8} (hfree : Free (s.task_info slot))
    (task_func TRID : UInt32) : CreatesCleanly s rank task_func TRID := by
  have hpass : ¬ rank > MAX_rank + 1 := by
    simp only [MAX_rank, gt_iff_lt, UInt8.lt_iff_toNat_lt, UInt8.le_iff_toNat_le] at hrank ⊢
    simp at hrank ⊢
    omega
  have hgood : ¬ CreateMustFail s rank := by
    rintro (hbad | hfull)
    · exact absurd hrank (UInt8.not_le.mpr hbad)
    · exact hfull slot hfree
  have hget : Free (s.task_info (task_get_id s)) := by
    obtain hfound | ⟨-, hnone⟩ := task_get_id_spec s
    · exact hfound
    · exact absurd hfree (hnone slot)
  have hnonzero : task_get_id s ≠ 0 := fun h => hidle (h ▸ hget)
  simp only [CreatesCleanly, task_create_accepted hpass]
  refine ⟨⟨fun h => absurd h hnonzero, fun h => absurd h hgood⟩, fun h => absurd h hgood, ?_⟩
  intro _
  exact ⟨hget, fun i hi => ⟨Function.update_of_ne hi _ _, Function.update_of_ne hi _ _⟩⟩

/-- Creation fails cleanly, whatever the uninitialised TRID holds, exactly when
the rank is far enough out of range, or in range with a slot free. The cases
left out are rank `MAX_rank + 1`, which the test lets through, and a full table,
where slot 0 is overwritten. -/
theorem task_create_clean_iff {sys : System} (hreached : sys.Reached) (rank : UInt8)
    (task_func : UInt32) :
    (∀ TRID, CreatesCleanly sys.tasks rank task_func TRID) ↔
      rank > MAX_rank + 1 ∨ rank ≤ MAX_rank ∧ ∃ i, Free (sys.tasks.task_info i) := by
  have hidle : ¬ Free (sys.tasks.task_info 0) := fun h => hreached.invariant.slots.idle h.2.1
  constructor
  · intro hclean
    by_cases hbig : rank > MAX_rank + 1
    · exact Or.inl hbig
    · by_cases hsome : ∃ i, Free (sys.tasks.task_info i)
      · obtain hbig' | hedge | hsmall := rank_cases rank
        · exact absurd hbig' hbig
        · -- a rank of 4 has to be refused, yet a slot other than 0 is returned
          have hfail : CreateMustFail sys.tasks rank := by
            subst hedge
            exact Or.inl (by decide)
          have hzero := (hclean 0).1.mpr hfail
          rw [task_create_accepted hbig] at hzero
          obtain hfound | ⟨-, hnone⟩ := task_get_id_spec sys.tasks
          · rw [show task_get_id sys.tasks = 0 from hzero] at hfound
            exact absurd hfound hidle
          · obtain ⟨i, hi⟩ := hsome
            exact absurd hi (hnone i)
        · exact Or.inr ⟨hsmall, hsome⟩
      · exact absurd hclean (not_clean_of_full (not_exists.mp hsome) hbig task_func)
  · rintro (hbig | ⟨hsmall, i, hi⟩) TRID
    · exact clean_of_rejected hbig task_func TRID
    · exact clean_of_free hidle hsmall hi task_func TRID

theorem task_create_clean_at_boot :
    (System.boot bss 0).Reached ∧
      ((∀ TRID, CreatesCleanly (System.boot bss 0).tasks 3 0xc0008840 TRID) ↔
        (3 : UInt8) > MAX_rank + 1 ∨
          3 ≤ MAX_rank ∧ ∃ i, Free ((System.boot bss 0).tasks.task_info i)) :=
  ⟨boot_reached bss 0, task_create_clean_iff (boot_reached bss 0) 3 0xc0008840⟩

/-- Right after `task_init`, a task of rank 4 is created in slot 1. -/
theorem task_create_accepts_rank_four :
    (System.boot bss 0).Reached ∧
      ¬ CreatesCleanly (System.boot bss 0).tasks 4 0xc0008840 0 := by
  refine ⟨boot_reached bss 0, fun hclean => ?_⟩
  have hTID : (task_create (System.boot bss 0).tasks 4 0xc0008840 0).1 = 1 := by decide +kernel
  have hzero := hclean.1.mpr (Or.inl (by decide))
  rw [hTID] at hzero
  exact absurd hzero (by decide)

end epos.task
