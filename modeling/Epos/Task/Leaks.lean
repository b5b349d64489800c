import Epos.Task.Create
import Mathlib.Data.Finset.Card
import Mathlib.Data.Finset.Image

open runs

namespace epos.task

/-- A slot is free for `task_get_id` exactly when no task created and not yet
deleted lives in it; and so a creation succeeds while fewer than 256 do. -/
def NoLeak (sys : System) : Prop :=
  (∀ i, Free (sys.tasks.task_info i) ↔ i ∉ sys.live) ∧
  (sys.live.card < 256 → ∀ rank task_func TRID, rank ≤ MAX_rank →
    (task_create sys.tasks rank task_func TRID).1 ∉ sys.live)

/-- While every empty slot still carries the TRID that `task_init` gave it, the
free test is exact. -/
def Pristine (s : Tasks) : Prop :=
  ∀ i, (s.task_info i).status = .STATUS_NULL → (s.task_info i).TRID = 256

/-- An empty slot with the TRID that `task_delete` writes is lost: the free
test wants 256 there. -/
def Leaked (s : Tasks) : Prop :=
  ∃ i, (s.task_info i).status = .STATUS_NULL ∧ (s.task_info i).TRID = 0

theorem free_iff_of_pristine {sys : System} (hinv : SystemInvariant sys)
    (hpristine : Pristine sys.tasks) (i : UInt8) :
    Free (sys.tasks.task_info i) ↔ i ∉ sys.live := by
  rw [hinv.live_iff i, not_not]
  constructor
  · exact fun hfree => hfree.2.1
  · intro hnull
    obtain ⟨hrank, hfunc⟩ := hinv.slots.null_fields i hnull
    exact ⟨hrank, hnull, hfunc, hpristine i hnull⟩

theorem exists_not_mem_of_card {live : Finset UInt8} (hcard : live.card < 256) : ∃ i, i ∉ live := by
  by_contra hall
  simp only [not_exists, not_not] at hall
  have hsub : (Finset.range 256).image UInt8.ofNat ⊆ live := fun i _ => hall i
  have hinj : Set.InjOn UInt8.ofNat (Finset.range 256) := by
    intro a ha b hb hab
    have hnat := congrArg UInt8.toNat hab
    simp only [Finset.coe_range, Set.mem_Iio] at ha hb
    simpa [Nat.mod_eq_of_lt ha, Nat.mod_eq_of_lt hb] using hnat
  have hle := Finset.card_le_card hsub
  rw [Finset.card_image_of_injOn hinj, Finset.card_range] at hle
  omega

theorem noLeak_of_pristine {sys : System} (hinv : SystemInvariant sys)
    (hpristine : Pristine sys.tasks) : NoLeak sys := by
  have hfree := free_iff_of_pristine hinv hpristine
  refine ⟨hfree, fun hcard rank task_func TRID hrank => ?_⟩
  obtain ⟨i, hi⟩ := exists_not_mem_of_card hcard
  have hidle : ¬ Free (sys.tasks.task_info 0) := fun h => hinv.slots.idle h.2.1
  have hclean := clean_of_free hidle hrank ((hfree i).mpr hi) task_func TRID
  have hgood : ¬ CreateMustFail sys.tasks rank := by
    rintro (hbad | hfull)
    · exact absurd hrank (UInt8.not_le.mpr hbad)
    · exact hfull i ((hfree i).mpr hi)
  exact (hfree _).mp (hclean.2.2 hgood).1

theorem not_noLeak_of_leaked {sys : System} (hinv : SystemInvariant sys)
    (hleaked : Leaked sys.tasks) : ¬ NoLeak sys := by
  rintro ⟨hfree, -⟩
  obtain ⟨i, hnull, hTRID⟩ := hleaked
  have hdead : i ∉ sys.live := fun h => (hinv.live_iff i).mp h hnull
  have htest := ((hfree i).mpr hdead).2.2.2
  rw [hTRID] at htest
  exact absurd htest (by decide)

theorem pristine_step (sys : System) (op : Op) (hpristine : Pristine sys.tasks)
    (hop : op ≠ .delete) : Pristine (sys.step op).tasks := by
  intro i
  obtain hsame | ⟨rank, task_func, TRID, rfl, -, hinfo⟩ | ⟨TID, rfl, -, hinfo⟩ | ⟨rfl, -⟩ :=
    step_task_info sys op
  · rw [hsame]
    exact hpristine i
  · rw [hinfo]
    by_cases hi : i = task_get_id sys.tasks
    · simp [hi]
    · simpa [hi] using hpristine i
  · rw [hinfo]
    by_cases hi : i = TID
    · simp [hi]
    · simpa [hi] using hpristine i
  · exact absurd rfl hop

/-- Nothing brings a lost slot back: `task_get_id` passes over it, `task_run`
refuses it, and a deletion writes a TRID of 0 again. -/
theorem leaked_step (sys : System) (op : Op) (hinv : SystemInvariant sys)
    (hleaked : Leaked sys.tasks) : Leaked (sys.step op).tasks := by
  obtain ⟨i, hnull, hTRID⟩ := hleaked
  refine ⟨i, ?_⟩
  obtain hsame | ⟨rank, task_func, TRID, rfl, -, hinfo⟩ | ⟨TID, rfl, hdead, hinfo⟩ | ⟨rfl, hinfo⟩ :=
    step_task_info sys op
  · rw [hsame]
    exact ⟨hnull, hTRID⟩
  · have hi : i ≠ task_get_id sys.tasks := by
      rintro rfl
      obtain hfound | ⟨hzero, -⟩ := task_get_id_spec sys.tasks
      · rw [hfound.2.2.2] at hTRID
        exact absurd hTRID (by decide)
      · rw [hzero] at hnull
        exact hinv.slots.idle hnull
    rw [hinfo, Function.update_of_ne hi]
    exact ⟨hnull, hTRID⟩
  · have hi : i ≠ TID := by
      rintro rfl
      rw [hnull] at hdead
      cases hdead
    rw [hinfo, Function.update_of_ne hi]
    exact ⟨hnull, hTRID⟩
  · rw [hinfo]
    by_cases hi : i = sys.tasks.task_global.tid
    · simp [hi]
    · rw [Function.update_of_ne hi]
      exact ⟨hnull, hTRID⟩

theorem leaked_of_delete (sys : System) : Leaked (sys.step .delete).tasks :=
  ⟨sys.tasks.task_global.tid, by simp [System.step, task_delete], by simp [System.step, task_delete]⟩

theorem pristine_boot (s : Tasks) (TRID : UInt32) : Pristine (System.boot s TRID).tasks := by
  intro i
  simp only [System.boot, task_init_task_info]
  by_cases hi : i = 0 <;> simp [hi]

/-- After a run from `task_init` the free test is exact if and only if no task
was deleted on the way. -/
theorem slots_not_leaked_iff (s : Tasks) (TRID : UInt32) (acts : List Op)
    (hacts : AllSteps System.step System.Enabled (.boot s TRID) acts) :
    NoLeak (exec System.step (.boot s TRID) acts) ↔ ∀ op ∈ acts, op ≠ .delete := by
  have hboot := systemInvariant_boot s TRID
  have hinv := exec_invariant SystemInvariant systemInvariant_step hboot hacts
  constructor
  · intro hleak op hop hdelete
    have hleaked := exec_of_mem SystemInvariant (fun sys => Leaked sys.tasks) (· = .delete)
      systemInvariant_step (fun sys op hI hQ _ => leaked_step sys op hI hQ)
      (fun sys op _ _ hE => hE ▸ leaked_of_delete sys) hboot hacts ⟨op, hop, hdelete⟩
    exact not_noLeak_of_leaked hinv hleaked hleak
  · intro hnone
    have hpristine := exec_invariant (fun sys => Pristine sys.tasks)
      (fun sys op hI hC => pristine_step sys op hI hC) (pristine_boot s TRID)
      (AllSteps.of_forall_mem hnone)
    exact noLeak_of_pristine hinv hpristine

/-- A task is created and run, a tick dispatches it, and it deletes itself. -/
def create_run_delete : List Op :=
  [.create 3 0xc0008840 0, .run 1, .tick (create_context 0 task_idle_addr), .delete]

theorem create_run_delete_enabled :
    AllSteps System.step System.Enabled (.boot bss 0) create_run_delete := by
  refine ⟨trivial, trivial, trivial, ?_, trivial⟩
  simp only [System.Enabled]
  decide +kernel

/-- Two tasks are created and run, a tick dispatches the first, and a third is created. -/
def create_three : List Op :=
  [.create 3 0xc0008840 0, .run 1, .create 2 0xc0008860 7, .run 2, .tick (create_context 0 task_idle_addr),
    .create 0 0xc0008880 0]

theorem slots_not_leaked_create_three :
    (exec System.step (.boot bss 0) create_three).live = {0, 1, 2, 3} ∧
    NoLeak (exec System.step (.boot bss 0) create_three) := by
  have henabled : AllSteps System.step System.Enabled (.boot bss 0) create_three :=
    ⟨trivial, trivial, trivial, trivial, trivial, trivial, trivial⟩
  refine ⟨by decide +kernel, (slots_not_leaked_iff bss 0 create_three henabled).mpr ?_⟩
  intro op hop hdelete
  rw [hdelete] at hop
  simp [create_three] at hop

/-- After one cycle slot 1 holds no task and is not free. -/
theorem slot_leaked_by_one_cycle :
    AllSteps System.step System.Enabled (.boot bss 0) create_run_delete ∧
      ¬ NoLeak (exec System.step (.boot bss 0) create_run_delete) := by
  refine ⟨create_run_delete_enabled, fun hleak => ?_⟩
  have hgone : (1 : UInt8) ∉ (exec System.step (.boot bss 0) create_run_delete).live := by
    decide +kernel
  have hfree := (hleak.1 1).mpr hgone
  have htaken : ¬ Free ((exec System.step (.boot bss 0) create_run_delete).tasks.task_info 1) := by
    decide +kernel
  exact htaken hfree

end epos.task
