import Epos.Task.RoundRobin
import Epos.Task.Section

open runs

namespace epos.task

/-- Two tasks on their way through the section. The CPU executes the one whose
slot is `task_global.tid`. -/
structure Race where
  tasks : Tasks
  point : Bool → Point

inductive Act where
  | move (w : Bool)
  | tick

def Race.next (callers : Bool → Caller) (race : Race) : Act → Race
  | .move w =>
    { tasks := ((race.point w).step (callers w) race.tasks).1
      point := Function.update race.point w ((race.point w).step (callers w) race.tasks).2 }
  | .tick => { race with tasks := task_schedule race.tasks }

def Race.Enabled (slot : Bool → UInt8) (race : Race) : Act → Prop
  | .move w => race.tasks.task_global.tid = slot w
  | .tick => True

instance (slot : Bool → UInt8) (race : Race) (act : Act) : Decidable (race.Enabled slot act) := by
  cases act <;> unfold Race.Enabled <;> infer_instance

def Race.start (s : Tasks) : Race := { tasks := s, point := fun _ => .lock }

/-- One of the tasks holds the lock. -/
def Race.Locked (race : Race) : Prop := ∃ w, (race.point w).Inside

/-- A tick that comes while the lock is held does not change the running task. -/
def TickNeutral (callers : Bool → Caller) (race : Race) (act : Act) : Prop :=
  act = .tick → race.Locked →
    (race.next callers act).tasks.task_global.tid = race.tasks.task_global.tid

/-- The slot is that of a task of this caller. -/
structure Owns (s : Tasks) (TID : UInt8) (c : Caller) : Prop where
  status : (s.task_info TID).status = .READY
  task_func : (s.task_info TID).task_func = c.task_func
  pc : (s.task_table TID).pc = c.task_func

/-- The tasks that have left the section own their slots, and not the same one. -/
structure Created (callers : Bool → Caller) (race : Race) : Prop where
  owns : ∀ w TID, race.point w = .done TID → Owns race.tasks TID (callers w)
  apart : ∀ TID other, race.point true = .done TID → race.point false = .done other → TID ≠ other

/-- In a tick that comes while the lock is held, the running task itself is the
next in line. -/
def TickKeeps (race : Race) (act : Act) : Prop :=
  act = .tick → race.Locked → InLine race.tasks race.tasks.task_global.tid

theorem tickNeutral_iff (callers : Bool → Caller) (race : Race) (act : Act) :
    TickNeutral callers race act ↔ TickKeeps race act := by
  have htid := task_schedule_tid_iff race.tasks race.tasks.task_global.tid
  constructor
  · rintro h rfl hlocked
    exact htid.mp (h rfl hlocked)
  · rintro h rfl hlocked
    exact htid.mpr (h rfl hlocked)

/-- With no task in the section: what was created, and that the slot found next is
another one. -/
structure Settling (callers : Bool → Caller) (race : Race) : Prop extends Created callers race where
  free : (∀ w, race.point w = .lock) → ∃ i ≠ 0, Free (race.tasks.task_info i)
  next : ∀ w TID, race.point w = .done TID → race.point (!w) = .lock → task_get_id race.tasks ≠ TID

/-- Task `w` took the lock in the state `s₀` and has run alone since. -/
structure Busy (callers : Bool → Caller) (slot : Bool → UInt8) (race : Race) (w : Bool) (s₀ : Tasks) : Prop where
  inside : (race.point w).Inside
  outside : ¬ (race.point (!w)).Inside
  running : race.tasks.task_global.tid = slot w
  before : Settling callers { tasks := s₀, point := Function.update race.point w .lock }
  within : Within (callers w) s₀ race.tasks (race.point w)

/-- At most one task is in the section. -/
def RaceInvariant (callers : Bool → Caller) (slot : Bool → UInt8) (race : Race) : Prop :=
  (¬ race.Locked ∧ Settling callers race) ∨ ∃ w s₀, Busy callers slot race w s₀

theorem Point.inside_step (c : Caller) (s : Tasks) {p : Point} (hp : p.Inside) :
    (p.step c s).2.Inside ∨ ∃ TID, (p.step c s).2 = .done TID := by
  cases p with
  | lock | done => exact hp.elim
  | unlock TID => exact .inr ⟨TID, rfl⟩
  | run_trid | run_status | run_result => exact .inl trivial
  | get_id | set_info | set_table | run =>
    left
    simp only [Point.step]
    split_ifs <;> trivial

theorem Point.step_tid (c : Caller) (s : Tasks) (p : Point) :
    (p.step c s).1.task_global.tid = s.task_global.tid := by
  cases p <;> rfl

theorem Point.cases_outside {p : Point} (hp : ¬ p.Inside) : p = .lock ∨ ∃ TID, p = .done TID := by
  cases p with
  | lock => exact .inl rfl
  | done TID => exact .inr ⟨TID, rfl⟩
  | _ => exact absurd trivial hp

section Parties

variable {callers : Bool → Caller} {slot : Bool → UInt8} {race : Race} {w : Bool}

theorem Owns.same {s s' : Tasks} {TID : UInt8} {c : Caller} (howns : Owns s TID c)
    (hinfo : s'.task_info TID = s.task_info TID) (htable : s'.task_table TID = s.task_table TID) :
    Owns s' TID c :=
  ⟨hinfo ▸ howns.status, hinfo ▸ howns.task_func, htable ▸ howns.pc⟩

/-- A tick outside the section changes nothing that was created. -/
theorem Settling.schedule (hsettling : Settling callers race) : Settling callers (race.next callers .tick) :=
  ⟨⟨fun w TID hdone => (hsettling.owns w TID hdone).same rfl rfl, hsettling.apart⟩, hsettling.free,
    hsettling.next⟩

/-- A finished section has filled the slot that it found. -/
theorem Within.created {c : Caller} {s₀ s : Tasks} (hwithin : Within c s₀ s (.done (task_get_id s₀))) :
    Owns s (task_get_id s₀) c := by
  have hinfo : s.task_info (task_get_id s₀) = c.ready_info (task_get_id s₀) := by
    rw [hwithin.info, Point.info, Function.update_self]
  refine ⟨?_, ?_, ?_⟩
  · rw [hinfo]
    rfl
  · rw [hinfo]
    rfl
  · rw [hwithin.table, Point.table, Function.update_self]
    rfl

/-- The next search finds another slot, if one other than slot 0 was free before. -/
theorem Within.get_id_ne {c : Caller} {s₀ s : Tasks} (hwithin : Within c s₀ s (.done (task_get_id s₀)))
    (hfree : ∃ i ≠ 0, Free (s₀.task_info i)) : task_get_id s ≠ task_get_id s₀ := by
  intro hsame
  obtain hfound | ⟨hzero, hnone⟩ := task_get_id_spec s
  · have hready := hwithin.created.status
    rw [← hsame, hfound.2.1] at hready
    cases hready
  · -- the table is full, so slot 0 was taken, though slot `i` was free
    obtain ⟨i, hi, hfree⟩ := hfree
    apply hnone i
    rw [(hwithin.others (by rwa [← hsame, hzero])).1]
    exact hfree

/-- A finished section fills the slot found free, and the next search finds
another. -/
theorem Settling.finish (hsettling : Settling callers race) (hlock : race.point w = .lock)
    {after : Race} (hother : after.point (!w) = race.point (!w)) {TID : UInt8} (hself : after.point w = .done TID)
    (hwithin : Within (callers w) race.tasks after.tasks (.done TID)) : Settling callers after := by
  obtain rfl : TID = task_get_id race.tasks := hwithin.chosen
  have hfresh : ∀ other, race.point (!w) = .done other → task_get_id race.tasks ≠ other := by
    intro other hdone
    exact hsettling.next (!w) other hdone (by rwa [Bool.not_not])
  refine ⟨⟨fun v TID hdone => ?_, fun TID other hdone hdone' => ?_⟩, fun hall => ?_, fun v TID hdone hnext => ?_⟩
  · by_cases hv : v = w
    · subst hv
      rw [hself] at hdone
      obtain rfl := Point.done.inj hdone
      exact hwithin.created
    · obtain rfl : v = !w := Bool.eq_not.mpr hv
      rw [hother] at hdone
      obtain ⟨hsame, hsame'⟩ := hwithin.others (hfresh TID hdone).symm
      exact (hsettling.owns _ TID hdone).same hsame hsame'
  · cases w with
    | true =>
      rw [hself] at hdone
      obtain rfl := Point.done.inj hdone
      exact hfresh other (hother ▸ hdone')
    | false =>
      rw [hself] at hdone'
      obtain rfl := Point.done.inj hdone'
      exact (hfresh TID (hother ▸ hdone)).symm
  · rw [hall w] at hself
    cases hself
  · by_cases hv : v = w
    · subst hv
      rw [hself] at hdone
      obtain rfl := Point.done.inj hdone
      rw [hother] at hnext
      apply hwithin.get_id_ne
      apply hsettling.free
      intro v'
      by_cases hv : v' = v
      · rw [hv, hlock]
      · rw [Bool.eq_not.mpr hv, hnext]
    · obtain rfl : v = !w := Bool.eq_not.mpr hv
      rw [Bool.not_not, hself] at hnext
      cases hnext

/-- Taking the lock. -/
theorem Settling.take (hsettling : Settling callers race) (hfree : ¬ race.Locked) (hlock : race.point w = .lock)
    (hrank : ¬ (callers w).rank > MAX_rank + 1) (hrunning : race.tasks.task_global.tid = slot w) :
    Busy callers slot (race.next callers (.move w)) w race.tasks := by
  have hother : (race.next callers (.move w)).point (!w) = race.point (!w) :=
    Function.update_of_ne (by simp) _ _
  have hself : (race.next callers (.move w)).point w = .get_id 0 0 := by
    simp only [Race.next, hlock, Point.step, if_neg hrank, Function.update_self]
  refine ⟨?_, ?_, ?_, ?_, ?_⟩
  · rw [hself]
    trivial
  · rw [hother]
    exact fun hinside => hfree ⟨!w, hinside⟩
  · exact (Point.step_tid _ _ _).trans hrunning
  · have hback : Function.update (race.next callers (.move w)).point w .lock = race.point := by
      rw [Race.next, Function.update_idem, ← hlock, Function.update_eq_self]
    rw [hback]
    exact hsettling
  · have hstart : Within (callers w) race.tasks race.tasks (race.point w) := by
      rw [hlock]
      exact ⟨rfl, rfl, trivial⟩
    have hwithin := hstart.step hrank
    simpa only [Race.next, Function.update_self] using hwithin

/-- A step of the task in the section. -/
theorem Busy.move {s₀ : Tasks} (hbusy : Busy callers slot race w s₀) (hrank : ¬ (callers w).rank > MAX_rank + 1) :
    RaceInvariant callers slot (race.next callers (.move w)) := by
  have hother : (race.next callers (.move w)).point (!w) = race.point (!w) :=
    Function.update_of_ne (by simp) _ _
  have hself : (race.next callers (.move w)).point w = ((race.point w).step (callers w) race.tasks).2 :=
    Function.update_self ..
  have hwithin : Within (callers w) s₀ (race.next callers (.move w)).tasks
      ((race.next callers (.move w)).point w) := by
    rw [hself]
    exact hbusy.within.step hrank
  obtain hinside | ⟨TID, hdone⟩ := Point.inside_step (callers w) race.tasks hbusy.inside
  · refine .inr ⟨w, s₀, by rwa [hself], by rw [hother]; exact hbusy.outside, ?_, ?_, hwithin⟩
    · exact (Point.step_tid _ _ _).trans hbusy.running
    · have hback : Function.update (race.next callers (.move w)).point w .lock =
          Function.update race.point w .lock := Function.update_idem ..
      rw [hback]
      exact hbusy.before
  · rw [← hself] at hdone
    refine .inl ⟨?_, ?_⟩
    · rintro ⟨v, hinside⟩
      by_cases hv : v = w
      · rw [hv, hdone] at hinside
        exact hinside
      · rw [Bool.eq_not.mpr hv, hother] at hinside
        exact hbusy.outside hinside
    · rw [hdone] at hwithin
      apply hbusy.before.finish (Function.update_self ..) _ hdone hwithin
      rw [hother]
      exact (Function.update_of_ne (by simp) _ _).symm

/-- A tick during the section that leaves its task running. -/
theorem Busy.tick {s₀ : Tasks} (hbusy : Busy callers slot race w s₀)
    (hkeeps : InLine race.tasks race.tasks.task_global.tid) :
    Busy callers slot (race.next callers .tick) w s₀ :=
  ⟨hbusy.inside, hbusy.outside, ((task_schedule_tid_iff _ _).mpr hkeeps).trans hbusy.running, hbusy.before,
    ⟨hbusy.within.info, hbusy.within.table, hbusy.within.chosen⟩⟩

theorem raceInvariant_start {s : Tasks} (hfree : ∃ i ≠ 0, Free (s.task_info i)) :
    RaceInvariant callers slot (.start s) := by
  refine .inl ⟨?_, ⟨⟨fun w TID hdone => ?_, fun TID other hdone _ => ?_⟩, fun _ => hfree, fun w TID hdone _ => ?_⟩⟩
  · rintro ⟨w, hinside⟩
    exact hinside
  · cases hdone
  · cases hdone
  · cases hdone

theorem raceInvariant_step (hslots : slot true ≠ slot false) (hrank : ∀ w, ¬ (callers w).rank > MAX_rank + 1)
    (race : Race) (act : Act) (hinv : RaceInvariant callers slot race)
    (hact : race.Enabled slot act ∧ TickKeeps race act) : RaceInvariant callers slot (race.next callers act) := by
  obtain ⟨henabled, hkeeps⟩ := hact
  have hinj : ∀ v w, slot v = slot w → v = w := by
    intro v w hvw
    cases v <;> cases w
    · rfl
    · exact absurd hvw.symm hslots
    · exact absurd hvw hslots
    · rfl
  obtain ⟨hfree, hsettling⟩ | ⟨w, s₀, hbusy⟩ := hinv
  · cases act with
    | move w =>
      obtain hlock | ⟨TID, hdone⟩ := Point.cases_outside fun hinside => hfree ⟨w, hinside⟩
      · exact .inr ⟨w, _, hsettling.take hfree hlock (hrank w) henabled⟩
      · have hsame : race.next callers (.move w) = race := by
          simp only [Race.next, hdone, Point.step]
          rw [← hdone, Function.update_eq_self]
        rw [hsame]
        exact .inl ⟨hfree, hsettling⟩
    | tick => exact .inl ⟨hfree, hsettling.schedule⟩
  · cases act with
    | move v =>
      obtain rfl : v = w := hinj v w (henabled.symm.trans hbusy.running)
      exact hbusy.move (hrank v)
    | tick => exact .inr ⟨w, s₀, hbusy.tick (hkeeps rfl ⟨w, hbusy.inside⟩)⟩

theorem RaceInvariant.created (hinv : RaceInvariant callers slot race) : Created callers race := by
  obtain ⟨-, hsettling⟩ | ⟨w, s₀, hbusy⟩ := hinv
  · exact hsettling.toCreated
  · have hinside : ∀ TID, race.point w ≠ .done TID := by
      intro TID hdone
      have hw := hbusy.inside
      rw [hdone] at hw
      exact hw
    refine ⟨fun v TID hdone => ?_, fun TID other hdone hdone' => ?_⟩
    · have hv : v = !w := Bool.eq_not.mpr fun hv => hinside TID (hv ▸ hdone)
      subst hv
      have hbefore : Function.update race.point w .lock (!w) = .done TID := by
        rwa [Function.update_of_ne (by simp)]
      have hfresh := hbusy.before.next (!w) TID hbefore (by
        rw [Bool.not_not]
        exact Function.update_self ..)
      obtain ⟨hsame, hsame'⟩ := hbusy.within.others (Ne.symm hfresh)
      exact (hbusy.before.owns _ TID hbefore).same hsame hsame'
    · cases w with
      | true => exact absurd hdone (hinside TID)
      | false => exact absurd hdone' (hinside other)

end Parties

/-- Creation under the lock is atomic exactly in the runs whose ticks, while the
lock is held, find the running task itself next in line, provided that the
ranks are accepted and there is a slot to be had. -/
theorem task_creation_atomic_iff {callers : Bool → Caller} {slot : Bool → UInt8} (hslots : slot true ≠ slot false)
    (hrank : ∀ w, ¬ (callers w).rank > MAX_rank + 1) {s : Tasks} (hfree : ∃ i ≠ 0, Free (s.task_info i))
    {acts : List Act} (hacts : AllSteps (Race.next callers) (Race.Enabled slot) (.start s) acts) :
    AllSteps (Race.next callers) (TickNeutral callers) (.start s) acts ∧
        Always (Race.next callers) (Created callers) (.start s) acts ↔
      AllSteps (Race.next callers) TickKeeps (.start s) acts := by
  constructor
  · rintro ⟨hneutral, -⟩
    exact hneutral.imp fun race act => (tickNeutral_iff callers race act).mp
  · intro hkeeps
    refine ⟨hkeeps.imp fun race act => (tickNeutral_iff callers race act).mpr, ?_⟩
    exact Always.of_invariant (RaceInvariant callers slot) (raceInvariant_step hslots hrank)
      (fun _ hinv => hinv.created) (raceInvariant_start hfree) (hacts.and hkeeps)

/-- Of the two tasks of `two_tasks` each creates one more. -/
def two_callers (w : Bool) : Caller :=
  { rank := 3, task_func := if w then 0xc0008858 else 0xc0008870, TRID := 0 }

def two_slots (w : Bool) : UInt8 := if w then 1 else 2

def two_running : Tasks := (exec System.step (.boot bss 0) two_tasks).tasks

/-- The task in slot 0, which has booted, and the one that it creates. -/
def boot_slots (w : Bool) : UInt8 := if w then 0 else 1

/-- Two ticks come in the first section, when slot 1 is not in line yet; the third
dispatches the task in slot 1, which goes through its own. -/
def in_turn : List Act :=
  List.replicate 8 (.move true) ++ [.tick] ++ List.replicate 12 (.move true) ++ [.tick] ++
    List.replicate 13 (.move true) ++ [.tick] ++ List.replicate 34 (.move false)

instance (p : Point) : Decidable p.Inside := by
  cases p <;> unfold Point.Inside <;> infer_instance

instance (race : Race) : Decidable race.Locked := by
  unfold Race.Locked
  infer_instance

instance (s : Tasks) (TID : UInt8) : Decidable (InLine s TID) := by
  unfold InLine
  infer_instance

instance (race : Race) (act : Act) : Decidable (TickKeeps race act) := by
  cases act
  · exact isTrue (by simp [TickKeeps])
  · exact decidable_of_iff (race.Locked → InLine race.tasks race.tasks.task_global.tid) (by simp [TickKeeps])

theorem task_creation_in_turn :
    ((exec (Race.next two_callers) (.start (System.boot bss 0).tasks) (in_turn.take 8)).Locked ∧
      (exec (Race.next two_callers) (.start (System.boot bss 0).tasks) in_turn).point = fun w => .done (if w then 1 else 2)) ∧
    AllSteps (Race.next two_callers) (TickNeutral two_callers) (.start (System.boot bss 0).tasks) in_turn ∧
    Always (Race.next two_callers) (Created two_callers) (.start (System.boot bss 0).tasks) in_turn := by
  have henabled : AllSteps (Race.next two_callers) (Race.Enabled boot_slots) (.start (System.boot bss 0).tasks) in_turn := by
    decide +kernel
  refine ⟨⟨by decide +kernel, funext (by decide +kernel)⟩, ?_⟩
  apply (task_creation_atomic_iff (by decide) (by decide) ⟨1, by decide, by decide +kernel⟩ henabled).mpr
  decide +kernel

/-- The first task is interrupted when it has found slot 3 and not filled it yet. -/
def lost_task : List Act :=
  List.replicate 8 (.move true) ++ [.tick] ++ List.replicate 35 (.move false) ++ [.tick, .tick, .tick] ++
    List.replicate 27 (.move true)

/-- Both tasks obtain slot 3, and the task that the second created is lost. -/
theorem task_creation_not_atomic :
    AllSteps (Race.next two_callers) (Race.Enabled two_slots) (.start two_running) lost_task ∧
      ¬ (AllSteps (Race.next two_callers) (TickNeutral two_callers) (.start two_running) lost_task ∧
        Always (Race.next two_callers) (Created two_callers) (.start two_running) lost_task) := by
  refine ⟨by decide +kernel, fun ⟨_, halways⟩ => ?_⟩
  have hfirst : (exec (Race.next two_callers) (.start two_running) lost_task).point true = .done 3 := by
    decide +kernel
  have hsecond : (exec (Race.next two_callers) (.start two_running) lost_task).point false = .done 3 := by
    decide +kernel
  exact halways.exec.apart 3 3 hfirst hsecond rfl

end epos.task
