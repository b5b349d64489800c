import Epos.Task.Runs

namespace epos.task

/-- The arguments of a `task_create`, and what its uninitialised local holds. -/
structure Caller where
  rank : UInt8
  task_func : UInt32
  TRID : UInt32

/-- Where a task is in `task_lock_schedule(); t = task_create(..); task_run(t);
task_unlock_schedule();`. A point stands for the next read or write of memory. -/
inductive Point where
  | lock
  /-- `task_get_id` reads a field of `task_info[id]`. -/
  | get_id (id field : Nat)
  /-- `task_create` copies a field of `task_info_this`. -/
  | set_info (TID : UInt8) (field : Nat)
  /-- `task_create` writes a word of `task_table[TID]`. -/
  | set_table (TID : UInt8) (field : Nat)
  | run (TID : UInt8)
  | run_trid (TID : UInt8)
  | run_status (TID : UInt8)
  | run_result (TID : UInt8)
  | unlock (TID : UInt8)
  | done (TID : UInt8)
  deriving DecidableEq

/-- The tests `task_get_id` makes of a slot, in its order. -/
def free_test (info : TASK_INFO) : Nat → Bool
  | 0 => info.rank = 0
  | 1 => info.status = .STATUS_NULL
  | 2 => info.task_func = 0
  | _ => info.TRID = 256

def copy_info (field : Nat) (dst src : TASK_INFO) : TASK_INFO :=
  match field with
  | 0 => { dst with rank := src.rank }
  | 1 => { dst with status := src.status }
  | 2 => { dst with task_func := src.task_func }
  | _ => { dst with TRID := src.TRID }

def copy_context (field : Nat) (dst src : context) : context :=
  match field with
  | 0 => { dst with r0 := src.r0 }
  | 1 => { dst with r1 := src.r1 }
  | 2 => { dst with r2 := src.r2 }
  | 3 => { dst with r3 := src.r3 }
  | 4 => { dst with r4 := src.r4 }
  | 5 => { dst with r5 := src.r5 }
  | 6 => { dst with r6 := src.r6 }
  | 7 => { dst with r7 := src.r7 }
  | 8 => { dst with r8 := src.r8 }
  | 9 => { dst with r9 := src.r9 }
  | 10 => { dst with r10 := src.r10 }
  | 11 => { dst with r11 := src.r11 }
  | 12 => { dst with r12 := src.r12 }
  | 13 => { dst with sp := src.sp }
  | 14 => { dst with lr := src.lr }
  | 15 => { dst with pc := src.pc }
  | 16 => { dst with cpsr := src.cpsr }
  | _ => { dst with spsr := src.spsr }

def Caller.task_info_this (c : Caller) : TASK_INFO :=
  { rank := c.rank, status := .DEAD, task_func := c.task_func, TRID := c.TRID }

/-- One read or write. What is done with registers alone goes with the access
before it. -/
def Point.step (c : Caller) (s : Tasks) : Point → Tasks × Point
  | .lock => (task_lock_schedule s, if c.rank > MAX_rank + 1 then .run 0 else .get_id 0 0)
  | .get_id id field =>
    (s,
      if id < 256 then
        if free_test (s.task_info (UInt8.ofNat id)) field then
          if field < 3 then .get_id id (field + 1) else .set_info (UInt8.ofNat id) 0
        else .get_id (id + 1) 0
      else .set_info 0 0)
  | .set_info TID field =>
    ({ s with
        task_info := Function.update s.task_info TID (copy_info field (s.task_info TID) c.task_info_this) },
      if field < 3 then .set_info TID (field + 1) else .set_table TID 0)
  | .set_table TID field =>
    ({ s with
        task_table := Function.update s.task_table TID
          (copy_context field (s.task_table TID) (create_context TID c.task_func)) },
      if field < 17 then .set_table TID (field + 1) else .run TID)
  | .run TID => (s, if (s.task_info TID).status ≠ .DEAD then .unlock TID else .run_trid TID)
  | .run_trid TID =>
    ({ s with
        task_info := Function.update s.task_info TID { s.task_info TID with TRID := TID.toUInt32 } },
      .run_status TID)
  | .run_status TID =>
    ({ s with
        task_info := Function.update s.task_info TID { s.task_info TID with status := .READY } },
      .run_result TID)
  | .run_result TID => (s, .unlock TID)
  | .unlock TID => (task_unlock_schedule s, .done TID)
  | .done TID => (s, .done TID)

/-- Between the write of the lock and the write that takes it back. -/
def Point.Inside : Point → Prop
  | .lock | .done _ => False
  | _ => True

/-- An upper bound on the accesses that are left. -/
def Point.remaining : Point → Nat
  | .lock => 2000
  | .get_id id field => 50 + 5 * (256 - id) + (4 - field)
  | .set_info _ field => 30 + (4 - field)
  | .set_table _ field => 6 + (18 - field)
  | .run _ => 5
  | .run_trid _ => 4
  | .run_status _ => 3
  | .run_result _ => 2
  | .unlock _ => 1
  | .done _ => 0

theorem Point.step_remaining (c : Caller) (s : Tasks) {p : Point} (hp : p.remaining ≠ 0) :
    (p.step c s).2.remaining < p.remaining := by
  cases p with
  | done TID => exact absurd rfl hp
  | lock | get_id | set_info | set_table | run =>
    simp only [Point.step]
    split_ifs <;> simp only [Point.remaining] <;> omega
  | run_trid | run_status | run_result | unlock => simp only [Point.step, Point.remaining]; omega

/-- The first `n` fields copied, in this order. -/
def copied {α : Type} (copy : Nat → α → α → α) (dst src : α) : Nat → α
  | 0 => dst
  | n + 1 => copy n (copied copy dst src n) src

theorem copied_info (dst src : TASK_INFO) : copied copy_info dst src 4 = src := rfl

theorem copied_context (dst src : context) : copied copy_context dst src 18 = src := by
  cases dst
  cases src
  simp only [copied, copy_context]

def Caller.ready_info (c : Caller) (TID : UInt8) : TASK_INFO :=
  { rank := c.rank, status := .READY, task_func := c.task_func, TRID := TID.toUInt32 }

/-- The slots at a point, when `s₀` is the state in which the lock was taken and
nothing else has run since. -/
def Point.info (c : Caller) (s₀ : Tasks) : Point → UInt8 → TASK_INFO
  | .lock | .get_id .. => s₀.task_info
  | .set_info TID field =>
    Function.update s₀.task_info TID (copied copy_info (s₀.task_info TID) c.task_info_this field)
  | .set_table TID _ | .run TID | .run_trid TID => Function.update s₀.task_info TID c.task_info_this
  | .run_status TID =>
    Function.update s₀.task_info TID { c.task_info_this with TRID := TID.toUInt32 }
  | .run_result TID | .unlock TID | .done TID => Function.update s₀.task_info TID (c.ready_info TID)

def Point.table (c : Caller) (s₀ : Tasks) : Point → UInt8 → context
  | .lock | .get_id .. | .set_info .. => s₀.task_table
  | .set_table TID field =>
    Function.update s₀.task_table TID
      (copied copy_context (s₀.task_table TID) (create_context TID c.task_func) field)
  | .run TID | .run_trid TID | .run_status TID | .run_result TID | .unlock TID | .done TID =>
    Function.update s₀.task_table TID (create_context TID c.task_func)

/-- The scan has passed over slots that are not free, and from its end on the
TID is the one `task_get_id` returns in `s₀`. -/
def Point.Chosen (s₀ : Tasks) : Point → Prop
  | .lock => True
  | .get_id id field => field < 4 ∧ (∀ j < id, ¬ Free (s₀.task_info (UInt8.ofNat j))) ∧
    ∀ f < field, free_test (s₀.task_info (UInt8.ofNat id)) f
  | .set_info TID field => field < 4 ∧ TID = task_get_id s₀
  | .set_table TID field => field < 18 ∧ TID = task_get_id s₀
  | .run TID | .run_trid TID | .run_status TID | .run_result TID | .unlock TID | .done TID =>
    TID = task_get_id s₀

structure Within (c : Caller) (s₀ s : Tasks) (p : Point) : Prop where
  info : s.task_info = p.info c s₀
  table : s.task_table = p.table c s₀
  chosen : p.Chosen s₀

theorem free_iff_tests (info : TASK_INFO) : Free info ↔ ∀ f < 4, free_test info f := by
  constructor
  · rintro ⟨hrank, hstatus, hfunc, hTRID⟩ f hf
    have hcases : f = 0 ∨ f = 1 ∨ f = 2 ∨ f = 3 := by omega
    obtain rfl | rfl | rfl | rfl := hcases <;> simp [free_test, hrank, hstatus, hfunc, hTRID]
  · intro htests
    have hrank := htests 0 (by decide)
    have hstatus := htests 1 (by decide)
    have hfunc := htests 2 (by decide)
    have hTRID := htests 3 (by decide)
    simp only [free_test, decide_eq_true_eq] at hrank hstatus hfunc hTRID
    exact ⟨hrank, hstatus, hfunc, hTRID⟩

theorem task_get_id_found {s : Tasks} {id : Nat} (hid : id < 256) (hfree : Free (s.task_info (UInt8.ofNat id)))
    (hbefore : ∀ j < id, ¬ Free (s.task_info (UInt8.ofNat j))) : task_get_id s = UInt8.ofNat id := by
  have hfind : (List.range 256).find? (fun id => Free (s.task_info (UInt8.ofNat id))) = some id := by
    rw [List.find?_range_eq_some]
    exact ⟨by simpa using hfree, List.mem_range.mpr hid, fun j hj => by simpa using hbefore j hj⟩
  simp only [task_get_id, hfind]

theorem task_get_id_full {s : Tasks} (hfull : ∀ j < 256, ¬ Free (s.task_info (UInt8.ofNat j))) :
    task_get_id s = 0 := by
  have hfind : (List.range 256).find? (fun id => Free (s.task_info (UInt8.ofNat id))) = none := by
    rw [List.find?_range_eq_none]
    exact fun j hj => by simpa using hfull j hj
  simp only [task_get_id, hfind]

section Steps

variable {c : Caller} {s₀ s : Tasks}

theorem Within.get_id {id field : Nat} (hwithin : Within c s₀ s (.get_id id field)) :
    Within c s₀ (Point.step c s (.get_id id field)).1 (Point.step c s (.get_id id field)).2 := by
  obtain ⟨hinfo, htable, hfield, hbefore, htests⟩ := hwithin
  have hzero : ∀ TID, Within c s₀ s (.set_info TID 0) ↔ TID = task_get_id s₀ := by
    intro TID
    refine ⟨fun h => h.chosen.2, fun hTID => ⟨?_, htable, by decide, hTID⟩⟩
    rw [hinfo]
    exact (Function.update_eq_self TID s₀.task_info).symm
  have hsame : s.task_info = s₀.task_info := hinfo
  simp only [Point.step, hsame]
  by_cases hid : id < 256
  · rw [if_pos hid]
    by_cases htest : free_test (s₀.task_info (UInt8.ofNat id)) field
    · rw [if_pos htest]
      have hnext : ∀ f < field + 1, free_test (s₀.task_info (UInt8.ofNat id)) f := by
        intro f hf
        obtain hlt | rfl := Nat.lt_succ_iff_lt_or_eq.mp hf
        · exact htests f hlt
        · exact htest
      by_cases hlast : field < 3
      · rw [if_pos hlast]
        exact ⟨hinfo, htable, by omega, hbefore, hnext⟩
      · rw [if_neg hlast, hzero]
        have hfour : field + 1 = 4 := by omega
        rw [hfour] at hnext
        exact (task_get_id_found hid ((free_iff_tests _).mpr hnext) hbefore).symm
    · rw [if_neg htest]
      refine ⟨hinfo, htable, by decide, fun j hj => ?_, fun f hf => absurd hf (Nat.not_lt_zero f)⟩
      obtain hlt | rfl := Nat.lt_succ_iff_lt_or_eq.mp hj
      · exact hbefore j hlt
      · exact fun hfree => htest ((free_iff_tests _).mp hfree field hfield)
  · rw [if_neg hid, hzero]
    exact (task_get_id_full fun j hj => hbefore j (by omega)).symm

theorem Within.set_info {TID : UInt8} {field : Nat} (hwithin : Within c s₀ s (.set_info TID field)) :
    Within c s₀ (Point.step c s (.set_info TID field)).1 (Point.step c s (.set_info TID field)).2 := by
  obtain ⟨hinfo, htable, hfield, hTID⟩ := hwithin
  have hcopy : Function.update s.task_info TID (copy_info field (s.task_info TID) c.task_info_this) =
      Function.update s₀.task_info TID
        (copied copy_info (s₀.task_info TID) c.task_info_this (field + 1)) := by
    rw [hinfo, Point.info, Function.update_self, Function.update_idem]
    rfl
  simp only [Point.step, hcopy]
  by_cases hlast : field < 3
  · rw [if_pos hlast]
    exact ⟨rfl, htable, by omega, hTID⟩
  · rw [if_neg hlast]
    have hfour : field + 1 = 4 := by omega
    refine ⟨?_, ?_, by decide, hTID⟩
    · rw [hfour, copied_info]
      rfl
    · rw [htable]
      exact (Function.update_eq_self TID s₀.task_table).symm

theorem Within.set_table {TID : UInt8} {field : Nat} (hwithin : Within c s₀ s (.set_table TID field)) :
    Within c s₀ (Point.step c s (.set_table TID field)).1 (Point.step c s (.set_table TID field)).2 := by
  obtain ⟨hinfo, htable, hfield, hTID⟩ := hwithin
  have hcopy : Function.update s.task_table TID
        (copy_context field (s.task_table TID) (create_context TID c.task_func)) =
      Function.update s₀.task_table TID
        (copied copy_context (s₀.task_table TID) (create_context TID c.task_func) (field + 1)) := by
    rw [htable, Point.table, Function.update_self, Function.update_idem]
    rfl
  simp only [Point.step, hcopy]
  by_cases hlast : field < 17
  · rw [if_pos hlast]
    exact ⟨hinfo, rfl, by omega, hTID⟩
  · rw [if_neg hlast]
    have heighteen : field + 1 = 18 := by omega
    refine ⟨hinfo, ?_, hTID⟩
    rw [heighteen, copied_context]
    rfl

/-- A step of the task itself goes from one point to the next. -/
theorem Within.step (hrank : ¬ c.rank > MAX_rank + 1) {p : Point} (hwithin : Within c s₀ s p) :
    Within c s₀ (p.step c s).1 (p.step c s).2 := by
  cases p with
  | lock =>
    simp only [Point.step, if_neg hrank]
    exact ⟨hwithin.info, hwithin.table, by decide, fun j hj => absurd hj (Nat.not_lt_zero j),
      fun f hf => absurd hf (Nat.not_lt_zero f)⟩
  | get_id id field => exact hwithin.get_id
  | set_info TID field => exact hwithin.set_info
  | set_table TID field => exact hwithin.set_table
  | run TID =>
    have hdead : (s.task_info TID).status = .DEAD := by
      rw [hwithin.info, Point.info, Function.update_self]
      rfl
    simp only [Point.step, hdead, ne_eq, not_true_eq_false, if_false]
    exact ⟨hwithin.info, hwithin.table, hwithin.chosen⟩
  | run_trid TID =>
    refine ⟨?_, hwithin.table, hwithin.chosen⟩
    simp only [Point.step, hwithin.info, Point.info, Function.update_self, Function.update_idem]
  | run_status TID =>
    refine ⟨?_, hwithin.table, hwithin.chosen⟩
    simp only [Point.step, hwithin.info, Point.info, Function.update_self, Function.update_idem]
    rfl
  | run_result TID => exact ⟨hwithin.info, hwithin.table, hwithin.chosen⟩
  | unlock TID => exact ⟨hwithin.info, hwithin.table, hwithin.chosen⟩
  | done TID => exact hwithin

/-- Whatever runs of the section, other slots are left alone. -/
theorem Within.others {p : Point} (hwithin : Within c s₀ s p) {i : UInt8} (hi : i ≠ task_get_id s₀) :
    s.task_info i = s₀.task_info i ∧ s.task_table i = s₀.task_table i := by
  rw [hwithin.info, hwithin.table]
  have hchosen := hwithin.chosen
  cases p with
  | lock | get_id => exact ⟨rfl, rfl⟩
  | set_info TID | set_table TID =>
    rw [← hchosen.2] at hi
    simp only [Point.info, Point.table, Function.update_of_ne hi, and_self]
  | run TID | run_trid TID | run_status TID | run_result TID | unlock TID | done TID =>
    obtain rfl : TID = task_get_id s₀ := hchosen
    simp only [Point.info, Point.table, Function.update_of_ne hi, and_self]

end Steps

/-- One step of a task that nothing else interrupts. -/
def alone (c : Caller) (sp : Tasks × Point) : Tasks × Point := sp.2.step c sp.1

theorem alone_finishes (c : Caller) (sp : Tasks × Point) : ∃ n s TID, (alone c)^[n] sp = (s, .done TID) := by
  induction hr : sp.2.remaining using Nat.strong_induction_on generalizing sp with
  | _ r ih =>
    by_cases hdone : sp.2.remaining = 0
    · obtain ⟨s, p⟩ := sp
      cases p with
      | done TID => exact ⟨0, s, TID, rfl⟩
      | _ => simp only [Point.remaining] at hdone; omega
    · have hlt := Point.step_remaining c sp.1 hdone
      obtain ⟨n, s, TID, hn⟩ := ih _ (hr ▸ hlt) (alone c sp) rfl
      exact ⟨n + 1, s, TID, hn⟩

theorem Within.alone {c : Caller} (hrank : ¬ c.rank > MAX_rank + 1) {s₀ : Tasks} {sp : Tasks × Point}
    (hwithin : Within c s₀ sp.1 sp.2) (n : Nat) :
    Within c s₀ ((task.alone c)^[n] sp).1 ((task.alone c)^[n] sp).2 := by
  induction n generalizing sp with
  | zero => exact hwithin
  | succ n ih => exact ih (hwithin.step hrank)

/-- Not interrupted, the accesses amount to `task_create` and `task_run`. -/
theorem alone_spec {c : Caller} (hrank : ¬ c.rank > MAX_rank + 1) (s : Tasks) :
    ∃ n s', (alone c)^[n] (s, .lock) = (s', .done (task_get_id s)) ∧
      s'.task_info = (task_run (task_create s c.rank c.task_func c.TRID).2 (task_get_id s)).2.task_info ∧
      s'.task_table = (task_run (task_create s c.rank c.task_func c.TRID).2 (task_get_id s)).2.task_table := by
  have hstart : Within c s s .lock := ⟨rfl, rfl, trivial⟩
  obtain ⟨n, s', TID, hn⟩ := alone_finishes c (s, .lock)
  have hwithin : Within c s ((alone c)^[n] (s, .lock)).1 ((alone c)^[n] (s, .lock)).2 := hstart.alone hrank n
  rw [hn] at hwithin
  obtain rfl : TID = task_get_id s := hwithin.chosen
  have hcreate := task_create_accepted hrank c.task_func c.TRID (s := s)
  refine ⟨n, s', hn, ?_, ?_⟩
  · rw [hwithin.info, hcreate, task_run_started (by simp only [Function.update_self])]
    simp only [Function.update_self, Function.update_idem]
    rfl
  · rw [hwithin.table, hcreate, task_run_started (by simp only [Function.update_self])]
    rfl

end epos.task
