import Epos.Thread.Reap
import Epos.Thread.WaitQueue

open chains runs
open epos.page (NULL loop_fuel)

namespace epos.thread

/-- A run, with the threads that were created and not yet reaped, in the order of their
creation. -/
structure Ids where
  sys : System
  live : List UInt32

/-- The thread that a call creates: the pointer that `sys_task_create` returns, unless it is NULL. -/
def created (s : Threads) : Call → List UInt32
  | .create p tos => ((sys_task_create s p tos).map Prod.fst).toList.filter (· ≠ NULL)
  | .install _ | .exit _ | .wait _ _ | .yield => []

/-- The threads that `kfree` has not taken on the way from `s` to `t`. -/
def not_freed (s t : Threads) (live : List UInt32) : List UInt32 :=
  live.filter fun p => p ∉ s.heap ∨ p ∈ t.heap

/-- After `init_task`. -/
def Ids.boot (s : Threads) (p : UInt32) : Ids :=
  ⟨System.boot s p, [(System.boot s p).threads.task0].filter (· ≠ NULL)⟩

def Ids.step (q : Ids) (c : Call) : Ids :=
  ⟨q.sys.step c, not_freed q.sys.threads (q.sys.step c).threads q.live ++ created q.sys.threads c⟩

def Ids.Enabled (q : Ids) (c : Call) : Prop := q.sys.Enabled c

instance Ids.decidableEnabled (q : Ids) (c : Call) : Decidable (q.Enabled c) :=
  inferInstanceAs (Decidable (q.sys.Enabled c))

/-- The list has the live threads in the order of their creation, each once, and a tid
belongs to one thread, 0 to `task0`; `get_task` finds it. -/
structure Ids.Identify (q : Ids) : Prop where
  list : Chain NULL q.sys.threads.next q.sys.threads.g_task_head q.live
  nodup : q.live.Nodup
  distinct : (q.live.map fun p => (q.sys.threads.tcbs p).tid).Nodup
  zero : ∀ p ∈ q.live, (q.sys.threads.tcbs p).tid = 0 → p = q.sys.threads.task0
  found : ∀ p ∈ q.live, get_task q.sys.threads (q.sys.threads.tcbs p).tid = some p
  missed : ∀ tid, (∀ p ∈ q.live, (q.sys.threads.tcbs p).tid ≠ tid) → get_task q.sys.threads tid = some NULL

/-- The call creates a thread, should `kmalloc` have memory for it. -/
def Creates : Call → Prop
  | .create p tos => tos &&& 3 = 0 ∧ p ≠ NULL
  | .install _ | .exit _ | .wait _ _ | .yield => False

/-- If the call creates a thread, its tid is that of no live thread, and not 0 unless the
thread is where `task0` was. -/
def Ids.FreshTid (q : Ids) : Call → Prop
  | .create p tos => tos &&& 3 = 0 ∧ p ≠ NULL →
      (∀ a ∈ q.live, (q.sys.threads.tcbs a).tid ≠ q.sys.threads.tid) ∧
        (q.sys.threads.tid = 0 → p = q.sys.threads.task0)
  | .install _ | .exit _ | .wait _ _ | .yield => True

instance Ids.decidableFreshTid (q : Ids) : (c : Call) → Decidable (q.FreshTid c)
  | .create _ _ => @instDecidableForall _ _ inferInstance
      (@instDecidableAnd _ _ (List.decidableBAll _ q.live) (@instDecidableForall _ _ inferInstance inferInstance))
  | .install _ | .exit _ | .wait _ _ | .yield => isTrue trivial

/-- The list is well formed and has what is allocated. -/
structure Ids.Listed (q : Ids) : Prop where
  linked : q.sys.threads.Linked q.live
  heap : q.sys.threads.heap.Perm q.live

/-- From `s` to `t`, the links and the tids stay. -/
structure SameList (s t : Threads) : Prop where
  next : t.next = s.next
  head : t.g_task_head = s.g_task_head
  tids : ∀ p, (t.tcbs p).tid = (s.tcbs p).tid
  heap : t.heap = s.heap
  task0 : t.task0 = s.task0
  tid : t.tid = s.tid

section SameList

variable {s t u : Threads}

theorem SameList.refl (s : Threads) : SameList s s := ⟨rfl, rfl, fun _ => rfl, rfl, rfl, rfl⟩

theorem SameList.trans (h : SameList s t) (h' : SameList t u) : SameList s u :=
  ⟨h'.next.trans h.next, h'.head.trans h.head, fun p => (h'.tids p).trans (h.tids p), h'.heap.trans h.heap,
    h'.task0.trans h.task0, h'.tid.trans h.tid⟩

theorem SameList.linked (h : SameList s t) {nodes : List UInt32} (hs : s.Linked nodes) : t.Linked nodes := by
  refine ⟨?_, hs.nodup⟩
  rw [h.next, h.head]
  exact hs.chain

/-- Writing other fields of a thread. -/
theorem sameList_set_tcb (s : Threads) (p : UInt32) (write : tcb → tcb) (hnext : ∀ tsk, (write tsk).next = tsk.next)
    (htid : ∀ tsk, (write tsk).tid = tsk.tid) : SameList s (s.set_tcb p (write (s.tcbs p))) :=
  ⟨set_tcb_same_next (hnext _), rfl, set_tcb_same tcb.tid (htid _), rfl, rfl, rfl⟩

theorem wake_up_sameList {p : UInt32} {n : Int32} (hwake : wake_up s p n = some t) : SameList s t := by
  rw [wake_up_eq] at hwake
  obtain ⟨nodes, -, rfl⟩ := Option.map_eq_some_iff.mp hwake
  clear hwake
  induction nodes generalizing s with
  | nil => exact SameList.refl s
  | cons a nodes ih =>
    have hfirst : SameList s (s.wake a) :=
      sameList_set_tcb s _ (fun tsk => { tsk with state := TASK_STATE_READY }) (fun _ => rfl) (fun _ => rfl)
    exact hfirst.trans ih

theorem schedule_sameList (hschedule : schedule s = some t) : SameList s t := by
  obtain ⟨select, -, rfl⟩ := Option.map_eq_some_iff.mp hschedule
  split
  · exact SameList.refl s
  · exact ⟨rfl, rfl, fun _ => rfl, rfl, rfl, rfl⟩

theorem sleep_on_sameList {wait p : UInt32} (hsleep : sleep_on s wait p = some t) : SameList s t := by
  obtain ⟨u, hschedule, hleave⟩ := Option.bind_eq_some_iff.mp hsleep
  have hentered := sleep_on_enter_spec s wait p
  have henter : SameList s (sleep_on_enter s wait p) :=
    ⟨hentered.next, hentered.head, hentered.tids, hentered.heap, hentered.task0, hentered.tid⟩
  refine (henter.trans (schedule_sameList hschedule)).trans ?_
  rw [sleep_on_leave] at hleave
  split at hleave
  · cases hleave
    exact sameList_set_tcb u p (fun tsk => { tsk with wq_exit := (u.waits wait).next }) (fun _ => rfl) (fun _ => rfl)
  · obtain ⟨found, -, rfl⟩ := Option.map_eq_some_iff.mp hleave
    cases found with
    | none => exact SameList.refl u
    | some q => exact ⟨rfl, rfl, fun _ => rfl, rfl, rfl, rfl⟩

theorem sys_task_exit_sameList {code : Int32} (hexit : sys_task_exit s code = some t) : SameList s t := by
  obtain ⟨u, hwake, hrest⟩ := Option.bind_eq_some_iff.mp hexit
  refine (wake_up_sameList hwake).trans (SameList.trans ?_ (schedule_sameList hrest))
  obtain ⟨u₁, hu₁⟩ : ∃ u₁, u₁ = u.set_tcb u.g_task_running { u.tcbs u.g_task_running with code_exit := code } :=
    ⟨_, rfl⟩
  obtain ⟨u₂, hu₂⟩ : ∃ u₂, u₂ = u₁.set_tcb u₁.g_task_running
      { u₁.tcbs u₁.g_task_running with state := TASK_STATE_ZOMBIE } := ⟨_, rfl⟩
  have hcode : SameList u u₁ :=
    hu₁ ▸ sameList_set_tcb u _ (fun tsk => { tsk with code_exit := code }) (fun _ => rfl) (fun _ => rfl)
  have hstate : SameList u₁ u₂ :=
    hu₂ ▸ sameList_set_tcb u₁ _ (fun tsk => { tsk with state := TASK_STATE_ZOMBIE }) (fun _ => rfl) (fun _ => rfl)
  simp only
  rw [← hu₁, ← hu₂]
  split
  · exact (hcode.trans hstate).trans ⟨rfl, rfl, fun _ => rfl, rfl, rfl, rfl⟩
  · exact hcode.trans hstate

end SameList

/-- From `s` to `t`, the threads that stay keep their tids. -/
structure Kept (s t : Threads) (live : List UInt32) : Prop where
  linked : t.Linked live
  heap : t.heap.Perm live
  tids : ∀ p, (t.tcbs p).tid = (s.tcbs p).tid
  task0 : t.task0 = s.task0
  tid : t.tid = s.tid

section Steps

variable {s t : Threads} {live : List UInt32}

theorem SameList.kept (h : SameList s t) (hlinked : s.Linked live) (hheap : s.heap.Perm live) : Kept s t live :=
  ⟨h.linked hlinked, h.heap ▸ hheap, h.tids, h.task0, h.tid⟩

/-- `sys_task_wait` takes one thread out at most. -/
theorem sys_task_wait_kept (hlinked : s.Linked live) (hheap : s.heap.Perm live) {wait : UInt32} {tid r : Int32}
    {code : Option Int32} (hcall : sys_task_wait s wait tid = some (r, code, t)) :
    Kept s t live ∨ ∃ p ∈ live, Kept s t (live.erase p) := by
  have hsame := (SameList.refl s).kept hlinked hheap
  rw [sys_task_wait] at hcall
  by_cases hnull : s.g_task_running = NULL
  · rw [if_pos hnull] at hcall
    cases hcall
    exact .inl hsame
  rw [if_neg hnull] at hcall
  obtain ⟨hget, -⟩ | ⟨p, hp, hget, -⟩ := get_task_spec hlinked tid
  · rw [hget] at hcall
    cases hcall
    exact .inl hsame
  · rw [hget, Option.bind_some, if_neg (hlinked.chain.ne_null hp)] at hcall
    obtain ⟨u, hslept, hcall⟩ := Option.bind_eq_some_iff.mp hcall
    have hu : SameList s u := by
      split at hslept
      · exact sleep_on_sameList hslept
      · cases hslept
        exact SameList.refl s
    simp only at hcall
    split at hcall
    · obtain ⟨v, hremove, heq⟩ := Option.map_eq_some_iff.mp hcall
      cases heq
      obtain ⟨v', hremove', hrelinked, hlinked'⟩ := remove_task_spec (hu.linked hlinked) hp
      rw [hremove] at hremove'
      obtain rfl := Option.some.inj hremove'
      refine .inr ⟨p, hp, ⟨hlinked'.chain, hlinked'.nodup⟩, ?_, fun a => ?_, hrelinked.task0.trans hu.task0,
        hrelinked.tid.trans hu.tid⟩
      · have hfreed : (kfree v p).heap = s.heap.erase p := by
          rw [← hu.heap, ← hrelinked.heap]
          rfl
        rw [hfreed]
        exact hheap.erase p
      · exact (congrArg tcb.tid (hrelinked.tcbs a)).trans (hu.tids a)
    · cases hcall
      exact .inl (hu.kept hlinked hheap)

/-- So do all calls that create no thread. -/
theorem step_kept {sys : System} (hlinked : sys.threads.Linked live) (hheap : sys.threads.heap.Perm live) {c : Call}
    (hc : ¬ Creates c) : Kept sys.threads (sys.step c).threads live ∨
      ∃ p ∈ live, Kept sys.threads (sys.step c).threads (live.erase p) := by
  have hsame := (SameList.refl sys.threads).kept hlinked hheap
  cases hcall : sys.call c with
  | none =>
    rw [System.step, hcall, Option.getD_none]
    exact .inl hsame
  | some after =>
    rw [System.step, hcall, Option.getD_some]
    cases c with
    | install p =>
      cases hcall
      exact .inl ⟨⟨hlinked.chain, hlinked.nodup⟩, hheap, fun _ => rfl, rfl, rfl⟩
    | create p tos =>
      rw [System.call, sys_task_create_failed hc] at hcall
      cases hcall
      exact .inl hsame
    | exit code =>
      obtain ⟨t, hexit, rfl⟩ := Option.map_eq_some_iff.mp hcall
      exact .inl ((sys_task_exit_sameList hexit).kept hlinked hheap)
    | wait wait tid =>
      obtain ⟨⟨r, code, t⟩, hwait, rfl⟩ := Option.map_eq_some_iff.mp hcall
      exact sys_task_wait_kept hlinked hheap hwait
    | yield =>
      obtain ⟨t, hyield, rfl⟩ := Option.map_eq_some_iff.mp hcall
      exact .inl ((schedule_sameList hyield).kept hlinked hheap)

theorem not_freed_same (hheap : t.heap.Perm live) : not_freed s t live = live := by
  rw [not_freed, List.filter_eq_self]
  intro a ha
  simp [hheap.mem_iff.mpr ha]

/-- A thread that is reaped is no longer there. -/
theorem not_freed_erase {p : UInt32} (hnodup : live.Nodup) (hbefore : s.heap.Perm live)
    (hafter : t.heap.Perm (live.erase p)) : not_freed s t live = live.erase p := by
  rw [not_freed, hnodup.erase_eq_filter]
  apply List.filter_congr
  intro a ha
  have hheld : a ∈ s.heap := hbefore.mem_iff.mpr ha
  have hstays : a ∈ t.heap ↔ a ≠ p := by
    rw [hafter.mem_iff, hnodup.mem_erase_iff]
    exact and_iff_left ha
  rw [Bool.eq_iff_iff, decide_eq_true_iff, bne_iff_ne, hstays]
  exact or_iff_right (not_not.mpr hheld)

theorem created_none {c : Call} (hc : ¬ Creates c) : created s c = [] := by
  cases c with
  | create p tos => simp [created, sys_task_create_failed hc]
  | install | exit | wait | yield => rfl

theorem created_some {p tos : UInt32} (hp : p ≠ NULL) (hcall : sys_task_create s p tos = some (p, t)) :
    created s (.create p tos) = [p] := by
  simp [created, hcall, hp]

end Steps

section Runs

variable {q : Ids} {c : Call}

/-- What the tids have to be. -/
def Ids.Distinct (q : Ids) : Prop :=
  (q.live.map fun p => (q.sys.threads.tcbs p).tid).Nodup ∧
    ∀ p ∈ q.live, (q.sys.threads.tcbs p).tid = 0 → p = q.sys.threads.task0

/-- The list and `get_task` are then as they should be. -/
theorem Ids.Listed.identify_iff (h : q.Listed) : q.Identify ↔ q.Distinct := by
  refine ⟨fun hid => ⟨hid.distinct, hid.zero⟩, fun hdistinct => ⟨h.linked.chain, h.linked.nodup, hdistinct.1,
    hdistinct.2, fun p hp => ?_, fun tid hmissed => ?_⟩⟩
  · obtain ⟨-, hnone⟩ | ⟨p', hp', hget, htid⟩ := get_task_spec h.linked (q.sys.threads.tcbs p).tid
    · exact absurd rfl (hnone p hp)
    · rw [hget, List.inj_on_of_nodup_map hdistinct.1 hp' hp htid]
  · obtain ⟨hget, -⟩ | ⟨p, hp, -, htid⟩ := get_task_spec h.linked tid
    · exact hget
    · exact absurd htid (hmissed p hp)

/-- A call that creates no thread. -/
theorem Ids.Listed.kept (h : q.Listed) (hc : ¬ Creates c) :
    (q.step c).Listed ∧ (q.step c).live.Sublist q.live ∧
      (∀ p, ((q.step c).sys.threads.tcbs p).tid = (q.sys.threads.tcbs p).tid) ∧
      (q.step c).sys.threads.task0 = q.sys.threads.task0 ∧ (q.step c).sys.threads.tid = q.sys.threads.tid := by
  obtain hkept | ⟨p, -, hkept⟩ := step_kept h.linked h.heap hc
  · have hlive : (q.step c).live = q.live := by
      rw [Ids.step, not_freed_same hkept.heap, created_none hc, List.append_nil]
    refine ⟨⟨?_, ?_⟩, ?_, hkept.tids, hkept.task0, hkept.tid⟩
    · rw [hlive]
      exact hkept.linked
    · rw [hlive]
      exact hkept.heap
    · rw [hlive]
  · have hlive : (q.step c).live = q.live.erase p := by
      rw [Ids.step, not_freed_erase h.linked.nodup h.heap hkept.heap, created_none hc, List.append_nil]
    refine ⟨⟨?_, ?_⟩, ?_, hkept.tids, hkept.task0, hkept.tid⟩
    · rw [hlive]
      exact hkept.linked
    · rw [hlive]
      exact hkept.heap
    · rw [hlive]
      exact List.erase_sublist

/-- A call that creates one. -/
theorem Ids.Listed.created (h : q.Listed) {p tos : UInt32} (hfree : p = NULL ∨ p ∉ q.sys.threads.heap)
    (hc : Creates (.create p tos)) :
    (q.step (.create p tos)).Listed ∧ (q.step (.create p tos)).live = q.live ++ [p] ∧
      ((q.step (.create p tos)).sys.threads.tcbs p).tid = q.sys.threads.tid ∧
      (∀ a ∈ q.live, ((q.step (.create p tos)).sys.threads.tcbs a).tid = (q.sys.threads.tcbs a).tid) ∧
      (q.step (.create p tos)).sys.threads.task0 = q.sys.threads.task0 ∧
      (q.step (.create p tos)).sys.threads.tid = q.sys.threads.tid + 1 := by
  obtain ⟨htos, hp⟩ := hc
  have hnew : p ∉ q.live := fun hmem => hfree.resolve_left hp (h.heap.mem_iff.mpr hmem)
  obtain ⟨t, hcall, hcreated⟩ := sys_task_create_linked h.linked htos hp hnew
  have hstep : (q.sys.step (.create p tos)).threads = t := by
    rw [System.step, System.call, hcall]
    rfl
  have hlive : (q.step (.create p tos)).live = q.live ++ [p] := by
    rw [Ids.step, hstep, created_some hp hcall, not_freed, List.filter_eq_self.mpr]
    intro a ha
    simp [hcreated.heap, h.heap.mem_iff.mpr ha]
  have hthreads : (q.step (.create p tos)).sys.threads = t := hstep
  refine ⟨⟨?_, ?_⟩, hlive, ?_, fun a ha => ?_, ?_, ?_⟩
  · rw [hlive, hthreads]
    exact hcreated.linked
  · rw [hlive, hthreads, hcreated.heap]
    exact (h.heap.cons p).trans (List.perm_append_singleton p q.live).symm
  · rw [hthreads, hcreated.new]
    rfl
  · rw [hthreads, hcreated.old a ha]
  · rw [hthreads, hcreated.task0]
  · rw [hthreads, hcreated.tid]

theorem creates_create {c : Call} (hc : Creates c) : ∃ p tos, c = .create p tos := by
  cases c with
  | create p tos => exact ⟨p, tos, rfl⟩
  | install | exit | wait | yield => exact absurd hc id

theorem Ids.Listed.step (h : q.Listed) (henabled : q.Enabled c) : (q.step c).Listed := by
  by_cases hc : Creates c
  · obtain ⟨p, tos, rfl⟩ := creates_create hc
    exact (h.created henabled hc).1
  · exact (h.kept hc).1

/-- A step keeps the threads apart just if the thread that it creates, if any, gets a tid of
its own. -/
theorem Ids.Listed.step_identify (h : q.Listed) (hid : q.Identify) (henabled : q.Enabled c) :
    (q.step c).Identify ↔ q.FreshTid c := by
  obtain ⟨hnodup, hzero⟩ := h.identify_iff.mp hid
  by_cases hc : Creates c
  · obtain ⟨p, tos, rfl⟩ := creates_create hc
    obtain ⟨hlisted, hlive, htid, htids, htask0, -⟩ := h.created henabled hc
    have hmap : (q.live.map fun a => ((q.step (.create p tos)).sys.threads.tcbs a).tid) =
        q.live.map fun a => (q.sys.threads.tcbs a).tid := List.map_congr_left htids
    rw [hlisted.identify_iff, Ids.Distinct, hlive, List.map_append, hmap, List.map_singleton, htid, htask0]
    have hfresh : ((q.live.map fun a => (q.sys.threads.tcbs a).tid) ++ [q.sys.threads.tid]).Nodup ↔
        ∀ a ∈ q.live, (q.sys.threads.tcbs a).tid ≠ q.sys.threads.tid := by
      rw [List.nodup_append]
      simp [hnodup]
    have hfirst : (∀ a ∈ q.live ++ [p], ((q.step (.create p tos)).sys.threads.tcbs a).tid = 0 →
        a = q.sys.threads.task0) ↔ (q.sys.threads.tid = 0 → p = q.sys.threads.task0) := by
      constructor
      · intro hall hcounter
        exact hall p (List.mem_append_right _ (List.mem_singleton_self p)) (htid.trans hcounter)
      · intro hp a ha hzero'
        obtain ha | ha := List.mem_append.mp ha
        · exact hzero a ha ((htids a ha).symm.trans hzero')
        · rw [List.mem_singleton.mp ha] at hzero' ⊢
          exact hp (htid.symm.trans hzero')
    rw [hfresh, hfirst]
    exact ⟨fun hboth _ => hboth, fun hboth => hboth hc⟩
  · obtain ⟨hlisted, hsub, htids, htask0, -⟩ := h.kept hc
    have hfresh : q.FreshTid c := by
      cases c with
      | create p tos => exact fun hcreates => absurd hcreates hc
      | install | exit | wait | yield => trivial
    refine ⟨fun _ => hfresh, fun _ => hlisted.identify_iff.mpr ⟨?_, fun p hp hzero' => ?_⟩⟩
    · simp only [htids]
      exact (hsub.map _).nodup hnodup
    · rw [htask0]
      exact hzero p (hsub.subset hp) ((htids p).symm.trans hzero')

end Runs

theorem ids_boot_created (s : Threads) {p : UInt32} (hp : p ≠ NULL) :
    ∃ t, Created (initial s) t [] p NULL ∧ Ids.boot s p = ⟨⟨{ t with task0 := p }, []⟩, [p]⟩ := by
  obtain ⟨t, hcreated, hsys⟩ := boot_created s hp
  refine ⟨t, hcreated, ?_⟩
  rw [Ids.boot, hsys, List.filter_singleton]
  simp [hp]

theorem ids_boot_null (s : Threads) : Ids.boot s NULL = ⟨⟨{ initial s with task0 := NULL }, []⟩, []⟩ := by
  rw [Ids.boot, boot_null]
  rfl

theorem boot_listed (s : Threads) (p : UInt32) : (Ids.boot s p).Listed := by
  by_cases hp : p = NULL
  · rw [hp, ids_boot_null]
    exact ⟨⟨rfl, List.nodup_nil⟩, .nil⟩
  · obtain ⟨t, hcreated, hboot⟩ := ids_boot_created s hp
    rw [hboot]
    exact ⟨⟨hcreated.linked.chain, hcreated.linked.nodup⟩, hcreated.heap ▸ .refl _⟩

/-- `init_task` leaves `task0` with tid 0, or no thread if `kmalloc` returned NULL. -/
theorem boot_identify (s : Threads) (p : UInt32) : (Ids.boot s p).Identify := by
  rw [(boot_listed s p).identify_iff]
  by_cases hp : p = NULL
  · rw [hp, ids_boot_null]
    exact ⟨List.nodup_nil, fun a ha => absurd ha List.not_mem_nil⟩
  · obtain ⟨t, -, hboot⟩ := ids_boot_created s hp
    rw [hboot]
    exact ⟨List.nodup_singleton _, fun a ha _ => List.mem_singleton.mp ha⟩

/-- In every run from `init_task`, the threads are kept apart by their tids just if each thread
created gets a tid that no live thread has. -/
theorem ids_identify_iff (s : Threads) (p : UInt32) {acts : List Call}
    (hacts : AllSteps Ids.step Ids.Enabled (.boot s p) acts) :
    Always Ids.step Ids.Identify (.boot s p) acts ↔ AllSteps Ids.step Ids.FreshTid (.boot s p) acts :=
  always_iff_allSteps Ids.Listed Ids.Identify (fun _ _ h henabled => h.step henabled)
    (fun _ _ h hid henabled => h.step_identify hid henabled) (boot_listed s p) (boot_identify s p) hacts

/-- The counter is at `n`, and the live threads have tids below. -/
structure Counted (q : Ids) (n : Nat) : Prop where
  counter : q.sys.threads.tid = Int32.ofNat n
  below : ∀ p ∈ q.live, ∃ m < n, (q.sys.threads.tcbs p).tid = Int32.ofNat m

theorem ofNat_inj {m n : Nat} (hm : m < 2 ^ 32) (hn : n < 2 ^ 32) (heq : Int32.ofNat m = Int32.ofNat n) : m = n := by
  have hnat := congrArg (fun k : Int32 => k.toUInt32.toNat) heq
  simp only [Int32.toUInt32_ofNat', UInt32.toNat_ofNat'] at hnat
  rwa [Nat.mod_eq_of_lt hm, Nat.mod_eq_of_lt hn] at hnat

theorem ofNat_ne_zero {k : Nat} (hpos : 0 < k) (hlt : k < 2 ^ 32) : Int32.ofNat k ≠ 0 :=
  fun hzero => absurd (ofNat_inj hlt (by decide : 0 < 2 ^ 32) hzero) (Nat.ne_of_gt hpos)

theorem Counted.step {q : Ids} {n : Nat} (h : Counted q n) (hlisted : q.Listed) {c : Call} (henabled : q.Enabled c) :
    ∃ m ≤ n + 1, n ≤ m ∧ Counted (q.step c) m := by
  by_cases hc : Creates c
  · obtain ⟨p, tos, rfl⟩ := creates_create hc
    obtain ⟨-, hlive, hnew, hold, -, hcounter⟩ := hlisted.created henabled hc
    refine ⟨n + 1, Nat.le_refl _, Nat.le_succ n, ?_, fun a ha => ?_⟩
    · rw [hcounter, h.counter, Int32.ofNat_add]
      rfl
    · rw [hlive] at ha
      obtain ha | ha := List.mem_append.mp ha
      · obtain ⟨m, hm, htid⟩ := h.below a ha
        exact ⟨m, Nat.lt_succ_of_lt hm, (hold a ha).trans htid⟩
      · rw [List.mem_singleton.mp ha]
        exact ⟨n, Nat.lt_succ_self n, hnew.trans h.counter⟩
  · obtain ⟨-, hsub, htids, -, hcounter⟩ := hlisted.kept hc
    refine ⟨n, Nat.le_succ n, Nat.le_refl n, hcounter.trans h.counter, fun a ha => ?_⟩
    obtain ⟨m, hm, htid⟩ := h.below a (hsub.subset ha)
    exact ⟨m, hm, (htids a).trans htid⟩

/-- As long as the counter has not wrapped, it is at no tid in use. -/
theorem Counted.fresh {q : Ids} {n : Nat} (h : Counted q n) (hpos : 0 < n) (hlt : n < 2 ^ 32) (c : Call) :
    q.FreshTid c := by
  cases c with
  | create p tos =>
    refine fun _ => ⟨fun a ha heq => ?_, fun hzero => absurd (h.counter.symm.trans hzero) (ofNat_ne_zero hpos hlt)⟩
    obtain ⟨m, hm, htid⟩ := h.below a ha
    have hsame : Int32.ofNat m = Int32.ofNat n := by rw [← htid, heq, h.counter]
    exact absurd (ofNat_inj (hm.trans hlt) hlt hsame) (Nat.ne_of_lt hm)
  | install | exit | wait | yield => trivial

theorem Counted.run {q : Ids} {n : Nat} (h : Counted q n) (hlisted : q.Listed) (hpos : 0 < n) {acts : List Call}
    (hfew : n + acts.length ≤ 2 ^ 32) (hacts : AllSteps Ids.step Ids.Enabled q acts) :
    AllSteps Ids.step Ids.FreshTid q acts := by
  induction acts generalizing q n with
  | nil => trivial
  | cons c acts ih =>
    rw [List.length_cons] at hfew
    obtain ⟨m, hle, hge, hm⟩ := h.step hlisted hacts.1
    exact ⟨h.fresh hpos (by omega) c, ih hm (hlisted.step hacts.1) (by omega) (by omega) hacts.2⟩

/-- So the threads are kept apart in every run of less than `2 ^ 32` calls that starts with
memory for `task0`. -/
theorem identify_of_few (s : Threads) {p : UInt32} (hp : p ≠ NULL) {acts : List Call}
    (hacts : AllSteps Ids.step Ids.Enabled (.boot s p) acts) (hfew : acts.length < 2 ^ 32) :
    Always Ids.step Ids.Identify (.boot s p) acts := by
  have hcounted : Counted (.boot s p) 1 := by
    obtain ⟨t, hcreated, hboot⟩ := ids_boot_created s hp
    rw [hboot]
    refine ⟨hcreated.tid, fun a ha => ⟨0, Nat.one_pos, ?_⟩⟩
    rw [List.mem_singleton.mp ha]
    exact congrArg tcb.tid hcreated.new
  have hfresh := hcounted.run (boot_listed s p) Nat.one_pos (by omega) hacts
  exact (always_iff_allSteps Ids.Listed Ids.Identify (fun _ _ h henabled => h.step henabled)
    (fun _ _ h hid henabled => h.step_identify hid henabled) (boot_listed s p) (boot_identify s p) hacts).mpr hfresh

/-- `task0` is the only thread, and the counter is at `k`. -/
structure Idle (q : Ids) (k : Nat) : Prop where
  listed : q.Listed
  agrees : q.sys.Agrees [0xc1000000]
  tid : (q.sys.threads.tcbs 0xc1000000).tid = 0
  counter : q.sys.threads.tid = Int32.ofNat k

/-- A thread is created, exits, and `task0` waits for it. -/
def one_round (tid : Int32) : List Call :=
  [.create 0xc1001000 0, .install 0xc1001000, .exit 0, .install 0xc1000000, .wait 0xc1000f00 tid]

def rounds (k : Nat) : Nat → List Call
  | 0 => []
  | n + 1 => one_round (Int32.ofNat k) ++ rounds (k + 1) n

theorem Ids.Listed.live_eq {q : Ids} (h : q.Listed) {nodes : List UInt32} (hagrees : q.sys.Agrees nodes) :
    q.live = nodes :=
  h.linked.chain.unique hagrees.holds.chain

/-- Beside `task0` there is the thread with tid `k`, the last one created. -/
structure Paired (q : Ids) (k : Nat) : Prop where
  listed : q.Listed
  agrees : q.sys.Agrees [0xc1000000, 0xc1001000]
  first : (q.sys.threads.tcbs 0xc1000000).tid = 0
  second : (q.sys.threads.tcbs 0xc1001000).tid = Int32.ofNat k
  counter : q.sys.threads.tid = Int32.ofNat (k + 1)

section Round

variable {q : Ids} {k : Nat}

theorem Idle.free (h : Idle q k) : (0xc1001000 : UInt32) ∉ q.sys.threads.heap := by
  rw [h.agrees.holds.heap.mem_iff]
  decide

theorem creates_second : Creates (.create 0xc1001000 0) := by
  constructor <;> decide

theorem Idle.create (h : Idle q k) : Paired (q.step (.create 0xc1001000 0)) k := by
  obtain ⟨hlisted, hlive, hnew, hold, -, hcounter⟩ := h.listed.created (.inr h.free) creates_second
  have hfirst := h.listed.live_eq h.agrees
  rw [hfirst, List.singleton_append] at hlive
  refine ⟨hlisted, ?_, ?_, hnew.trans h.counter, ?_⟩
  · obtain hsame | hadded := h.agrees.created (.inr h.free) 0
    · have hsame' : (q.step (.create 0xc1001000 0)).sys.Agrees [0xc1000000] := hsame
      rw [hlisted.live_eq hsame'] at hlive
      cases hlive
    · exact hadded
  · rw [hold _ (hfirst ▸ List.mem_singleton_self _), h.tid]
  · rw [hcounter, h.counter]
    exact (Int32.ofNat_add k 1).symm

/-- A call that creates no thread and reaps none. -/
theorem Paired.kept (h : Paired q k) {c : Call} (hc : ¬ Creates c)
    (hagrees : (q.step c).sys.Agrees [0xc1000000, 0xc1001000]) : Paired (q.step c) k := by
  obtain ⟨hlisted, -, htids, -, hcounter⟩ := h.listed.kept hc
  exact ⟨hlisted, hagrees, (htids _).trans h.first, (htids _).trans h.second, hcounter.trans h.counter⟩

theorem Paired.install (h : Paired q k) {p : UInt32} (hp : p ∈ [0xc1000000, 0xc1001000]) :
    Paired (q.step (.install p)) k :=
  h.kept id (h.agrees.installed hp)

theorem Paired.exit (h : Paired q k) (hrun : q.sys.threads.g_task_running = 0xc1001000) :
    Paired (q.step (.exit 0)) k ∧
      ((q.step (.exit 0)).sys.threads.tcbs 0xc1001000).state = TASK_STATE_ZOMBIE := by
  have hin : q.sys.threads.g_task_running ∈ [0xc1000000, 0xc1001000] := by
    rw [hrun]
    simp
  refine ⟨h.kept id (h.agrees.exited hin 0), ?_⟩
  obtain ⟨t, hexit, -, -, htcbs⟩ := sys_task_exit_spec h.agrees.holds hin 0
  have hthreads : (q.step (.exit 0)).sys.threads = t := by
    rw [Ids.step, System.step, System.call, hexit]
    rfl
  rw [hthreads, htcbs, hrun, Function.update_self]

theorem Paired.get_task_eq (h : Paired q k) (hk : Int32.ofNat k ≠ 0) :
    get_task q.sys.threads (Int32.ofNat k) = some 0xc1001000 := by
  obtain ⟨-, hnone⟩ | ⟨p, hp, hget, htid⟩ := get_task_spec h.agrees.holds.toLinked (Int32.ofNat k)
  · exact absurd h.second (hnone _ (by simp))
  · have hne : p ≠ 0xc1000000 := by
      rintro rfl
      exact hk (htid.symm.trans h.first)
    rw [hget, List.mem_singleton.mp ((List.mem_cons.mp hp).resolve_left hne)]

theorem Paired.wait (h : Paired q k) (hk : Int32.ofNat k ≠ 0) (hrun : q.sys.threads.g_task_running = 0xc1000000)
    (hdead : (q.sys.threads.tcbs 0xc1001000).state = TASK_STATE_ZOMBIE) :
    Idle (q.step (.wait 0xc1000f00 (Int32.ofNat k))) (k + 1) := by
  have hnot : ¬ Creates (.wait 0xc1000f00 (Int32.ofNat k)) := id
  obtain ⟨hlisted, -, htids, -, hcounter⟩ := h.listed.kept hnot
  refine ⟨hlisted, ?_, (htids _).trans h.first, hcounter.trans h.counter⟩
  have hin : q.sys.threads.g_task_running ∈ [0xc1000000, 0xc1001000] := by
    rw [hrun]
    simp
  obtain ⟨-, hget⟩ | ⟨p, hp, hget, -, code, t, hcall, hreaped⟩ :=
    sys_task_wait_spec h.agrees.holds hin 0xc1000f00 (Int32.ofNat k)
  · rw [h.get_task_eq hk] at hget
    exact absurd (Option.some.inj hget) (by decide)
  · rw [h.get_task_eq hk] at hget
    obtain rfl := Option.some.inj hget
    have hother : (0xc1001000 : UInt32) ≠ q.sys.threads.g_task_running := by
      rw [hrun]
      decide
    have hsys : (q.step (.wait 0xc1000f00 (Int32.ofNat k))).sys = { q.sys with threads := t } := step_wait hcall
    rw [hsys]
    exact reaped_agrees h.agrees hreaped hdead hother

theorem Idle.round (h : Idle q k) (hk : Int32.ofNat k ≠ 0) :
    AllSteps Ids.step Ids.Enabled q (one_round (Int32.ofNat k)) ∧
      Idle (exec Ids.step q (one_round (Int32.ofNat k))) (k + 1) := by
  have hfirst : (0xc1000000 : UInt32) ∈ [0xc1000000, 0xc1001000] := by
    simp
  have hsecond : (0xc1001000 : UInt32) ∈ [0xc1000000, 0xc1001000] := by
    simp
  have hcreated := h.create
  have hinstalled := hcreated.install hsecond
  obtain ⟨hexited, hdead⟩ := hinstalled.exit rfl
  have hback := hexited.install hfirst
  refine ⟨⟨.inr h.free, ?_, ?_, ?_, trivial, trivial⟩, hback.wait hk rfl hdead⟩
  · exact hcreated.agrees.holds.heap.mem_iff.mpr hsecond
  · exact hinstalled.agrees.holds.chain.ne_null hsecond
  · exact hexited.agrees.holds.heap.mem_iff.mpr hfirst

end Round

theorem Idle.rounds {q : Ids} {k n : Nat} (h : Idle q k) (hpos : 0 < k) (hlt : k + n ≤ 2 ^ 32) :
    AllSteps Ids.step Ids.Enabled q (rounds k n) ∧ Idle (exec Ids.step q (rounds k n)) (k + n) := by
  induction n generalizing q k with
  | zero => exact ⟨trivial, h⟩
  | succ n ih =>
    obtain ⟨hsteps, hidle⟩ := h.round (ofNat_ne_zero hpos (by omega))
    obtain ⟨hsteps', hidle'⟩ := ih hidle (Nat.succ_pos k) (by omega)
    have hsum : k + 1 + n = k + (n + 1) := by omega
    rw [epos.thread.rounds, exec_append]
    exact ⟨hsteps.append hsteps', hsum ▸ hidle'⟩

theorem boot_idle : Idle (.boot blank 0xc1000000) 1 := by
  have hlisted := boot_listed blank 0xc1000000
  obtain ⟨nodes, hagrees⟩ := boot_invariant blank 0xc1000000
  have hlive : (Ids.boot blank 0xc1000000).live = [0xc1000000] := by
    decide +kernel
  have hnodes : nodes = [0xc1000000] := (hlisted.live_eq hagrees).symm.trans hlive
  refine ⟨hlisted, hnodes ▸ hagrees, ?_, ?_⟩
  · decide +kernel
  · decide +kernel

/-- Two threads are created beside `task0`, and the three have tids of their own. -/
theorem ids_identify_two : Always Ids.step Ids.Identify (.boot blank 0xc1000000)
    [.create 0xc1001000 0, .install 0xc1001000, .create 0xc1002000 0] :=
  (ids_identify_iff blank 0xc1000000 (by decide +kernel)).mpr (by decide +kernel)

/-- When `2 ^ 32 - 1` threads have come and gone, the next one has the tid of `task0`. -/
theorem tid_repeats : ∃ acts, AllSteps Ids.step Ids.Enabled (.boot blank 0xc1000000) acts ∧
    ¬ Always Ids.step Ids.Identify (.boot blank 0xc1000000) acts := by
  obtain ⟨n, hn⟩ : ∃ n, 1 + n = 2 ^ 32 := ⟨2 ^ 32 - 1, rfl⟩
  obtain ⟨hsteps, hidle⟩ := boot_idle.rounds Nat.one_pos (Nat.le_of_eq hn)
  obtain ⟨q, hq⟩ : ∃ q, q = exec Ids.step (.boot blank 0xc1000000) (rounds 1 n) := ⟨_, rfl⟩
  rw [← hq, hn] at hidle
  refine ⟨rounds 1 n ++ [.create 0xc1001000 0], hsteps.append ⟨hq ▸ .inr hidle.free, trivial⟩, fun halways => ?_⟩
  have hlast := halways.exec
  rw [exec_append, ← hq] at hlast
  obtain ⟨-, hlive, hnew, hold, -⟩ := hidle.listed.created (.inr hidle.free) creates_second
  have hdistinct : (((q.step (.create 0xc1001000 0)).live).map fun p =>
      ((q.step (.create 0xc1001000 0)).sys.threads.tcbs p).tid).Nodup := hlast.distinct
  have hwrapped : Int32.ofNat (2 ^ 32) = 0 := rfl
  have hfirst := hidle.listed.live_eq hidle.agrees
  rw [hlive, hfirst, List.singleton_append, List.map_cons, List.map_singleton, hnew, hidle.counter, hwrapped,
    hold _ (hfirst ▸ List.mem_singleton_self _), hidle.tid] at hdistinct
  exact absurd hdistinct (by decide)

end epos.thread
