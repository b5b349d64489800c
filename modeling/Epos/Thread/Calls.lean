import Epos.Thread.Lists

open chains
open epos.page (NULL)

namespace epos.thread

/-- A field of the threads that a write to one of them keeps. -/
theorem set_tcb_same {α : Type} (field : tcb → α) {s : Threads} {p : UInt32} {tsk : tcb}
    (hfield : field tsk = field (s.tcbs p)) (q : UInt32) :
    field ((s.set_tcb p tsk).tcbs q) = field (s.tcbs q) := by
  by_cases hq : q = p
  · subst hq
    rw [set_tcb_self, hfield]
  · rw [set_tcb_of_ne s hq]

/-- The links and queues of the threads in the list, and what is allocated, stay. -/
theorem Threads.Holds.congr {s t : Threads} {nodes : List UInt32} (h : s.Holds nodes)
    (hhead : t.g_task_head = s.g_task_head) (hheap : t.heap = s.heap) (hnext : ∀ p ∈ nodes, t.next p = s.next p)
    (hqueue : ∀ p ∈ nodes, (t.tcbs p).wq_exit = (s.tcbs p).wq_exit) : t.Holds nodes := by
  refine ⟨⟨?_, h.nodup⟩, hheap ▸ h.heap, fun p hp => (hqueue p hp).trans (h.queue p hp)⟩
  rw [hhead]
  exact h.chain.congr hnext

section Specs

variable {s : Threads} {nodes : List UInt32}

/-- The state in which `sleep_on(&p->wq_exit)` calls `schedule`: its node is the head of
the queue, before those that were there. -/
structure Entered (s t : Threads) (wait p : UInt32) : Prop where
  next : t.next = s.next
  head : t.g_task_head = s.g_task_head
  running : t.g_task_running = s.g_task_running
  task0 : t.task0 = s.task0
  heap : t.heap = s.heap
  tid : t.tid = s.tid
  tids : ∀ q, (t.tcbs q).tid = (s.tcbs q).tid
  waits : t.waits = Function.update s.waits wait ⟨s.g_task_running, (s.tcbs p).wq_exit⟩
  first : (t.tcbs p).wq_exit = wait
  others : ∀ q, q ≠ p → (t.tcbs q).wq_exit = (s.tcbs q).wq_exit
  live : ∀ q, (s.tcbs q).state ≠ TASK_STATE_ZOMBIE → (t.tcbs q).state ≠ TASK_STATE_ZOMBIE

theorem sleep_on_enter_spec (s : Threads) (wait p : UInt32) : Entered s (sleep_on_enter s wait p) wait p := by
  obtain ⟨s₁, hs₁⟩ : ∃ s₁ : Threads, s₁ =
      { s with waits := Function.update s.waits wait ⟨s.g_task_running, (s.tcbs p).wq_exit⟩ } := ⟨_, rfl⟩
  obtain ⟨s₂, hs₂⟩ : ∃ s₂, s₂ = s₁.set_tcb p { s₁.tcbs p with wq_exit := wait } := ⟨_, rfl⟩
  obtain ⟨s₃, hs₃⟩ : ∃ s₃, s₃ = s₂.set_tcb s₂.g_task_running
      { s₂.tcbs s₂.g_task_running with state := TASK_STATE_WAITING } := ⟨_, rfl⟩
  have henter : sleep_on_enter s wait p = s₃ := by
    rw [hs₃, hs₂, hs₁]
    rfl
  have hkept : s₃.g_task_head = s.g_task_head ∧ s₃.g_task_running = s.g_task_running ∧ s₃.task0 = s.task0 ∧
      s₃.heap = s.heap ∧ s₃.tid = s.tid ∧ s₁.tcbs = s.tcbs ∧ s₃.waits = s₁.waits := by
    rw [hs₃, hs₂, hs₁]
    exact ⟨rfl, rfl, rfl, rfl, rfl, rfl, rfl⟩
  obtain ⟨hhead, hrunning, htask0, hheap, htid, htcbs, hwaits⟩ := hkept
  have hnext₂ : s₂.next = s₁.next := hs₂ ▸ set_tcb_same_next rfl
  have hnext₃ : s₃.next = s₂.next := hs₃ ▸ set_tcb_same_next rfl
  have hqueue₃ : ∀ q, (s₃.tcbs q).wq_exit = (s₂.tcbs q).wq_exit := hs₃ ▸ set_tcb_same tcb.wq_exit rfl
  have htids₂ : ∀ q, (s₂.tcbs q).tid = (s₁.tcbs q).tid := hs₂ ▸ set_tcb_same tcb.tid rfl
  have htids₃ : ∀ q, (s₃.tcbs q).tid = (s₂.tcbs q).tid := hs₃ ▸ set_tcb_same tcb.tid rfl
  have hstate₂ : ∀ q, (s₂.tcbs q).state = (s₁.tcbs q).state := hs₂ ▸ set_tcb_same tcb.state rfl
  rw [henter]
  refine ⟨?_, hhead, hrunning, htask0, hheap, htid, fun q => ?_, ?_, ?_, fun q hq => ?_, fun q hlive => ?_⟩
  · rw [hnext₃, hnext₂, hs₁]
    rfl
  · rw [htids₃, htids₂, htcbs]
  · rw [hwaits, hs₁]
  · rw [hqueue₃, hs₂, set_tcb_self]
  · rw [hqueue₃, hs₂, set_tcb_of_ne s₁ hq, htcbs]
  · by_cases hself : q = s₂.g_task_running
    · have hwaiting : TASK_STATE_WAITING ≠ TASK_STATE_ZOMBIE := by decide
      rw [hs₃, hself, set_tcb_self]
      exact hwaiting
    · rw [hs₃, set_tcb_of_ne s₂ hself, hstate₂, htcbs]
      exact hlive

/-- `sleep_on` comes back at once, with the queue as it was, and a thread that is
waited for is no more dead than before. -/
theorem sleep_on_spec (h : s.Holds nodes) (hrun : s.g_task_running ∈ nodes) (wait : UInt32) {p : UInt32}
    (hp : p ∈ nodes) (hlive : (s.tcbs p).state ≠ TASK_STATE_ZOMBIE) :
    ∃ t, sleep_on s wait p = some t ∧ t.Holds nodes ∧ t.g_task_running = s.g_task_running ∧
      t.task0 = s.task0 ∧ (t.tcbs p).state ≠ TASK_STATE_ZOMBIE := by
  have hentered := sleep_on_enter_spec s wait p
  obtain ⟨s₁, hs₁⟩ : ∃ s₁, s₁ = sleep_on_enter s wait p := ⟨_, rfl⟩
  rw [← hs₁] at hentered
  have hlinked : s₁.Linked nodes := by
    refine ⟨?_, h.nodup⟩
    rw [hentered.next, hentered.head]
    exact h.chain
  obtain ⟨g_resched, hschedule⟩ := schedule_spec hlinked (hentered.running ▸ hrun)
  obtain ⟨s₂, hs₂⟩ : ∃ s₂ : Threads, s₂ = { s₁ with g_resched } := ⟨_, rfl⟩
  obtain ⟨t, ht⟩ : ∃ t, t = s₂.set_tcb p { s₂.tcbs p with wq_exit := NULL } := ⟨_, rfl⟩
  have htcbs : s₂.tcbs = s₁.tcbs := by rw [hs₂]
  have hwaits : s₂.waits = s₁.waits := by rw [hs₂]
  have hrest : (s₂.waits wait).next = NULL := by
    rw [hwaits, hentered.waits, Function.update_self]
    exact h.queue p hp
  have hcall : sleep_on s wait p = some t := by
    rw [sleep_on, ← hs₁, hschedule, Option.bind_some, ← hs₂, sleep_on_leave, htcbs, if_pos hentered.first, hrest,
      ht, htcbs]
  have hnext : t.next = s₁.next := by
    have hlast : t.next = s₂.next := ht ▸ set_tcb_same_next rfl
    rw [hlast, hs₂]
    rfl
  have hkept : t.g_task_head = s₁.g_task_head ∧ t.heap = s₁.heap ∧ t.g_task_running = s₁.g_task_running ∧
      t.task0 = s₁.task0 := by
    rw [ht, hs₂]
    exact ⟨rfl, rfl, rfl, rfl⟩
  obtain ⟨hhead, hheap, hrunning, htask0⟩ := hkept
  refine ⟨t, hcall, h.congr (hhead.trans hentered.head) (hheap.trans hentered.heap) (fun q _ => ?_)
    (fun q hq => ?_), hrunning.trans hentered.running, htask0.trans hentered.task0, ?_⟩
  · exact congrFun (hnext.trans hentered.next) q
  · by_cases hself : q = p
    · rw [hself, ht, set_tcb_self, h.queue p hp]
    · rw [ht, set_tcb_of_ne s₂ hself, htcbs]
      exact hentered.others q hself
  · rw [ht, set_tcb_self, htcbs]
    exact hentered.live p hlive

/-- `sys_task_exit` leaves its caller dead, with the code, and running. -/
theorem sys_task_exit_spec (h : s.Holds nodes) (hrun : s.g_task_running ∈ nodes) (code_exit : Int32) :
    ∃ t, sys_task_exit s code_exit = some t ∧ t.Holds nodes ∧ t.g_task_running = s.g_task_running ∧
      t.tcbs = Function.update s.tcbs s.g_task_running
        { s.tcbs s.g_task_running with code_exit, state := TASK_STATE_ZOMBIE } := by
  obtain ⟨s₁, hs₁⟩ : ∃ s₁, s₁ = s.set_tcb s.g_task_running
      { s.tcbs s.g_task_running with code_exit, state := TASK_STATE_ZOMBIE } := ⟨_, rfl⟩
  have hnext : s₁.next = s.next := hs₁ ▸ set_tcb_same_next rfl
  have hqueue : ∀ q, (s₁.tcbs q).wq_exit = (s.tcbs q).wq_exit := hs₁ ▸ set_tcb_same tcb.wq_exit rfl
  obtain ⟨fpu, hexit⟩ : ∃ fpu, sys_task_exit s code_exit = schedule { s₁ with g_task_own_fpu := fpu } := by
    have hcall : sys_task_exit s code_exit =
        schedule (if s₁.g_task_own_fpu = s₁.g_task_running then { s₁ with g_task_own_fpu := NULL } else s₁) := by
      rw [sys_task_exit, wake_up_spec (h.queue _ hrun), Option.bind_some, hs₁]
      simp only [Threads.set_tcb, Function.update_self, Function.update_idem]
      rfl
    rw [hcall]
    split
    · exact ⟨NULL, rfl⟩
    · exact ⟨s₁.g_task_own_fpu, rfl⟩
  have hhead : s₁.g_task_head = s.g_task_head := by
    rw [hs₁]
    rfl
  have hrunning : s₁.g_task_running = s.g_task_running := by
    rw [hs₁]
    rfl
  have hlinked : { s₁ with g_task_own_fpu := fpu }.Linked nodes := by
    refine ⟨?_, h.nodup⟩
    have hchain := h.chain
    rw [← hnext, ← hhead] at hchain
    exact hchain
  obtain ⟨g_resched, hschedule⟩ := schedule_spec hlinked (hrunning ▸ hrun)
  refine ⟨_, hexit.trans hschedule, h.congr hhead ?_ (fun q _ => congrFun hnext q) (fun q _ => hqueue q),
    hrunning, ?_⟩
  · rw [hs₁]
    rfl
  · rw [hs₁]
    rfl

/-- A `sys_task_create` that succeeds puts a new thread at the end of the list. -/
structure Created (s t : Threads) (nodes : List UInt32) (p tos : UInt32) : Prop where
  linked : t.Linked (nodes ++ [p])
  heap : t.heap = p :: s.heap
  running : t.g_task_running = s.g_task_running
  task0 : t.task0 = s.task0
  tid : t.tid = s.tid + 1
  new : t.tcbs p = { new_tcb p tos s.tid with next := t.next p }
  old : ∀ q ∈ nodes, t.tcbs q = { s.tcbs q with next := t.next q }

theorem sys_task_create_linked (h : s.Linked nodes) {p tos : UInt32} (htos : tos &&& 3 = 0) (hp : p ≠ NULL)
    (hnew : p ∉ nodes) : ∃ t, sys_task_create s p tos = some (p, t) ∧ Created s t nodes p tos := by
  obtain ⟨s₁, hs₁⟩ : ∃ s₁ : Threads, s₁ =
      { s.set_tcb p (new_tcb p tos s.tid) with tid := s.tid + 1, heap := p :: s.heap } := ⟨_, rfl⟩
  have htcbs : s₁.tcbs = Function.update s.tcbs p (new_tcb p tos s.tid) := by
    rw [hs₁]
    rfl
  have hold : ∀ q ∈ nodes, s₁.tcbs q = s.tcbs q := by
    intro q hq
    rw [htcbs, Function.update_of_ne (ne_of_mem_of_not_mem hq hnew)]
  have hself : s₁.tcbs p = new_tcb p tos s.tid := by
    rw [htcbs, Function.update_self]
  have hkept : s₁.heap = p :: s.heap ∧ s₁.g_task_running = s.g_task_running ∧ s₁.task0 = s.task0 ∧
      s₁.tid = s.tid + 1 ∧ s₁.g_task_head = s.g_task_head := by
    rw [hs₁]
    exact ⟨rfl, rfl, rfl, rfl, rfl⟩
  obtain ⟨hheap, hrunning, htask0, htid, hhead⟩ := hkept
  have hlinked : s₁.Linked nodes := by
    refine ⟨?_, h.nodup⟩
    rw [hhead]
    exact h.chain.congr fun q hq => congrArg tcb.next (hold q hq)
  obtain ⟨t, hadd, hrelinked, hlinked'⟩ := add_task_spec hlinked hp hnew (congrArg tcb.next hself)
  have hcall : (add_task s₁ p).map (fun s => (p, s)) = some (p, t) := by rw [hadd, Option.map_some]
  refine ⟨t, ?_, hlinked', hrelinked.heap.trans hheap, hrelinked.running.trans hrunning,
    hrelinked.task0.trans htask0, hrelinked.tid.trans htid, ?_, fun q hq => ?_⟩
  · rw [sys_task_create, if_neg (not_not.mpr htos), if_neg hp, ← hs₁]
    exact hcall
  · rw [hrelinked.tcbs, hself]
  · rw [hrelinked.tcbs, hold q hq]

/-- Otherwise it does nothing. -/
theorem sys_task_create_failed {p tos : UInt32} (hfail : ¬ (tos &&& 3 = 0 ∧ p ≠ NULL)) :
    sys_task_create s p tos = some (NULL, s) := by
  rw [sys_task_create]
  by_cases htos : tos &&& 3 = 0
  · have hnull : p = NULL := not_not.mp fun hp => hfail ⟨htos, hp⟩
    rw [if_neg (not_not.mpr htos), if_pos hnull]
  · rw [if_pos htos]

/-- `sys_task_create` adds a thread that is ready, or changes nothing. -/
theorem sys_task_create_spec (h : s.Holds nodes) {p : UInt32} (hp : p = NULL ∨ p ∉ s.heap) (tos : UInt32) :
    ∃ r t, sys_task_create s p tos = some (r, t) ∧
      (t = s ∨ t.Holds (nodes ++ [p]) ∧ t.g_task_running = s.g_task_running ∧
        (t.tcbs p).state = TASK_STATE_READY ∧
        ∀ q ∈ nodes, t.tcbs q = { s.tcbs q with next := t.next q }) := by
  by_cases hok : tos &&& 3 = 0 ∧ p ≠ NULL
  · obtain ⟨htos, hnull⟩ := hok
    have hnew : p ∉ nodes := fun hmem => hp.resolve_left hnull (h.heap.mem_iff.mpr hmem)
    obtain ⟨t, hcall, hcreated⟩ := sys_task_create_linked h.toLinked htos hnull hnew
    refine ⟨p, t, hcall, .inr ⟨⟨hcreated.linked, ?_, fun q hq => ?_⟩, hcreated.running, ?_, hcreated.old⟩⟩
    · rw [hcreated.heap]
      exact (h.heap.cons p).trans (List.perm_append_singleton p nodes).symm
    · obtain hq | hq := List.mem_append.mp hq
      · rw [hcreated.old q hq]
        exact h.queue q hq
      · rw [List.mem_singleton.mp hq, hcreated.new]
        rfl
    · rw [hcreated.new]
      rfl
  · exact ⟨NULL, s, sys_task_create_failed hok, .inl rfl⟩

/-- The end of `sys_task_wait`. -/
theorem reap_spec (h : s.Holds nodes) {p : UInt32} (hp : p ∈ nodes) :
    ∃ t, remove_task s p = some t ∧ (kfree t p).Holds (nodes.erase p) ∧
      (kfree t p).g_task_running = s.g_task_running ∧ (kfree t p).task0 = s.task0 ∧
      ∀ q, (kfree t p).tcbs q = { s.tcbs q with next := (kfree t p).next q } := by
  obtain ⟨t, hremove, hrelinked, hlinked⟩ := remove_task_spec h.toLinked hp
  refine ⟨t, hremove, ⟨⟨hlinked.chain, hlinked.nodup⟩, ?_, fun q hq => ?_⟩, hrelinked.running, hrelinked.task0,
    hrelinked.tcbs⟩
  · have hheap : (kfree t p).heap = s.heap.erase p := by rw [← hrelinked.heap]; rfl
    rw [hheap]
    exact h.heap.erase p
  · have hq' := List.mem_of_mem_erase hq
    exact (congrArg tcb.wq_exit (hrelinked.tcbs q)).trans (h.queue q hq')

/-- The thread `p` is reaped, dead or not, and `code` is stored. -/
structure Reaped (s t : Threads) (nodes : List UInt32) (p : UInt32) (code : Int32) : Prop where
  holds : t.Holds (nodes.erase p)
  running : t.g_task_running = s.g_task_running
  task0 : t.task0 = s.task0
  live : (s.tcbs p).state ≠ TASK_STATE_ZOMBIE → (t.tcbs p).state ≠ TASK_STATE_ZOMBIE
  dead : (s.tcbs p).state = TASK_STATE_ZOMBIE →
    code = (s.tcbs p).code_exit ∧ ∀ q, t.tcbs q = { s.tcbs q with next := t.next q }

/-- `sys_task_wait` fails, or reaps the thread that it finds. -/
theorem sys_task_wait_spec (h : s.Holds nodes) (hrun : s.g_task_running ∈ nodes) (wait : UInt32) (tid : Int32) :
    (sys_task_wait s wait tid = some (-1, none, s) ∧ get_task s tid = some NULL) ∨
      ∃ p ∈ nodes, get_task s tid = some p ∧ (s.tcbs p).tid = tid ∧
        ∃ code t, sys_task_wait s wait tid = some (0, some code, t) ∧ Reaped s t nodes p code := by
  have hrunning : s.g_task_running ≠ NULL := h.chain.ne_null hrun
  obtain ⟨hget, -⟩ | ⟨p, hp, hget, htid⟩ := get_task_spec h.toLinked tid
  · left
    refine ⟨?_, hget⟩
    rw [sys_task_wait, if_neg hrunning, hget]
    rfl
  · right
    have hne : p ≠ NULL := h.chain.ne_null hp
    refine ⟨p, hp, hget, htid, ?_⟩
    rw [sys_task_wait, if_neg hrunning, hget, Option.bind_some, if_neg hne]
    by_cases hdead : (s.tcbs p).state = TASK_STATE_ZOMBIE
    · obtain ⟨t, hremove, hholds, hsame, htask0, htcbs⟩ := reap_spec h hp
      rw [if_neg (not_not.mpr hdead), Option.bind_some]
      refine ⟨(s.tcbs p).code_exit, kfree t p, ?_, hholds, hsame, htask0, fun hlive => absurd hdead hlive,
        fun _ => ⟨rfl, htcbs⟩⟩
      rw [if_pos (h.queue p hp), hremove]
      rfl
    · obtain ⟨s', hsleep, hholds', hsame', htask0', hlive'⟩ := sleep_on_spec h hrun wait hp hdead
      obtain ⟨t, hremove, hholds, hsame, htask0, htcbs⟩ := reap_spec hholds' hp
      rw [if_pos hdead, hsleep, Option.bind_some]
      refine ⟨(s'.tcbs p).code_exit, kfree t p, ?_, hholds, hsame.trans hsame', htask0.trans htask0', fun _ => ?_,
        fun hdead' => absurd hdead' hdead⟩
      · rw [if_pos (hholds'.queue p hp), hremove]
        rfl
      · rw [htcbs]
        exact hlive'

end Specs

end epos.thread
