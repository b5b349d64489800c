import Epos.Lib.Run
import Epos.Thread.Calls
import Epos.Thread.Schedule

open chains runs
open epos.page (NULL loop_fuel chain_length_lt)

namespace epos.thread

/-- What `wake_up` does to the thread of one node. -/
def Threads.wake (s : Threads) (p : UInt32) : Threads :=
  let woken := (s.waits p).tsk
  s.set_tcb woken { s.tcbs woken with state := TASK_STATE_READY }

/-- The nodes whose fields `wake_up(&tsk->wq_exit, n)` accesses, in order. -/
def wake_up_nodes (s : Threads) (tsk : UInt32) (n : Int32) : Option (List UInt32) :=
  chains.walk NULL (fun p => (s.waits p).next)
    (fun _ p (t : List UInt32 × Int32) => if t.2 = 0 then .stop t.1 else .go (t.1 ++ [p], t.2 - 1))
    (fun _ t => t.1) loop_fuel NULL (s.tcbs tsk).wq_exit ([], n)

/-- The queue of `tsk` has the nodes given. -/
def Threads.Queue (s : Threads) (tsk : UInt32) (nodes : List UInt32) : Prop :=
  Chain NULL (fun p => (s.waits p).next) (s.tcbs tsk).wq_exit nodes

/-- The threads, and the calls of `sleep_on(&tsk->wq_exit)` that have entered and not yet
returned, the latest first, each by the address of its local `wait`. -/
structure Sleepers where
  threads : Threads
  calls : List UInt32

/-- What happens while calls of `sleep_on` wait for `schedule` to return; `other` is
whatever else the kernel does. -/
inductive QueueStep where
  | enter (wait : UInt32)
  | leave (wait : UInt32)
  | wake (n : Int32)
  | other (threads : Threads)

/-- A step; `none` if its search follows NULL or its loop never ends. -/
def Sleepers.call (tsk : UInt32) (q : Sleepers) : QueueStep → Option Sleepers
  | .enter wait => some ⟨sleep_on_enter q.threads wait tsk, wait :: q.calls⟩
  | .leave wait => (sleep_on_leave q.threads wait tsk).map fun threads => ⟨threads, q.calls.erase wait⟩
  | .wake n => (wake_up q.threads tsk n).map fun threads => ⟨threads, q.calls⟩
  | .other threads => some ⟨threads, q.calls⟩

def Sleepers.step (tsk : UInt32) (q : Sleepers) (a : QueueStep) : Sleepers := (q.call tsk a).getD q

/-- Calls in progress have locals of their own, which nothing else writes to. What a
call leaves of its stack may be written to. -/
def Sleepers.Enabled (tsk : UInt32) (q : Sleepers) : QueueStep → Prop
  | .enter wait => wait ≠ NULL ∧ wait ∉ q.calls
  | .leave wait => wait ∈ q.calls
  | .wake _ => True
  | .other threads => (threads.tcbs tsk).wq_exit = (q.threads.tcbs tsk).wq_exit ∧
      ∀ wait ∈ q.calls, threads.waits wait = q.threads.waits wait

instance Sleepers.decidableEnabled (tsk : UInt32) (q : Sleepers) : (a : QueueStep) → Decidable (q.Enabled tsk a)
  | .enter _ => instDecidableAnd
  | .leave wait => inferInstanceAs (Decidable (wait ∈ q.calls))
  | .wake _ => isTrue trivial
  | .other _ => @instDecidableAnd _ _ inferInstance (List.decidableBAll _ q.calls)

/-- The queue has the nodes of the calls in progress, each once. -/
structure Sleepers.Exact (tsk : UInt32) (q : Sleepers) : Prop where
  queue : q.threads.Queue tsk q.calls
  nodup : q.calls.Nodup

/-- The loop of a step ends, and a search does not follow NULL; a call that returns writes to
no node but those of calls in progress, and `wake_up` goes through no others and does no
more than wake their threads. -/
structure Sleepers.Harmless (tsk : UInt32) (q : Sleepers) (a : QueueStep) : Prop where
  returns : (q.call tsk a).isSome
  leaves : ∀ wait, a = .leave wait → ∀ p ∉ q.calls, (q.step tsk a).threads.waits p = q.threads.waits p
  wakes : ∀ n, a = .wake n → ∃ nodes, wake_up_nodes q.threads tsk n = some nodes ∧
    wake_up q.threads tsk n = some (nodes.foldl Threads.wake q.threads) ∧ ∀ p ∈ nodes, p ∈ q.calls

section Wake

@[simp] theorem wake_waits (s : Threads) (p : UInt32) : (s.wake p).waits = s.waits := rfl

theorem wake_wq_exit (s : Threads) (p q : UInt32) : ((s.wake p).tcbs q).wq_exit = (s.tcbs q).wq_exit := by
  have hkept : ∀ tsk : tcb, tsk.wq_exit = (s.tcbs (s.waits p).tsk).wq_exit →
      ((s.set_tcb (s.waits p).tsk tsk).tcbs q).wq_exit = (s.tcbs q).wq_exit :=
    fun _ hsame => set_tcb_same tcb.wq_exit hsame q
  exact hkept _ rfl

/-- What waking one thread keeps, waking several does. -/
theorem foldl_wake_same {α : Type} (field : Threads → α) (hfield : ∀ s p, field (s.wake p) = field s)
    (nodes : List UInt32) (s : Threads) : field (nodes.foldl Threads.wake s) = field s := by
  induction nodes generalizing s with
  | nil => rfl
  | cons p nodes ih => rw [List.foldl_cons, ih, hfield]

theorem foldl_wake_waits (nodes : List UInt32) (s : Threads) : (nodes.foldl Threads.wake s).waits = s.waits :=
  foldl_wake_same Threads.waits wake_waits nodes s

/-- `wake_up` wakes the threads of the nodes that it goes through. -/
theorem wake_up_eq (s : Threads) (tsk : UInt32) (n : Int32) :
    wake_up s tsk n = (wake_up_nodes s tsk n).map fun nodes => nodes.foldl Threads.wake s := by
  refine walk_map (fun t : List UInt32 × Int32 => (List.foldl Threads.wake s t.1, t.2))
    (fun nodes : List UInt32 => nodes.foldl Threads.wake s) (fun _ p t => ?_) (fun _ _ => rfl) loop_fuel NULL _ ([], n)
  by_cases hn : t.2 = 0
  · simp only [if_pos hn, Pass.map]
  · simp only [if_neg hn, Pass.map, List.foldl_append, List.foldl_cons, List.foldl_nil, Threads.wake,
      foldl_wake_waits]

end Wake

section Specs

variable {s : Threads} {tsk : UInt32} {nodes : List UInt32}

theorem Threads.Queue.length_lt (h : s.Queue tsk nodes) : nodes.length < loop_fuel :=
  chain_length_lt h (Chain.nodup h)

/-- A node is written as its link is. -/
theorem update_next (waits : UInt32 → wait_queue) (p : UInt32) (node : wait_queue) :
    (fun q => (Function.update waits p node q).next) = Function.update (fun q => (waits q).next) p node.next := by
  funext q
  by_cases hq : q = p
  · rw [hq, Function.update_self, Function.update_self]
  · rw [Function.update_of_ne hq, Function.update_of_ne hq]

theorem toNat_pred {m : Int32} (hm : m ≠ 0) : (m - 1).toUInt32.toNat + 1 = m.toUInt32.toNat := by
  have hne : m.toUInt32 ≠ 0 := fun h => hm (Int32.toInt32_toUInt32 m ▸ h ▸ rfl)
  have hpos : m.toUInt32.toNat ≠ 0 := fun h => hne (UInt32.toNat_inj.mp h)
  have hle : (1 : UInt32) ≤ m.toUInt32 := by
    rw [UInt32.le_iff_toNat_le, UInt32.toNat_one]
    omega
  rw [Int32.toUInt32_sub, Int32.toUInt32_ofNat, UInt32.toNat_sub_of_le _ _ hle, UInt32.toNat_one]
  omega

/-- `wake_up` goes through the first `n` nodes. A negative `n` counts down from `2 ^ 32 + n`. -/
theorem wake_up_nodes_eq (h : s.Queue tsk nodes) (n : Int32) :
    wake_up_nodes s tsk n = some (nodes.take n.toUInt32.toNat) := by
  obtain ⟨before, after, ⟨visited, m⟩, r, hsplit, ⟨hvisited, hcount⟩, hexit, hwalk⟩ := Chain.walk_rule h h.length_lt
    (fun _ p (t : List UInt32 × Int32) => if t.2 = 0 then .stop t.1 else .go (t.1 ++ [p], t.2 - 1))
    (fun _ t => t.1) (fun before t => t.1 = before ∧ t.2.toUInt32.toNat + before.length = n.toUInt32.toNat)
    NULL (⟨rfl, rfl⟩ : ([], n).1 = [] ∧ _) (by
      rintro before a after ⟨visited, m⟩ u - ⟨rfl, hcount⟩ hgo
      by_cases hm : m = 0
      · rw [if_pos hm] at hgo
        cases hgo
      · rw [if_neg hm] at hgo
        cases hgo
        have hpred := toNat_pred hm
        refine ⟨rfl, ?_⟩
        rw [List.length_append, List.length_singleton]
        simp only at hcount ⊢
        omega)
  subst hvisited
  rw [wake_up_nodes, hwalk]
  cases after with
  | nil =>
    obtain rfl : r = visited := hexit
    rw [List.append_nil] at hsplit
    rw [hsplit, List.take_of_length_le (by omega)]
  | cons a after =>
    simp only [Exit] at hexit
    split at hexit
    · next hm =>
      obtain rfl := Pass.stop.inj hexit
      obtain rfl : m = 0 := hm
      have hlength : n.toUInt32.toNat = visited.length := hcount.symm.trans (Nat.zero_add _)
      rw [hsplit, hlength, List.take_left]
    · cases hexit

/-- Waking threads keeps the queue. -/
theorem wake_up_queue (h : s.Queue tsk nodes) (n : Int32) :
    wake_up s tsk n = some ((nodes.take n.toUInt32.toNat).foldl Threads.wake s) ∧
      ((nodes.take n.toUInt32.toNat).foldl Threads.wake s).Queue tsk nodes := by
  constructor
  · rw [wake_up_eq, wake_up_nodes_eq h, Option.map_some]
  · have hhead : (((nodes.take n.toUInt32.toNat).foldl Threads.wake s).tcbs tsk).wq_exit = (s.tcbs tsk).wq_exit :=
      foldl_wake_same (fun s => (s.tcbs tsk).wq_exit) (fun s p => wake_wq_exit s p tsk) _ s
    rw [Threads.Queue, foldl_wake_waits, hhead]
    exact h

/-- A call that enters puts its node at the head. -/
theorem sleep_on_enter_queue (h : s.Queue tsk nodes) {wait : UInt32} (hne : wait ≠ NULL) (hnew : wait ∉ nodes) :
    (sleep_on_enter s wait tsk).Queue tsk (wait :: nodes) := by
  have hentered := sleep_on_enter_spec s wait tsk
  have hnext : (fun p => ((sleep_on_enter s wait tsk).waits p).next) =
      Function.update (fun p => (s.waits p).next) wait (s.tcbs tsk).wq_exit := by
    rw [hentered.waits]
    exact update_next ..
  rw [Threads.Queue, hentered.first, hnext]
  exact Chain.push h hne hnew

/-- The search of a node other than the first finds the one before it. -/
theorem find_wait_eq {next : UInt32 → UInt32} {p q wait : UInt32} {before after : List UInt32}
    (hchain : Chain NULL next p (before ++ q :: wait :: after)) (hnotin : wait ∉ before ++ [q]) {fuel : Nat}
    (hfuel : before.length < fuel) : find_wait next wait fuel p = some (some q) := by
  induction before generalizing p fuel with
  | nil =>
    obtain ⟨fuel, rfl⟩ := Nat.exists_eq_succ_of_ne_zero (Nat.ne_of_gt hfuel)
    obtain ⟨rfl, hne, hnext, -⟩ := hchain
    rw [find_wait, if_neg hne]
    exact if_pos hnext
  | cons b before ih =>
    obtain ⟨fuel, rfl⟩ := Nat.exists_eq_succ_of_ne_zero (Nat.ne_zero_of_lt hfuel)
    obtain ⟨rfl, hne, htail⟩ := hchain
    rw [List.cons_append, List.mem_cons, not_or] at hnotin
    have hin : next p ∈ before ++ [q] := by
      cases before with
      | nil =>
        rw [htail.1]
        exact List.mem_singleton_self q
      | cons c before =>
        rw [htail.1]
        exact List.mem_cons_self
    have hnull : next p ≠ NULL := by
      have hmem : next p ∈ (before ++ [q]) ++ wait :: after := List.mem_append_left _ hin
      rw [← List.append_cons] at hmem
      exact Chain.ne_null htail hmem
    have hwait : next p ≠ wait := ne_of_mem_of_not_mem hin hnotin.2
    rw [find_wait, if_neg hne]
    simp only [if_neg hwait, if_neg hnull]
    exact ih htail hnotin.2 (Nat.lt_of_succ_lt_succ hfuel)

/-- A call that returns takes its node out of the queue, wherever it is. -/
theorem sleep_on_leave_queue (h : s.Queue tsk nodes) {wait : UInt32} (hmem : wait ∈ nodes) :
    ∃ t, sleep_on_leave s wait tsk = some t ∧ t.Queue tsk (nodes.erase wait) ∧
      ∀ p ∉ nodes, t.waits p = s.waits p := by
  have hlength := h.length_lt
  have hnodup := Chain.nodup h
  obtain ⟨before, after, rfl⟩ := List.append_of_mem hmem
  have hnotin : wait ∉ before := by
    have hmiddle := List.nodup_middle.mp hnodup
    rw [List.nodup_cons, List.mem_append, not_or] at hmiddle
    exact hmiddle.1.1
  rw [List.erase_append_right _ hnotin, List.erase_cons_head]
  obtain rfl | ⟨front, q, rfl⟩ := List.eq_nil_or_concat' before
  · obtain ⟨hhead, -, htail⟩ := h
    refine ⟨_, if_pos hhead, ?_, fun _ _ => rfl⟩
    rw [List.nil_append, Threads.Queue, set_tcb_self]
    exact htail
  · have hhead : (s.tcbs tsk).wq_exit ≠ wait := by
      intro hfirst
      have hin : (s.tcbs tsk).wq_exit ∈ front ++ [q] := by
        rw [Chain.head h]
        cases front with
        | nil => exact List.mem_singleton_self q
        | cons a front => exact List.mem_cons_self
      exact hnotin (hfirst ▸ hin)
    rw [← List.append_cons] at h hnodup
    rw [List.length_append, List.length_append] at hlength
    have hfind : find_wait (fun p => (s.waits p).next) wait loop_fuel (s.tcbs tsk).wq_exit = some (some q) :=
      find_wait_eq h hnotin (by omega)
    refine ⟨{ s with waits := Function.update s.waits q { s.waits q with next := (s.waits wait).next } }, ?_, ?_, ?_⟩
    · rw [sleep_on_leave, if_neg hhead, leave_queue, hfind, Option.map_some]
    · have hnext := update_next s.waits q { s.waits q with next := (s.waits wait).next }
      rw [← List.append_cons, Threads.Queue, hnext]
      exact Chain.remove h hnodup
    · intro p hp
      have hne : p ≠ q := fun heq => hp (by simp [heq])
      exact Function.update_of_ne hne _ _

end Specs

/-- One step. -/
theorem Sleepers.Exact.step {tsk : UInt32} {q : Sleepers} {a : QueueStep} (h : q.Exact tsk)
    (henabled : q.Enabled tsk a) : (q.step tsk a).Exact tsk ∧ q.Harmless tsk a := by
  cases a with
  | enter wait =>
    obtain ⟨hne, hnew⟩ := henabled
    refine ⟨⟨sleep_on_enter_queue h.queue hne hnew, List.nodup_cons.mpr ⟨hnew, h.nodup⟩⟩, rfl, ?_, ?_⟩
    · intro _ ha
      cases ha
    · intro _ ha
      cases ha
  | leave wait =>
    obtain ⟨t, hleave, hqueue, hothers⟩ := sleep_on_leave_queue h.queue henabled
    have hcall : q.call tsk (.leave wait) = some ⟨t, q.calls.erase wait⟩ := by
      rw [Sleepers.call, hleave, Option.map_some]
    have hstep : q.step tsk (.leave wait) = ⟨t, q.calls.erase wait⟩ := by
      rw [Sleepers.step, hcall, Option.getD_some]
    rw [hstep]
    refine ⟨⟨hqueue, h.nodup.erase wait⟩, ?_, fun _ _ p hp => ?_, ?_⟩
    · rw [hcall, Option.isSome_some]
    · rw [hstep]
      exact hothers p hp
    · intro _ ha
      cases ha
  | wake n =>
    obtain ⟨hwake, hqueue⟩ := wake_up_queue h.queue n
    have hcall : q.call tsk (.wake n) =
        some ⟨(q.calls.take n.toUInt32.toNat).foldl Threads.wake q.threads, q.calls⟩ := by
      rw [Sleepers.call, hwake, Option.map_some]
    have hstep : q.step tsk (.wake n) = ⟨(q.calls.take n.toUInt32.toNat).foldl Threads.wake q.threads, q.calls⟩ := by
      rw [Sleepers.step, hcall, Option.getD_some]
    rw [hstep]
    refine ⟨⟨hqueue, h.nodup⟩, ?_, ?_, ?_⟩
    · rw [hcall, Option.isSome_some]
    · intro _ ha
      cases ha
    · intro n' ha
      cases ha
      exact ⟨_, wake_up_nodes_eq h.queue n, hwake, fun p hp => List.mem_of_mem_take hp⟩
  | other threads =>
    obtain ⟨hhead, hnodes⟩ := henabled
    have hqueue : threads.Queue tsk q.calls := by
      rw [Threads.Queue, hhead]
      exact Chain.congr h.queue fun p hp => congrArg wait_queue.next (hnodes p hp)
    refine ⟨⟨hqueue, h.nodup⟩, rfl, ?_, ?_⟩
    · intro _ ha
      cases ha
    · intro _ ha
      cases ha

/-- In every run from an empty queue, in whatever order calls of `sleep_on` enter and
return and `wake_up` is called, the queue has the nodes of the calls in progress after every
step, and every step is harmless. -/
theorem wait_queue_exact (tsk : UInt32) (s : Threads) (hempty : (s.tcbs tsk).wq_exit = NULL)
    {acts : List QueueStep} (hacts : AllSteps (Sleepers.step tsk) (Sleepers.Enabled tsk) ⟨s, []⟩ acts) :
    Always (Sleepers.step tsk) (Sleepers.Exact tsk) ⟨s, []⟩ acts ∧
      AllSteps (Sleepers.step tsk) (Sleepers.Harmless tsk) ⟨s, []⟩ acts := by
  have hstart : Sleepers.Exact tsk ⟨s, []⟩ := ⟨hempty, List.nodup_nil⟩
  constructor
  · exact Always.of_invariant (Sleepers.Exact tsk) (fun _ _ h henabled => (h.step henabled).1) (fun _ h => h)
      hstart hacts
  · exact AllSteps.of_invariant (Sleepers.Exact tsk) (fun _ _ h henabled => (h.step henabled).1)
      (fun _ _ h henabled => (h.step henabled).2) hstart hacts

/-- Three threads, all of them ready. -/
def ready_threads : Threads :=
  { three_threads with tcbs := fun p => { three_threads.tcbs p with state := TASK_STATE_READY } }

/-- Two threads wait for `task0`; the one that came last is woken first, and the other one
leaves first. -/
def two_sleepers : List QueueStep :=
  [.enter 0xc1002f00,
    .other { sleep_on_enter ready_threads 0xc1002f00 0xc1000000 with g_task_running := 0xc1001000 },
    .enter 0xc1001f00, .wake 1, .wake (-1), .leave 0xc1002f00, .leave 0xc1001f00]

theorem two_sleepers_exact :
    Always (Sleepers.step 0xc1000000) (Sleepers.Exact 0xc1000000) ⟨ready_threads, []⟩ two_sleepers ∧
      AllSteps (Sleepers.step 0xc1000000) (Sleepers.Harmless 0xc1000000) ⟨ready_threads, []⟩ two_sleepers :=
  wait_queue_exact 0xc1000000 ready_threads rfl (by decide +kernel)

end epos.thread
