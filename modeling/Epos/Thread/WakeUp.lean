import Epos.Thread.WaitQueue
import Mathlib.Data.Finset.Card

open chains runs
open epos.page (NULL)

namespace epos.thread

/-- The threads of nodes, as they follow each other in the queue. -/
def Threads.sleepers (s : Threads) (nodes : List UInt32) : List UInt32 := nodes.map fun p => (s.waits p).tsk

def Threads.state (s : Threads) (p : UInt32) : Int32 := (s.tcbs p).state

/-- The threads of a queue that wait. -/
def waiting (s : Threads) (nodes : List UInt32) : Finset UInt32 :=
  (s.sleepers nodes).toFinset.filter fun p => s.state p = TASK_STATE_WAITING

/-- Those of them that have become ready. -/
def woken (s t : Threads) (nodes : List UInt32) : Finset UInt32 :=
  (waiting s nodes).filter fun p => t.state p = TASK_STATE_READY

/-- From `s` to `t`, `k` threads of the queue are woken, and nothing else happens to any thread. -/
structure Wakes (s t : Threads) (nodes : List UInt32) (k : Nat) : Prop where
  card : (woken s t nodes).card = k
  others : ∀ p ∉ woken s t nodes, t.state p = s.state p

/-- `wake_up(&tsk->wq_exit, n)` wakes `n` of the threads that wait, or all of them if there are
not as many or `n` is negative. -/
def WakesAsAsked (s : Threads) (tsk : UInt32) (nodes : List UInt32) (n : Int32) : Prop :=
  ∃ t, wake_up s tsk n = some t ∧
    Wakes s t nodes (if n < 0 then (waiting s nodes).card else min n.toInt.toNat (waiting s nodes).card)

/-- `k` successive calls of `wake_up(&tsk->wq_exit, 1)`. -/
def wake_up_times (tsk : UInt32) : Nat → Threads → Option Threads
  | 0, s => some s
  | k + 1, s => (wake_up s tsk 1).bind (wake_up_times tsk k)

/-- They wake `k` threads. -/
def WakesEach (s : Threads) (tsk : UInt32) (nodes : List UInt32) (k : Nat) : Prop :=
  ∃ t, wake_up_times tsk k s = some t ∧ Wakes s t nodes k

/-- The threads of the nodes that `wake_up` goes through. -/
def Threads.front (s : Threads) (nodes : List UInt32) (n : Int32) : List UInt32 :=
  s.sleepers (nodes.take n.toUInt32.toNat)

/-- The threads at the front are woken or wait, and either none that waits is further back, or
they are as many as asked for, all different and all waiting. -/
def FrontWaits (s : Threads) (nodes : List UInt32) (n : Int32) : Prop :=
  (∀ p ∈ s.front nodes n, s.state p = TASK_STATE_WAITING ∨ s.state p = TASK_STATE_READY) ∧
    ((∀ p ∈ s.sleepers nodes, s.state p = TASK_STATE_WAITING → p ∈ s.front nodes n) ∨
      (0 ≤ n ∧ (s.front nodes n).length = n.toInt.toNat ∧ (s.front nodes n).Nodup ∧
        ∀ p ∈ s.front nodes n, s.state p = TASK_STATE_WAITING))

section Counting

variable {α : Type} [DecidableEq α] {visited all : List α} (P : α → Prop) [DecidablePred P]

theorem card_filter_eq_iff (hsub : visited ⊆ all) :
    (visited.toFinset.filter P).card = (all.toFinset.filter P).card ↔ ∀ p ∈ all, P p → p ∈ visited := by
  have hsubset : visited.toFinset.filter P ⊆ all.toFinset.filter P :=
    Finset.filter_subset_filter P fun p hp => List.mem_toFinset.mpr (hsub (List.mem_toFinset.mp hp))
  constructor
  · intro hcard p hp hP
    have heq := Finset.eq_of_subset_of_card_le hsubset hcard.ge
    have hin : p ∈ visited.toFinset.filter P :=
      heq ▸ Finset.mem_filter.mpr ⟨List.mem_toFinset.mpr hp, hP⟩
    exact List.mem_toFinset.mp (Finset.mem_filter.mp hin).1
  · intro hall
    congr 1
    apply hsubset.antisymm
    intro p hp
    obtain ⟨hp, hP⟩ := Finset.mem_filter.mp hp
    exact Finset.mem_filter.mpr ⟨List.mem_toFinset.mpr (hall p (List.mem_toFinset.mp hp) hP), hP⟩

theorem card_filter_eq_length_iff :
    (visited.toFinset.filter P).card = visited.length ↔ visited.Nodup ∧ ∀ p ∈ visited, P p := by
  have hle := Finset.card_filter_le visited.toFinset P
  have hle' := List.toFinset_card_le visited
  constructor
  · intro hcard
    have hall : (visited.toFinset.filter P).card = visited.toFinset.card := by omega
    have hnodup : Multiset.card (visited : Multiset α) = visited.toFinset.card := by
      rw [Multiset.coe_card]
      omega
    refine ⟨Multiset.toFinset_card_eq_card_iff_nodup.mp hnodup.symm, fun p hp => ?_⟩
    exact Finset.card_filter_eq_iff.mp hall p (List.mem_toFinset.mpr hp)
  · rintro ⟨hnodup, hall⟩
    rw [Finset.card_filter_eq_iff.mpr fun p hp => hall p (List.mem_toFinset.mp hp),
      List.toFinset_card_of_nodup hnodup]

/-- Among at most `n` elements are `n` that meet `P`, or as many as there are, just when none is
missed or all `n` meet `P`. -/
theorem card_filter_eq_min_iff {n : Nat} (hsub : visited ⊆ all) (hlength : visited.length ≤ n) :
    (visited.toFinset.filter P).card = min n (all.toFinset.filter P).card ↔
      (∀ p ∈ all, P p → p ∈ visited) ∨ (visited.length = n ∧ visited.Nodup ∧ ∀ p ∈ visited, P p) := by
  have hsubset : visited.toFinset.filter P ⊆ all.toFinset.filter P :=
    Finset.filter_subset_filter P fun p hp => List.mem_toFinset.mpr (hsub (List.mem_toFinset.mp hp))
  have hcard := Finset.card_le_card hsubset
  have hle := Finset.card_filter_le visited.toFinset P
  have hle' := List.toFinset_card_le visited
  rw [← card_filter_eq_iff P hsub, ← card_filter_eq_length_iff P]
  omega

end Counting

section Specs

variable {s t : Threads} {tsk : UInt32} {nodes : List UInt32}

theorem waiting_ne_ready : TASK_STATE_WAITING ≠ TASK_STATE_READY := by decide

theorem mem_woken (p : UInt32) : p ∈ woken s t nodes ↔
    (p ∈ s.sleepers nodes ∧ s.state p = TASK_STATE_WAITING) ∧ t.state p = TASK_STATE_READY := by
  rw [woken, waiting, Finset.mem_filter, Finset.mem_filter, List.mem_toFinset]

theorem wake_state (s : Threads) (p q : UInt32) :
    (s.wake p).state q = if q = (s.waits p).tsk then TASK_STATE_READY else s.state q := by
  rw [Threads.wake, Threads.state]
  split
  · next hq => rw [hq, set_tcb_self]
  · next hq => rw [set_tcb_of_ne s hq, Threads.state]

/-- The threads of the nodes are ready, the others as they were. -/
theorem foldl_wake_state (nodes : List UInt32) (s : Threads) (q : UInt32) :
    (nodes.foldl Threads.wake s).state q = if q ∈ s.sleepers nodes then TASK_STATE_READY else s.state q := by
  induction nodes generalizing s with
  | nil => rfl
  | cons p nodes ih =>
    have hsleepers : (s.wake p).sleepers nodes = s.sleepers nodes := rfl
    have hcons : s.sleepers (p :: nodes) = (s.waits p).tsk :: s.sleepers nodes := rfl
    rw [List.foldl_cons, ih, hsleepers, wake_state, hcons]
    by_cases hq : q ∈ s.sleepers nodes
    · rw [if_pos hq, if_pos (List.mem_cons_of_mem _ hq)]
    · simp only [List.mem_cons, hq, or_false, if_false]

/-- `wake_up` makes the threads at the front ready. -/
theorem wake_up_front (h : s.Queue tsk nodes) (n : Int32) :
    ∃ t, wake_up s tsk n = some t ∧ t.Queue tsk nodes ∧ t.waits = s.waits ∧
      ∀ q, t.state q = if q ∈ s.front nodes n then TASK_STATE_READY else s.state q := by
  obtain ⟨hwake, hqueue⟩ := wake_up_queue h n
  refine ⟨_, hwake, hqueue, foldl_wake_waits _ s, fun q => ?_⟩
  rw [foldl_wake_state]
  rfl

theorem front_subset (s : Threads) (nodes : List UInt32) (n : Int32) : s.front nodes n ⊆ s.sleepers nodes :=
  List.map_subset _ (List.take_subset _ nodes)

/-- What is woken are the threads at the front that wait. -/
theorem woken_eq {n : Int32} (hstate : ∀ q, t.state q = if q ∈ s.front nodes n then TASK_STATE_READY else s.state q) :
    woken s t nodes = (s.front nodes n).toFinset.filter fun p => s.state p = TASK_STATE_WAITING := by
  ext p
  rw [mem_woken, Finset.mem_filter, List.mem_toFinset, hstate]
  constructor
  · rintro ⟨⟨-, hwaits⟩, hready⟩
    by_cases hp : p ∈ s.front nodes n
    · exact ⟨hp, hwaits⟩
    · rw [if_neg hp, hwaits] at hready
      exact absurd hready waiting_ne_ready
  · rintro ⟨hp, hwaits⟩
    exact ⟨⟨front_subset s nodes n hp, hwaits⟩, if_pos hp⟩

/-- No other thread changes just when those at the front wait or are ready. -/
theorem others_iff {n : Int32} (hstate : ∀ q, t.state q = if q ∈ s.front nodes n then TASK_STATE_READY else s.state q) :
    (∀ p ∉ woken s t nodes, t.state p = s.state p) ↔
      ∀ p ∈ s.front nodes n, s.state p = TASK_STATE_WAITING ∨ s.state p = TASK_STATE_READY := by
  rw [woken_eq hstate]
  constructor
  · intro hothers p hp
    by_cases hwaits : s.state p = TASK_STATE_WAITING
    · exact .inl hwaits
    · have hnot : p ∉ (s.front nodes n).toFinset.filter fun p => s.state p = TASK_STATE_WAITING :=
        fun hmem => hwaits (Finset.mem_filter.mp hmem).2
      have hsame := hothers p hnot
      rw [hstate, if_pos hp] at hsame
      exact .inr hsame.symm
  · intro hfront p hnot
    rw [Finset.mem_filter, List.mem_toFinset, not_and] at hnot
    rw [hstate]
    split
    · next hp => exact ((hfront p hp).resolve_left (hnot hp)).symm
    · rfl

/-- `k` threads have been woken just if `k` are woken and no other changes. -/
theorem wakes_iff (k : Nat) :
    Wakes s t nodes k ↔ (woken s t nodes).card = k ∧ ∀ p ∉ woken s t nodes, t.state p = s.state p :=
  ⟨fun h => ⟨h.card, h.others⟩, fun h => ⟨h.1, h.2⟩⟩

/-- One call wakes as many as asked just when the front of the queue waits. -/
theorem wakesAsAsked_iff (h : s.Queue tsk nodes) (n : Int32) : WakesAsAsked s tsk nodes n ↔ FrontWaits s nodes n := by
  obtain ⟨t, hwake, -, -, hstate⟩ := wake_up_front h n
  have hcalls : WakesAsAsked s tsk nodes n ↔ Wakes s t nodes
      (if n < 0 then (waiting s nodes).card else min n.toInt.toNat (waiting s nodes).card) := by
    constructor
    · rintro ⟨t', hwake', hwakes⟩
      rw [hwake] at hwake'
      rwa [Option.some.inj hwake']
    · exact fun hwakes => ⟨t, hwake, hwakes⟩
  rw [hcalls, wakes_iff, others_iff hstate, woken_eq hstate, and_comm, FrontWaits]
  refine and_congr_right fun _ => ?_
  have hsub := front_subset s nodes n
  by_cases hn : n < 0
  · have hnot : ¬ 0 ≤ n := Int32.not_le.mpr hn
    rw [if_pos hn, waiting, card_filter_eq_iff _ hsub]
    simp only [hnot, false_and, or_false]
  · have hpos : 0 ≤ n := Int32.not_lt.mp hn
    have hnat : n.toUInt32.toNat = n.toInt.toNat := Int32.toNat_toUInt32_of_le hpos
    have hlength : (s.front nodes n).length ≤ n.toInt.toNat := by
      rw [Threads.front, Threads.sleepers, List.length_map, ← hnat]
      exact List.length_take_le _ _
    rw [if_neg hn, waiting, card_filter_eq_min_iff _ hsub hlength]
    simp only [hpos, true_and]

/-- However often it is called, `wake_up(&tsk->wq_exit, 1)` gets no further than the first node. -/
theorem wake_up_times_front {a : UInt32} (h : s.Queue tsk (a :: nodes)) (k : Nat) :
    ∃ t, wake_up_times tsk (k + 1) s = some t ∧
      ∀ q, t.state q = if q ∈ s.front (a :: nodes) 1 then TASK_STATE_READY else s.state q := by
  induction k generalizing s with
  | zero =>
    obtain ⟨t, hwake, -, -, hstate⟩ := wake_up_front h 1
    refine ⟨t, ?_, hstate⟩
    rw [wake_up_times, hwake, Option.bind_some, wake_up_times]
  | succ k ih =>
    obtain ⟨u, hwake, hqueue, hwaits, hstate⟩ := wake_up_front h 1
    obtain ⟨t, htimes, hstate'⟩ := ih hqueue
    have hfront : u.front (a :: nodes) 1 = s.front (a :: nodes) 1 := by
      rw [Threads.front, Threads.front, Threads.sleepers, Threads.sleepers, hwaits]
    refine ⟨t, ?_, fun q => ?_⟩
    · rw [wake_up_times, hwake, Option.bind_some, htimes]
    · rw [hstate', hfront, hstate]
      split <;> rfl

/-- `k` successive calls, with as many threads left to wake, wake one each just when there
is at most one call, of a queue whose first thread waits. -/
theorem wakesEach_iff (h : s.Queue tsk nodes) {k : Nat} (hk : k ≤ (waiting s nodes).card) :
    WakesEach s tsk nodes k ↔ k = 0 ∨ k = 1 ∧ ∀ p ∈ (s.sleepers nodes).head?, s.state p = TASK_STATE_WAITING := by
  cases k with
  | zero =>
    have hnone : woken s s nodes = ∅ := by
      rw [Finset.eq_empty_iff_forall_notMem]
      intro p hp
      obtain ⟨⟨-, hwaits⟩, hready⟩ := (mem_woken p).mp hp
      exact waiting_ne_ready (hwaits.symm.trans hready)
    refine ⟨fun _ => .inl rfl, fun _ => ⟨s, rfl, ?_, fun _ _ => rfl⟩⟩
    rw [hnone, Finset.card_empty]
  | succ k =>
    cases nodes with
    | nil => exact absurd hk (Nat.not_succ_le_zero k)
    | cons a nodes =>
      obtain ⟨t, htimes, hstate⟩ := wake_up_times_front h k
      have hfront : s.front (a :: nodes) 1 = [(s.waits a).tsk] := rfl
      have hhead : (s.sleepers (a :: nodes)).head? = some (s.waits a).tsk := rfl
      have hcalls : WakesEach s tsk (a :: nodes) (k + 1) ↔ Wakes s t (a :: nodes) (k + 1) := by
        constructor
        · rintro ⟨t', htimes', hwakes⟩
          rw [htimes] at htimes'
          rwa [Option.some.inj htimes']
        · exact fun hwakes => ⟨t, htimes, hwakes⟩
      rw [hcalls, wakes_iff, others_iff hstate, woken_eq hstate, hfront, hhead]
      by_cases hwaits : s.state (s.waits a).tsk = TASK_STATE_WAITING
      · simp [Finset.filter_singleton, hwaits]
      · simp [Finset.filter_singleton, hwaits]

end Specs

/-- `wake_up` counts nodes, and nodes of threads that are awake stay in the queue: it wakes as
many as asked just when the front of the queue waits. -/
theorem wake_up_exact_iff (s : Threads) (tsk : UInt32) (nodes : List UInt32) (h : s.Queue tsk nodes) :
    (∀ n, WakesAsAsked s tsk nodes n ↔ FrontWaits s nodes n) ∧
      ∀ k ≤ (waiting s nodes).card, WakesEach s tsk nodes k ↔
        k = 0 ∨ k = 1 ∧ ∀ p ∈ (s.sleepers nodes).head?, s.state p = TASK_STATE_WAITING :=
  ⟨wakesAsAsked_iff h, fun _ hk => wakesEach_iff h hk⟩

/-- Two threads sleep. -/
def asleep : Threads := (exec (Sleepers.step 0xc1000000) ⟨ready_threads, []⟩ (two_sleepers.take 3)).threads

/-- One of them was woken, and has not run yet. -/
def half_asleep : Threads := (exec (Sleepers.step 0xc1000000) ⟨ready_threads, []⟩ (two_sleepers.take 4)).threads

theorem wake_up_exact_asleep :
    (∀ n, WakesAsAsked asleep 0xc1000000 [0xc1001f00, 0xc1002f00] n ↔
        FrontWaits asleep [0xc1001f00, 0xc1002f00] n) ∧
      ∀ k ≤ (waiting asleep [0xc1001f00, 0xc1002f00]).card,
        WakesEach asleep 0xc1000000 [0xc1001f00, 0xc1002f00] k ↔
          k = 0 ∨ k = 1 ∧ ∀ p ∈ (asleep.sleepers [0xc1001f00, 0xc1002f00]).head?,
            asleep.state p = TASK_STATE_WAITING :=
  wake_up_exact_iff asleep 0xc1000000 [0xc1001f00, 0xc1002f00] (by
    simp only [Threads.Queue, Chain]
    decide +kernel)

/-- `wake_up(&tsk->wq_exit, 1)` then finds the woken thread again, and the other sleeps on. -/
theorem second_wake_up_lost : half_asleep.Queue 0xc1000000 [0xc1001f00, 0xc1002f00] ∧
    ¬ WakesAsAsked half_asleep 0xc1000000 [0xc1001f00, 0xc1002f00] 1 := by
  constructor
  · simp only [Threads.Queue, Chain]
    decide +kernel
  · rintro ⟨t, hwake, hwakes⟩
    have hnone : (wake_up half_asleep 0xc1000000 1).map
        (fun t => (woken half_asleep t [0xc1001f00, 0xc1002f00]).card) = some 0 := by
      decide +kernel
    have hone : (waiting half_asleep [0xc1001f00, 0xc1002f00]).card = 1 := by
      decide +kernel
    have hcard := hwakes.card
    rw [hwake, Option.map_some, Option.some.injEq] at hnone
    rw [hnone, hone] at hcard
    exact absurd hcard (by decide)

end epos.thread
