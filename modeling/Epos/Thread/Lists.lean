import Epos.Thread.Defs
import Mathlib.Data.List.Perm.Basic

open chains
open epos.page (NULL loop_fuel chain_length_lt)

namespace epos.thread

/-- The threads in the list from `g_task_head` on. -/
structure Threads.Linked (s : Threads) (nodes : List UInt32) : Prop where
  chain : Chain NULL s.next s.g_task_head nodes
  nodup : nodes.Nodup

/-- They are what is allocated, and no thread waits for one of them. -/
structure Threads.Holds (s : Threads) (nodes : List UInt32) : Prop extends s.Linked nodes where
  heap : s.heap.Perm nodes
  queue : ∀ p ∈ nodes, (s.tcbs p).wq_exit = NULL

/-- `t` differs from `s` in the links of the list alone. -/
structure Relinked (s t : Threads) : Prop where
  tcbs : ∀ p, t.tcbs p = { s.tcbs p with next := t.next p }
  heap : t.heap = s.heap
  running : t.g_task_running = s.g_task_running
  task0 : t.task0 = s.task0
  tid : t.tid = s.tid

@[simp] theorem set_tcb_self (s : Threads) (p : UInt32) (tsk : tcb) : (s.set_tcb p tsk).tcbs p = tsk :=
  Function.update_self ..

theorem set_tcb_of_ne (s : Threads) {p q : UInt32} (hq : q ≠ p) (tsk : tcb) :
    (s.set_tcb p tsk).tcbs q = s.tcbs q :=
  Function.update_of_ne hq ..

theorem set_tcb_next (s : Threads) (p : UInt32) (tsk : tcb) :
    (s.set_tcb p tsk).next = Function.update s.next p tsk.next := by
  funext q
  by_cases hq : q = p
  · subst hq
    rw [Threads.next, set_tcb_self, Function.update_self]
  · rw [Threads.next, set_tcb_of_ne s hq, Function.update_of_ne hq]
    rfl

/-- Writing other fields of a thread keeps the links. -/
theorem set_tcb_same_next {s : Threads} {p : UInt32} {tsk : tcb} (hnext : tsk.next = s.next p) :
    (s.set_tcb p tsk).next = s.next := by
  rw [set_tcb_next, hnext, Function.update_eq_self]

theorem relinked_set_next (s : Threads) (p n : UInt32) : Relinked s (s.set_next p n) := by
  refine ⟨fun q => ?_, rfl, rfl, rfl, rfl⟩
  by_cases hq : q = p
  · subst hq
    simp only [Threads.next, Threads.set_next, set_tcb_self]
  · simp only [Threads.next, Threads.set_next, set_tcb_of_ne s hq]

section Specs

variable {s : Threads} {nodes : List UInt32}

theorem Threads.Linked.length_lt (h : s.Linked nodes) : nodes.length < loop_fuel :=
  chain_length_lt h.chain h.nodup

/-- The loop of `schedule` ends, at the calling thread if nowhere else. -/
theorem schedule_spec (h : s.Linked nodes) (hrun : s.g_task_running ∈ nodes) :
    ∃ g_resched, schedule s = some { s with g_resched } := by
  have hstop : s.schedule_stop s.g_task_running = true := by simp [Threads.schedule_stop]
  obtain ⟨select, -, -, hcircle⟩ := h.chain.circle_returns hrun hstop (Nat.le_of_lt h.length_lt)
  rw [schedule, hcircle, Option.map_some]
  split
  · exact ⟨s.g_resched, rfl⟩
  · exact ⟨0, rfl⟩

/-- `get_task` finds a thread with the tid if there is one. -/
theorem get_task_spec (h : s.Linked nodes) (tid : Int32) :
    (get_task s tid = some NULL ∧ ∀ p ∈ nodes, (s.tcbs p).tid ≠ tid) ∨
      ∃ p ∈ nodes, get_task s tid = some p ∧ (s.tcbs p).tid = tid := by
  have hpass : ∀ _ : UInt32, ∀ a ∈ nodes,
      (if (s.tcbs a).tid = tid then Pass.stop a else Pass.go () : Pass Unit UInt32) = .go () →
        (s.tcbs a).tid ≠ tid := by
    intro _ a _ hgo heq
    rw [if_pos heq] at hgo
    cases hgo
  obtain ⟨before, after, r, hsplit, hbefore, hexit, hwalk⟩ := h.chain.search_rule h.length_lt
    (fun _ p _ => if (s.tcbs p).tid = tid then .stop p else .go ()) (fun _ _ => NULL) _ NULL hpass
  cases after with
  | nil =>
    obtain rfl : r = NULL := hexit
    rw [List.append_nil] at hsplit
    exact .inl ⟨hwalk, hsplit ▸ hbefore⟩
  | cons a after =>
    simp only [Exit] at hexit
    split at hexit
    · next htid =>
      obtain rfl : a = r := Pass.stop.inj hexit
      exact .inr ⟨a, hsplit ▸ List.mem_append_right before List.mem_cons_self, hwalk, htid⟩
    · cases hexit

/-- An empty queue has no thread to wake up. -/
theorem wake_up_spec {p : UInt32} (hqueue : (s.tcbs p).wq_exit = NULL) (n : Int32) : wake_up s p n = some s := by
  rw [wake_up, hqueue]
  exact walk_null _ _ (by decide) _ _

theorem Threads.Linked.next_last {front : List UInt32} {q : UInt32} (h : s.Linked (front ++ [q])) :
    s.next q = NULL := by
  have hlast : (front ++ [q])[front.length]? = some q := List.getElem?_concat_length ..
  rw [h.chain.next_eq hlast, List.getElem?_eq_none (by simp), Option.getD_none]

/-- A new thread goes to the end of the list. -/
theorem add_task_spec (h : s.Linked nodes) {p : UInt32} (hp : p ≠ NULL) (hnew : p ∉ nodes)
    (hlast : s.next p = NULL) :
    ∃ t, add_task s p = some t ∧ Relinked s t ∧ t.Linked (nodes ++ [p]) := by
  have hnodup : (nodes ++ [p]).Nodup := by
    rw [List.nodup_append]
    refine ⟨h.nodup, List.nodup_singleton p, fun a ha b hb hab => ?_⟩
    rw [List.mem_singleton.mp hb] at hab
    exact hnew (hab ▸ ha)
  by_cases hhead : s.g_task_head = NULL
  · obtain rfl : nodes = [] := by
      cases nodes with
      | nil => rfl
      | cons a nodes => exact absurd (h.chain.1.symm.trans hhead) h.chain.2.1
    refine ⟨{ s with g_task_head := p }, if_pos hhead, ⟨fun _ => rfl, rfl, rfl, rfl, rfl⟩, ⟨?_, hnodup⟩⟩
    exact ⟨rfl, hp, hlast⟩
  · obtain ⟨before, after, q, hsplit, -, hexit, hwalk⟩ := h.chain.search_rule h.length_lt
      (fun _ _ _ => .go ()) (fun q _ => q) (fun _ => True) NULL (fun _ _ _ _ => trivial)
    obtain rfl : after = [] := by
      cases after with
      | nil => rfl
      | cons a after => cases hexit
    obtain rfl : q = before.getLastD NULL := hexit
    rw [List.append_nil] at hsplit
    subst hsplit
    obtain rfl | ⟨front, q, rfl⟩ := List.eq_nil_or_concat' nodes
    · exact absurd h.chain hhead
    · rw [List.getLastD_concat] at hwalk
      refine ⟨s.set_next q p, ?_, relinked_set_next s q p, ⟨?_, hnodup⟩⟩
      · rw [add_task, if_neg hhead, Threads.walk, hwalk]
        rfl
      · have hsame : Function.update s.next p (s.next q) = s.next := by
          rw [h.next_last, ← hlast, Function.update_eq_self]
        have hchain := h.chain.insert h.nodup hp hnew
        rw [hsame] at hchain
        have hnext : (s.set_next q p).next = Function.update s.next q p := set_tcb_next s q _
        rw [hnext, List.append_assoc]
        exact hchain

/-- A thread is taken out of the list. -/
theorem remove_task_spec (h : s.Linked nodes) {p : UInt32} (hmem : p ∈ nodes) :
    ∃ t, remove_task s p = some t ∧ Relinked s t ∧ t.Linked (nodes.erase p) := by
  have hnodup : (nodes.erase p).Nodup := h.nodup.erase p
  cases nodes with
  | nil => cases hmem
  | cons a nodes =>
    obtain ⟨hhead, hne, htail⟩ := h.chain
    have hhead' : s.g_task_head ≠ NULL := hhead ▸ hne
    by_cases hfirst : p = s.g_task_head
    · subst hfirst
      refine ⟨{ s with g_task_head := s.next s.g_task_head }, ?_, ⟨fun _ => rfl, rfl, rfl, rfl, rfl⟩, ⟨?_, hnodup⟩⟩
      · rw [remove_task, if_neg hhead', if_pos rfl]
      · rw [hhead, List.erase_cons_head]
        exact htail
    · obtain ⟨before, after, r, hsplit, hbefore, hexit, hwalk⟩ := h.chain.search_rule h.length_lt
        (fun q b _ => if b = p then .stop (some q) else .go ()) (fun _ _ => none) (· ≠ p) NULL (by
          intro q b _ hgo heq
          rw [if_pos heq] at hgo
          cases hgo)
      have hnotin : p ∉ before := fun hp => hbefore p hp rfl
      cases after with
      | nil =>
        rw [List.append_nil] at hsplit
        exact absurd (hsplit ▸ hmem) hnotin
      | cons b after =>
        simp only [Exit] at hexit
        split at hexit
        · next hb =>
          subst hb
          obtain rfl := Pass.stop.inj hexit
          obtain rfl | ⟨front, q, rfl⟩ := List.eq_nil_or_concat' before
          · obtain ⟨rfl, -⟩ := List.cons.inj hsplit
            exact absurd hhead.symm hfirst
          · rw [List.getLastD_concat] at hwalk
            have herase : (a :: nodes).erase b = front ++ q :: after := by
              rw [hsplit, List.erase_append_right _ hnotin, List.erase_cons_head, List.append_assoc]
              rfl
            refine ⟨s.set_next q (s.next b), ?_, relinked_set_next s q _, ⟨?_, hnodup⟩⟩
            · rw [remove_task, if_neg hhead', if_neg hfirst, Threads.walk, hwalk]
              rfl
            · have hnext : (s.set_next q (s.next b)).next = Function.update s.next q (s.next b) :=
                set_tcb_next s q _
              have hchain := h.chain
              have hdistinct := h.nodup
              rw [hsplit, List.append_assoc] at hchain hdistinct
              rw [hnext, herase]
              exact hchain.remove hdistinct
        · cases hexit

end Specs

end epos.thread
