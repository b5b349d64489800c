import Epos.Lib.Run
import Epos.Thread.Calls

open chains runs
open epos.page (NULL)

namespace epos.thread

/-- What a run does. The thread installed makes the calls; `wait` is the address of
the local of `sleep_on`, and `p` the block that `kmalloc` returns, or NULL. -/
inductive Call where
  | install (p : UInt32)
  | create (p tos : UInt32)
  | exit (code : Int32)
  | wait (wait : UInt32) (tid : Int32)
  | yield

/-- The threads, and the exits that were executed, each with the tid of its thread. -/
structure System where
  threads : Threads
  exits : List (Int32 × Int32)

/-- After `init_task`, on memory `s` at reset. -/
def System.boot (s : Threads) (p : UInt32) : System :=
  { threads := (init_task { s with tid := 0, heap := [] } p).getD s, exits := [] }

/-- A call; `none` if it never returns. -/
def System.call (sys : System) : Call → Option System
  | .install p => some { sys with threads := { sys.threads with g_task_running := p } }
  | .create p tos => (sys_task_create sys.threads p tos).map fun (_, threads) => { sys with threads }
  | .exit code =>
    (sys_task_exit sys.threads code).map fun threads =>
      { threads, exits := ((sys.threads.tcbs sys.threads.g_task_running).tid, code) :: sys.exits }
  | .wait wait tid => (sys_task_wait sys.threads wait tid).map fun (_, _, threads) => { sys with threads }
  | .yield => (sys_task_yield sys.threads).map fun threads => { sys with threads }

def System.step (sys : System) (c : Call) : System := (sys.call c).getD sys

/-- A created thread is installed, and `kmalloc` returns no block that is in use. -/
def System.Enabled (sys : System) : Call → Prop
  | .install p => p ∈ sys.threads.heap
  | .create p _ => p = NULL ∨ p ∉ sys.threads.heap
  | .exit _ | .yield => sys.threads.g_task_running ≠ NULL
  | .wait _ _ => True

instance (sys : System) (c : Call) : Decidable (sys.Enabled c) := by
  cases c <;> unfold System.Enabled <;> infer_instance

/-- `p` is in the list from `g_task_head` on. -/
def Listed (s : Threads) (p : UInt32) : Prop :=
  ∃ nodes, Chain NULL s.next s.g_task_head nodes ∧ p ∈ nodes

/-- The step takes `p` out of the list or passes it to `kfree`. -/
def Removed (s t : Threads) (p : UInt32) : Prop :=
  (Listed s p ∧ ¬ Listed t p) ∨ (p ∈ s.heap ∧ p ∉ t.heap)

/-- `sys_task_wait` returns 0 only for a thread that has exited, and with its code;
and what is removed is dead, not running and not `task0`. -/
structure ReapsDead (sys : System) (c : Call) : Prop where
  code : ∀ wait tid code t, c = .wait wait tid → sys_task_wait sys.threads wait tid = some (0, code, t) →
    ∃ x, code = some x ∧ (tid, x) ∈ sys.exits
  dead : ∀ p, Removed sys.threads (sys.step c).threads p →
    ((sys.step c).threads.tcbs p).state = TASK_STATE_ZOMBIE ∧
      p ≠ (sys.step c).threads.g_task_running ∧ p ≠ (sys.step c).threads.task0

/-- The thread that `sys_task_wait` is about, if there is one, is dead, not running
and not `task0`. -/
def WaitsForDead (sys : System) : Call → Prop
  | .wait _ tid => sys.threads.g_task_running ≠ NULL → ∀ p ∈ get_task sys.threads tid, p ≠ NULL →
      (sys.threads.tcbs p).state = TASK_STATE_ZOMBIE ∧
        p ≠ sys.threads.g_task_running ∧ p ≠ sys.threads.task0
  | .install _ | .create _ _ | .exit _ | .yield => True

instance (sys : System) : (c : Call) → Decidable (WaitsForDead sys c)
  | .wait _ _ => @forall_prop_decidable _ _ _ fun _ => Option.decidableForallMem _
  | .install _ | .create _ _ | .exit _ | .yield => isTrue trivial

/-- The list is well formed, the running thread is in it, and the exits of the dead
threads are known. -/
structure System.Agrees (sys : System) (nodes : List UInt32) : Prop where
  holds : sys.threads.Holds nodes
  running : sys.threads.g_task_running = NULL ∨ sys.threads.g_task_running ∈ nodes
  exits : ∀ p ∈ nodes, (sys.threads.tcbs p).state = TASK_STATE_ZOMBIE →
    ((sys.threads.tcbs p).tid, (sys.threads.tcbs p).code_exit) ∈ sys.exits

def System.Invariant (sys : System) : Prop := ∃ nodes, sys.Agrees nodes

theorem Threads.Linked.listed_iff {s : Threads} {nodes : List UInt32} (h : s.Linked nodes) (p : UInt32) :
    Listed s p ↔ p ∈ nodes := by
  constructor
  · rintro ⟨others, hchain, hmem⟩
    rwa [h.chain.unique hchain]
  · exact fun hmem => ⟨nodes, h.chain, hmem⟩

theorem removed_iff {s t : Threads} {nodes nodes' : List UInt32} (h : s.Holds nodes) (h' : t.Holds nodes')
    (p : UInt32) : Removed s t p ↔ p ∈ nodes ∧ p ∉ nodes' := by
  rw [Removed, h.listed_iff, h'.listed_iff, h.heap.mem_iff, h'.heap.mem_iff, or_self]

/-- A step after which all threads are still there removes none. -/
theorem reapsDead_of_kept {sys : System} {c : Call} {nodes nodes' : List UInt32}
    (hwait : ∀ wait tid, c ≠ .wait wait tid) (h : sys.threads.Holds nodes)
    (h' : (sys.step c).threads.Holds nodes') (hkept : ∀ p ∈ nodes, p ∈ nodes') : ReapsDead sys c := by
  constructor
  · intro wait tid code t hc
    exact absurd hc (hwait wait tid)
  · intro p hremoved
    obtain ⟨hmem, hgone⟩ := (removed_iff h h' p).mp hremoved
    exact absurd (hkept p hmem) hgone

section Steps

variable {sys : System} {nodes : List UInt32}

theorem System.Agrees.installed (h : sys.Agrees nodes) {p : UInt32} (hp : p ∈ nodes) :
    (sys.step (.install p)).Agrees nodes :=
  ⟨⟨⟨h.holds.chain, h.holds.nodup⟩, h.holds.heap, h.holds.queue⟩, .inr hp, h.exits⟩

theorem System.Agrees.created (h : sys.Agrees nodes) {p : UInt32} (hp : p = NULL ∨ p ∉ sys.threads.heap)
    (tos : UInt32) :
    (sys.step (.create p tos)).Agrees nodes ∨ (sys.step (.create p tos)).Agrees (nodes ++ [p]) := by
  obtain ⟨r, t, hcreate, hafter⟩ := sys_task_create_spec h.holds hp tos
  have hstep : sys.step (.create p tos) = { sys with threads := t } := by
    rw [System.step, System.call, hcreate]
    rfl
  rw [hstep]
  obtain rfl | ⟨hholds, hrunning, hready, hsame⟩ := hafter
  · exact .inl h
  · refine .inr ⟨hholds, ?_, fun q hq hdead => ?_⟩
    · rw [hrunning]
      exact h.running.imp id (List.mem_append_left _)
    · obtain hq | hq := List.mem_append.mp hq
      · rw [hsame q hq] at hdead ⊢
        exact h.exits q hq hdead
      · rw [List.mem_singleton.mp hq, hready] at hdead
        exact absurd hdead (by decide)

theorem System.Agrees.exited (h : sys.Agrees nodes) (hrun : sys.threads.g_task_running ∈ nodes) (code : Int32) :
    (sys.step (.exit code)).Agrees nodes := by
  obtain ⟨t, hexit, hholds, hrunning, htcbs⟩ := sys_task_exit_spec h.holds hrun code
  have hstep : sys.step (.exit code) =
      ⟨t, ((sys.threads.tcbs sys.threads.g_task_running).tid, code) :: sys.exits⟩ := by
    rw [System.step, System.call, hexit]
    rfl
  rw [hstep]
  refine ⟨hholds, ?_, fun q hq hdead => ?_⟩
  · rw [hrunning]
    exact h.running
  · simp only [htcbs] at hdead ⊢
    by_cases hself : q = sys.threads.g_task_running
    · subst hself
      rw [Function.update_self]
      exact List.mem_cons_self
    · rw [Function.update_of_ne hself] at hdead ⊢
      exact List.mem_cons_of_mem _ (h.exits q hq hdead)

theorem System.Agrees.yielded (h : sys.Agrees nodes) (hrun : sys.threads.g_task_running ∈ nodes) :
    (sys.step .yield).Agrees nodes := by
  obtain ⟨g_resched, hschedule⟩ := schedule_spec h.holds.toLinked hrun
  have hstep : sys.step .yield = { sys with threads := { sys.threads with g_resched } } := by
    rw [System.step, System.call, sys_task_yield, hschedule]
    rfl
  rw [hstep]
  exact ⟨⟨⟨h.holds.chain, h.holds.nodup⟩, h.holds.heap, h.holds.queue⟩, h.running, h.exits⟩

/-- Calls other than `sys_task_wait` keep all threads. -/
theorem System.Agrees.keeps (h : sys.Agrees nodes) {c : Call} (henabled : sys.Enabled c)
    (hwait : ∀ wait tid, c ≠ .wait wait tid) :
    ∃ nodes', (sys.step c).Agrees nodes' ∧ ∀ p ∈ nodes, p ∈ nodes' := by
  cases c with
  | install p => exact ⟨nodes, h.installed (h.holds.heap.mem_iff.mp henabled), fun _ hq => hq⟩
  | create p tos =>
    obtain hsame | hadded := h.created henabled tos
    · exact ⟨nodes, hsame, fun _ hq => hq⟩
    · exact ⟨nodes ++ [p], hadded, fun _ hq => List.mem_append_left _ hq⟩
  | exit code => exact ⟨nodes, h.exited (h.running.resolve_left henabled) code, fun _ hq => hq⟩
  | wait wait tid => exact absurd rfl (hwait wait tid)
  | yield => exact ⟨nodes, h.yielded (h.running.resolve_left henabled), fun _ hq => hq⟩

theorem step_wait {wait : UInt32} {tid : Int32} {r : Int32} {code : Option Int32} {t : Threads}
    (hcall : sys_task_wait sys.threads wait tid = some (r, code, t)) :
    sys.step (.wait wait tid) = { sys with threads := t } := by
  rw [System.step, System.call, hcall]
  rfl

/-- Without a running thread `sys_task_wait` fails. -/
theorem sys_task_wait_null {s : Threads} (hnull : s.g_task_running = NULL) (wait : UInt32) (tid : Int32) :
    sys_task_wait s wait tid = some (-1, none, s) := if_pos hnull

/-- A `sys_task_wait` that fails does nothing. -/
theorem wait_failed (h : sys.Agrees nodes) {wait : UInt32} {tid : Int32}
    (hcall : sys_task_wait sys.threads wait tid = some (-1, none, sys.threads)) :
    ReapsDead sys (.wait wait tid) ∧ (sys.step (.wait wait tid)).Agrees nodes := by
  have hstep : sys.step (.wait wait tid) = sys := step_wait hcall
  refine ⟨⟨fun wait' tid' code t hc hcall' => ?_, fun p hremoved => ?_⟩, hstep.symm ▸ h⟩
  · obtain ⟨rfl, rfl⟩ := Call.wait.inj hc
    rw [hcall] at hcall'
    cases hcall'
  · rw [hstep] at hremoved
    obtain ⟨hmem, hgone⟩ := (removed_iff h.holds h.holds p).mp hremoved
    exact absurd hmem hgone

/-- The thread that `sys_task_wait` finds is what the step removes. -/
theorem removed_found (h : sys.Agrees nodes) {wait p : UInt32} {tid code : Int32} {t : Threads} (hp : p ∈ nodes)
    (hcall : sys_task_wait sys.threads wait tid = some (0, some code, t))
    (hreaped : Reaped sys.threads t nodes p code) (q : UInt32) :
    Removed sys.threads (sys.step (.wait wait tid)).threads q ↔ q = p := by
  rw [step_wait hcall, removed_iff h.holds hreaped.holds, h.holds.nodup.mem_erase_iff]
  constructor
  · rintro ⟨hq, hgone⟩
    by_contra hne
    exact hgone ⟨hne, hq⟩
  · rintro rfl
    exact ⟨hp, fun hmem => hmem.1 rfl⟩

/-- Reaping a dead thread other than the running one keeps the invariant. -/
theorem reaped_agrees (h : sys.Agrees nodes) {p : UInt32} {code : Int32} {t : Threads}
    (hreaped : Reaped sys.threads t nodes p code) (hdead : (sys.threads.tcbs p).state = TASK_STATE_ZOMBIE)
    (hother : p ≠ sys.threads.g_task_running) : { sys with threads := t }.Agrees (nodes.erase p) := by
  obtain ⟨-, htcbs⟩ := hreaped.dead hdead
  refine ⟨hreaped.holds, ?_, fun q hq hzombie => ?_⟩
  · rw [hreaped.running]
    exact h.running.imp id (List.mem_erase_of_ne hother.symm).mpr
  · simp only [htcbs] at hzombie ⊢
    exact h.exits q (List.mem_of_mem_erase hq) hzombie

/-- A `sys_task_wait` that finds a thread reaps as it should exactly if the thread is
dead, not running and not `task0`. -/
theorem wait_found (h : sys.Agrees nodes) {wait p : UInt32} {tid code : Int32} {t : Threads} (hp : p ∈ nodes)
    (htid : (sys.threads.tcbs p).tid = tid)
    (hcall : sys_task_wait sys.threads wait tid = some (0, some code, t))
    (hreaped : Reaped sys.threads t nodes p code) :
    ReapsDead sys (.wait wait tid) ↔ (sys.threads.tcbs p).state = TASK_STATE_ZOMBIE ∧
      p ≠ sys.threads.g_task_running ∧ p ≠ sys.threads.task0 := by
  have hremoved := removed_found h hp hcall hreaped
  have hstep := step_wait hcall
  constructor
  · intro hreaps
    obtain ⟨hzombie, hother, hidle⟩ := hreaps.dead p ((hremoved p).mpr rfl)
    rw [hstep] at hzombie hother hidle
    refine ⟨?_, hreaped.running ▸ hother, hreaped.task0 ▸ hidle⟩
    by_contra hlive
    exact hreaped.live hlive hzombie
  · rintro ⟨hzombie, hother, hidle⟩
    obtain ⟨hcode, htcbs⟩ := hreaped.dead hzombie
    refine ⟨fun wait' tid' code' t' hc hcall' => ?_, fun q hq => ?_⟩
    · obtain ⟨rfl, rfl⟩ := Call.wait.inj hc
      rw [hcall] at hcall'
      obtain ⟨-, hcode', -⟩ : (0 : Int32) = 0 ∧ some code = code' ∧ t = t' := by simpa using hcall'
      refine ⟨code, hcode'.symm, ?_⟩
      rw [hcode, ← htid]
      exact h.exits p hp hzombie
    · obtain rfl := (hremoved q).mp hq
      rw [hstep]
      refine ⟨?_, hreaped.running.symm ▸ hother, hreaped.task0.symm ▸ hidle⟩
      rw [htcbs]
      exact hzombie

/-- A `sys_task_wait` reaps as it should exactly if its thread is dead, not running
and not `task0`, and then keeps the invariant. -/
theorem wait_reaps (h : sys.Agrees nodes) (wait : UInt32) (tid : Int32) :
    (ReapsDead sys (.wait wait tid) ↔ WaitsForDead sys (.wait wait tid)) ∧
      (WaitsForDead sys (.wait wait tid) → (sys.step (.wait wait tid)).Invariant) := by
  obtain hnull | hrun := h.running
  · obtain ⟨hreaps, hagrees⟩ := wait_failed h (sys_task_wait_null hnull wait tid)
    exact ⟨⟨fun _ hne => absurd hnull hne, fun _ => hreaps⟩, fun _ => ⟨nodes, hagrees⟩⟩
  obtain ⟨hcall, hget⟩ | ⟨p, hp, hget, htid, code, t, hcall, hreaped⟩ := sys_task_wait_spec h.holds hrun wait tid
  · obtain ⟨hreaps, hagrees⟩ := wait_failed h hcall
    refine ⟨⟨fun _ _ p hget' hne => ?_, fun _ => hreaps⟩, fun _ => ⟨nodes, hagrees⟩⟩
    rw [hget] at hget'
    exact absurd (Option.some.inj hget').symm hne
  · have hdead : WaitsForDead sys (.wait wait tid) ↔ (sys.threads.tcbs p).state = TASK_STATE_ZOMBIE ∧
        p ≠ sys.threads.g_task_running ∧ p ≠ sys.threads.task0 := by
      constructor
      · intro hwaits
        exact hwaits (h.holds.chain.ne_null hrun) p hget (h.holds.chain.ne_null hp)
      · intro hdead _ p' hget' _
        rw [hget] at hget'
        rwa [← Option.some.inj hget']
    rw [hdead]
    refine ⟨wait_found h hp htid hcall hreaped, fun hgood => ⟨nodes.erase p, ?_⟩⟩
    rw [step_wait hcall]
    exact reaped_agrees h hreaped hgood.1 hgood.2.1

end Steps

/-- The memory that `init_task` calls `sys_task_create` on. -/
def initial (s : Threads) : Threads :=
  { s with
    tid := 0, heap := [], g_resched := 0, g_task_running := NULL, g_task_head := NULL
    g_task_own_fpu := NULL }

theorem initial_linked (s : Threads) : (initial s).Linked [] := ⟨rfl, List.nodup_nil⟩

theorem init_task_eq (s : Threads) (p : UInt32) : init_task { s with tid := 0, heap := [] } p =
    (sys_task_create (initial s) p NULL).map fun (task0, s) => { s with task0 } := rfl

theorem boot_created (s : Threads) {p : UInt32} (hp : p ≠ NULL) :
    ∃ t, Created (initial s) t [] p NULL ∧ System.boot s p = ⟨{ t with task0 := p }, []⟩ := by
  obtain ⟨t, hcall, hcreated⟩ :=
    sys_task_create_linked (initial_linked s) (by decide : NULL &&& 3 = 0) hp List.not_mem_nil
  refine ⟨t, hcreated, ?_⟩
  rw [System.boot, init_task_eq, hcall]
  rfl

theorem boot_null (s : Threads) : System.boot s NULL = ⟨{ initial s with task0 := NULL }, []⟩ := by
  have hfail : ¬ (NULL &&& 3 = 0 ∧ NULL ≠ NULL) := fun h => h.2 rfl
  rw [System.boot, init_task_eq, sys_task_create_failed hfail]
  rfl

/-- `init_task` leaves one thread, `task0`, or none if `kmalloc` returned NULL. -/
theorem boot_invariant (s : Threads) (p : UInt32) : (System.boot s p).Invariant := by
  by_cases hp : p = NULL
  · rw [hp, boot_null]
    refine ⟨[], ⟨⟨rfl, List.nodup_nil⟩, .nil, fun q hq => absurd hq List.not_mem_nil⟩, .inl rfl, ?_⟩
    exact fun q hq => absurd hq List.not_mem_nil
  · obtain ⟨t, hcreated, hboot⟩ := boot_created s hp
    rw [hboot]
    refine ⟨[p], ⟨⟨hcreated.linked.chain, hcreated.linked.nodup⟩, hcreated.heap ▸ .refl _, fun q hq => ?_⟩,
      .inl hcreated.running, fun q hq hzombie => ?_⟩
    · rw [List.mem_singleton.mp hq]
      exact congrArg tcb.wq_exit hcreated.new
    · have hready : (t.tcbs p).state = TASK_STATE_READY := congrArg tcb.state hcreated.new
      rw [List.mem_singleton.mp hq] at hzombie
      exact absurd (hready.symm.trans hzombie) (by decide)

/-- One step. -/
theorem step_reaps {sys : System} {c : Call} (h : sys.Invariant) (henabled : sys.Enabled c) :
    (ReapsDead sys c ↔ WaitsForDead sys c) ∧ (WaitsForDead sys c → (sys.step c).Invariant) := by
  obtain ⟨nodes, h⟩ := h
  by_cases hwait : ∃ wait tid, c = .wait wait tid
  · obtain ⟨wait, tid, rfl⟩ := hwait
    exact wait_reaps h wait tid
  · have hother : ∀ wait tid, c ≠ .wait wait tid := fun wait tid hc => hwait ⟨wait, tid, hc⟩
    obtain ⟨nodes', h', hkept⟩ := h.keeps henabled hother
    have hreaps := reapsDead_of_kept hother h.holds h'.holds hkept
    have hwaits : WaitsForDead sys c := by
      cases c with
      | wait wait tid => exact absurd rfl (hother wait tid)
      | install | create | exit | yield => trivial
    exact ⟨⟨fun _ => hwaits, fun _ => hreaps⟩, fun _ => ⟨nodes', h'⟩⟩

/-- In every run from `init_task`, `sys_task_wait` reaps as it should exactly if each
of its threads is dead, not running and not `task0` when it is called. -/
theorem sys_task_wait_reaps_dead_iff (s : Threads) (p : UInt32) {acts : List Call}
    (hacts : AllSteps System.step System.Enabled (.boot s p) acts) :
    AllSteps System.step ReapsDead (.boot s p) acts ↔ AllSteps System.step WaitsForDead (.boot s p) acts :=
  allSteps_iff System.Invariant (fun _ _ h henabled => (step_reaps h henabled).1)
    (fun _ _ h henabled => (step_reaps h henabled).2) (boot_invariant s p) hacts

/-- Memory with nothing in it. -/
def blank : Threads :=
  { tcbs := fun _ => ⟨0, 0, 0, 0, 0, NULL, NULL, 0⟩, waits := fun _ => ⟨NULL, NULL⟩, g_resched := 0
    g_task_head := NULL, g_task_running := NULL, task0 := NULL, g_task_own_fpu := NULL, tid := 0, heap := [] }

/-- The second thread exits and the first one waits for it. -/
theorem exited_thread_reaped : AllSteps System.step ReapsDead (.boot blank 0xc1000000)
    [.create 0xc1001000 0, .create 0xc1002000 0, .install 0xc1002000, .exit 7, .install 0xc1001000,
      .wait 0xc1001f00 2] :=
  (sys_task_wait_reaps_dead_iff blank 0xc1000000 (by decide +kernel)).mpr (by decide +kernel)

/-- The first thread waits for the second one, which has not run yet. -/
theorem live_thread_reaped : ∃ acts, AllSteps System.step System.Enabled (.boot blank 0xc1000000) acts ∧
    ¬ AllSteps System.step ReapsDead (.boot blank 0xc1000000) acts := by
  refine ⟨[.create 0xc1001000 0, .create 0xc1002000 0, .install 0xc1001000, .wait 0xc1001f00 2],
    by decide +kernel, ?_⟩
  rintro ⟨-, -, -, hwait, -⟩
  obtain ⟨sys, hsys⟩ : ∃ sys, sys = (((System.boot blank 0xc1000000).step (.create 0xc1001000 0)).step
      (.create 0xc1002000 0)).step (.install 0xc1001000) := ⟨_, rfl⟩
  rw [← hsys] at hwait
  have hresult : (sys_task_wait sys.threads 0xc1001f00 2).map (fun r => (r.1, r.2.1)) = some (0, some 0) := by
    rw [hsys]
    decide +kernel
  have hexits : sys.exits = [] := by
    rw [hsys]
    decide +kernel
  obtain ⟨⟨r, code, t⟩, hcall, hpair⟩ := Option.map_eq_some_iff.mp hresult
  obtain ⟨rfl, rfl⟩ := Prod.mk.inj hpair
  obtain ⟨x, -, hexit⟩ := hwait.code _ _ _ t rfl hcall
  rw [hexits] at hexit
  exact absurd hexit List.not_mem_nil

end epos.thread
