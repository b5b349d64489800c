import Epos.Entry.Tail

open arm words epos.task

namespace epos.entry

/-- The tail is about to restore task `TID`, whose stack is in no word of its
entry. IRQs are masked, and the words between the instructions do not change r7. -/
structure Restoring (m : Machine) (TID : UInt8) : Prop where
  ready : Ready m TID
  masked : flag m.cpsr 7 = true
  irq_sp : m.sp PSR_MODE_IRQ = 0x8000
  mode : m.mem (task_table_entry TID + 64) &&& MODE_MASK = PSR_MODE_SVC
  sp : Aligned (m.mem (task_table_entry TID + 52))
  stack : StackApart (m.mem (task_table_entry TID + 52)) TID
  r7 : passes (m.mem (task_table_entry TID + 64)) 12 = true → m.mem (task_table_entry TID + 28) =
    m.mem (task_table_entry TID + 20) &&& asr (m.mem (task_table_entry TID + 16)) 6

/-- The bits of the cpsr that hold the condition flags. -/
def FLAGS_MASK : UInt32 := 0xF0000000

/-- The task goes on with what its entry in `m` holds. -/
structure Continues (m final : Machine) (TID : UInt8) : Prop where
  general : ∀ n < 13, final.r n = m.mem (task_table_entry TID + 4 * UInt32.ofNat n.val)
  sp : final.sp PSR_MODE_SVC = m.mem (task_table_entry TID + 52)
  lr : final.lr PSR_MODE_SVC = m.mem (task_table_entry TID + 56)
  pc : final.pc = m.mem (task_table_entry TID + 60)
  flags : final.cpsr &&& FLAGS_MASK = m.mem (task_table_entry TID + 64) &&& FLAGS_MASK

/-- If the tail, before its instruction `k`, can be interrupted, the task is saved
and after any number of switches among other tasks it comes to its own state. -/
def ReentrantAt (m : Machine) (TID : UInt8) (k : Nat) : Prop :=
  ∀ b, run text k m = some b → flag b.cpsr 7 = false →
    ∃ saved, save b = some saved ∧
      ∀ m₂, Relation.ReflTransGen (Elsewhere TID) saved m₂ → Ready m₂ TID →
        ∃ resumed, restore m₂ = some resumed ∧ ∃ n final, run text n resumed = some final ∧ Continues m final TID

def Reentrant (m : Machine) (TID : UInt8) : Prop := ∀ k ≤ JUMP, ReentrantAt m TID k

theorem passes_merge (old new : UInt32) : passes (merge FC_MASK old new) 12 = passes new 12 := by
  have hwritten : ∀ bit < 32, flag FC_MASK bit = true → flag (merge FC_MASK old new) bit = flag new bit := by
    intro bit hbit hmask
    rw [flag_merge _ _ _ hbit, hmask]
    rfl
  simp only [passes]
  rw [hwritten 28 (by decide) (by decide), hwritten 30 (by decide) (by decide),
    hwritten 31 (by decide) (by decide)]

section Interruption

variable {m b : Machine} {TID : UInt8} {k : Nat}

theorem AtBoundary.interrupted (hrestoring : Restoring m TID) (hat : AtBoundary m b TID k)
    (hhigh : k ≤ JUMP) : Interrupted b TID := by
  have haligned : ∀ k ≤ JUMP, Aligned (tail_addr k) := by decide
  have hmodes : PSR_MODE_IRQ ≠ PSR_MODE_SVC := by decide
  have hkept : ∀ a ∈ [(0xc0008110 : UInt32), 0xc0008188, 0xc000819c, task_global_addr], b.mem a = m.mem a := by
    intro a ha
    rw [hat.mem]
    exact scratch_psr_apart (hrestoring.stack.path a ha).1 (hrestoring.stack.path a ha).2
  obtain ⟨hfirst, hsecond, hthird⟩ := hrestoring.ready.literals
  refine ⟨?_, ?_, ?_, ⟨?_, ?_, ?_⟩, ?_⟩
  · rw [Machine.mode, hat.cpsr, merge_and_inside (by decide) (by decide)]
    exact hrestoring.mode
  · rw [hat.pc]
    exact haligned k hhigh
  · rw [hat.sp, store_of_ne hmodes]
    exact hrestoring.irq_sp
  · rw [hkept _ (by simp), hfirst]
  · rw [hkept _ (by simp), hsecond]
  · rw [hkept _ (by simp), hthird]
  · rw [hkept _ (by simp)]
    exact hrestoring.ready.kstack

theorem AtBoundary.sp_svc (hat : AtBoundary m b TID k) :
    b.sp PSR_MODE_SVC = m.mem (task_table_entry TID + 52) := by
  rw [hat.sp, store_self]

theorem AtBoundary.lr_svc (hat : AtBoundary m b TID k) :
    b.lr PSR_MODE_SVC = m.mem (task_table_entry TID + 56) := by
  rw [hat.lr, store_self]

theorem AtBoundary.r7 (hrestoring : Restoring m TID) (hat : AtBoundary m b TID k)
    (hpasses : passes b.cpsr 12 = true) : b.r 7 = b.r 5 &&& asr (b.r 4) 6 := by
  rw [hat.cpsr, passes_merge] at hpasses
  rw [hat.general (7, 28) (by decide), hat.general (5, 20) (by decide), hat.general (4, 16) (by decide)]
  exact hrestoring.r7 hpasses

theorem AtBoundary.scratchHarmless (hrestoring : Restoring m TID) (hat : AtBoundary m b TID k) :
    ScratchHarmless b (task_table_entry TID) := by
  have htable := hrestoring.stack.table
  rw [← hat.sp_svc] at htable
  have hfirst := htable 0 (by decide)
  rw [UInt32.add_zero] at hfirst
  have hsecond := htable 4 (by decide)
  exact ⟨(htable 64 (by decide)).1.symm, fun h => absurd h.symm hfirst.1, fun h => absurd h.symm hsecond.1,
    fun h => absurd h.symm hfirst.2, fun h => absurd h.symm hsecond.2⟩

end Interruption

/-- Between instruction `k` of the tail and its jump, which leads back to `k`. -/
structure Looping (c : Machine) (TID : UInt8) (k : Nat) : Prop where
  mode : c.mode = PSR_MODE_SVC
  sp : Aligned (c.sp PSR_MODE_SVC)
  back : c.mem (c.sp PSR_MODE_SVC - 4) = tail_addr k
  r0 : k < JUMP → c.r 0 = task_table_entry TID
  word0 : c.mem (task_table_entry TID) = c.r 0
  word1 : c.mem (task_table_entry TID + 4) = c.r 1

section Loop

variable {c : Machine} {TID : UInt8} {k : Nat}

theorem Looping.at_pc (hloop : Looping c TID k) (pc : UInt32) : Looping { c with pc } TID k :=
  ⟨hloop.mode, hloop.sp, hloop.back, hloop.r0, hloop.word0, hloop.word1⟩

/-- A register that is loaded with the word it holds stays as it is. -/
theorem exec_ldr_same {n : Reg} (hn : n < 13) {off : UInt32} (hoff : Aligned off)
    (hbase : c.r 0 = task_table_entry TID) (hsame : c.mem (task_table_entry TID + off) = c.r n) :
    (al (.ldr n 0 off)).exec c = some { c with pc := c.pc + 4 } := by
  rw [exec_ldr_entry TID hbase hn hoff, hsame, store, Function.update_eq_self]

/-- One instruction of the loop changes the pc alone. -/
theorem Looping.step (hloop : Looping c TID k) (hlow : SWITCHED ≤ k) {j : Nat} (hj : k ≤ j) (hhigh : j ≤ JUMP)
    (hpc : c.pc = tail_addr j) :
    arm.step text c = some { c with pc := tail_addr (if j = JUMP then k else j + 1) } := by
  have hcases : j = 21 ∨ j = 22 ∨ j = 23 := by
    simp only [SWITCHED, JUMP] at hlow hhigh
    omega
  have hfirst : (text (tail_addr 21)).bind decode = some (al (.ldr 1 0 4)) := by decide +kernel
  have hsecond : (text (tail_addr 22)).bind decode = some (al (.ldr 0 0 0)) := by decide +kernel
  have hlast : (text (tail_addr 23)).bind decode = some jump := by decide +kernel
  obtain rfl | rfl | rfl := hcases
  · rw [← hpc] at hfirst
    have hoff : Aligned 4 := rfl
    have hexec := exec_ldr_same (n := 1) (by decide) hoff (hloop.r0 (Nat.lt_of_le_of_lt hj (by decide)))
      hloop.word1
    rw [step_of_decode text hfirst, hexec, hpc]
    rfl
  · rw [← hpc] at hsecond
    have hword : c.mem (task_table_entry TID + 0) = c.r 0 := by
      rw [UInt32.add_zero]
      exact hloop.word0
    have hoff : Aligned 0 := rfl
    have hexec := exec_ldr_same (n := 0) (by decide) hoff (hloop.r0 (Nat.lt_of_le_of_lt hj (by decide)))
      hword
    rw [step_of_decode text hsecond, hexec, hpc]
    rfl
  · rw [← hpc] at hlast
    have hget : c.get 13 = c.sp PSR_MODE_SVC := by
      rw [← hloop.mode]
      rfl
    have haligned : ∀ k ≤ JUMP, Aligned (tail_addr k) := by decide
    have hexec := jump_exec (m := c) (hget ▸ hloop.sp) (by rw [hget, hloop.back]; exact haligned k hj)
    rw [step_of_decode text hlast, hexec, hget, hloop.back]
    rfl

/-- However long it runs, the loop is not left and no register changes. -/
theorem Looping.run (hloop : Looping c TID k) (hlow : SWITCHED ≤ k) {j : Nat} (hj : k ≤ j) (hhigh : j ≤ JUMP)
    (hpc : c.pc = tail_addr j) (n : Nat) :
    ∃ j', k ≤ j' ∧ j' ≤ JUMP ∧ arm.run text n c = some { c with pc := tail_addr j' } := by
  induction n generalizing c j with
  | zero => exact ⟨j, hj, hhigh, by rw [← hpc]; rfl⟩
  | succ n ih =>
    rw [arm.run, hloop.step hlow hj hhigh hpc, Option.bind_some]
    by_cases hlast : j = JUMP
    · rw [if_pos hlast]
      exact ih (hloop.at_pc _) (Nat.le_refl k) (Nat.le_trans hj hhigh) rfl
    · rw [if_neg hlast]
      exact ih (hloop.at_pc _) (Nat.le_succ_of_le hj) (Nat.lt_of_le_of_ne hhigh hlast) rfl

/-- From the top of the loop its jump is reached. -/
theorem Looping.run_to_jump (hloop : Looping c TID k) (hlow : SWITCHED ≤ k) {j : Nat} (hj : k ≤ j)
    {n : Nat} (hn : j + n = JUMP) (hpc : c.pc = tail_addr j) :
    arm.run text n c = some { c with pc := tail_addr JUMP } := by
  induction n generalizing c j with
  | zero =>
    rw [Nat.add_zero] at hn
    rw [← hn, ← hpc]
    rfl
  | succ n ih =>
    have hlt : j ≠ JUMP := by omega
    rw [arm.run, hloop.step hlow hj (by omega) hpc, Option.bind_some, if_neg hlt]
    exact ih (hloop.at_pc _) (Nat.le_succ_of_le hj) (by omega) rfl

end Loop

section Resumption

variable {m b : Machine} {TID : UInt8} {k : Nat}

/-- A task saved in the tail is restored into the loop, because the word below
its stack pointer, where the tail has kept its pc, now leads to the tail. -/
theorem resumes_looping (hrestoring : Restoring m TID) (hat : AtBoundary m b TID k) (hhigh : k ≤ JUMP)
    {m₂ : Machine} (hready : Ready m₂ TID) (hholds : Holds m₂.mem (task_table_entry TID) (saved_context b)) :
    ∃ resumed, restore m₂ = some resumed ∧ Restored b m₂ resumed TID ∧ Looping resumed TID k := by
  have haligned : Aligned (b.sp PSR_MODE_SVC) := hat.sp_svc ▸ hrestoring.sp
  obtain ⟨resumed, hrestore, hrestored⟩ := restore_spec (hat.interrupted hrestoring hhigh) hready hholds
    (hat.r7 hrestoring) haligned (hat.scratchHarmless hrestoring)
  have hsp : m₂.mem (task_table_entry TID + 52) = b.sp PSR_MODE_SVC :=
    hholds (52, _) (by simp [fields, saved_context])
  have hpc : m₂.mem (task_table_entry TID + 60) = b.pc := hholds (60, _) (by simp [fields, saved_context])
  have hr1 : m₂.mem (task_table_entry TID + 4) = b.r 1 := hholds (4, _) (by simp [fields, saved_context])
  have hstack : StackApart (m₂.mem (task_table_entry TID + 52)) TID := by
    rw [hsp, hat.sp_svc]
    exact hrestoring.stack
  refine ⟨resumed, hrestore, hrestored, ?_, hrestored.sp ▸ haligned, ?_, fun hk => ?_, ?_, ?_⟩
  · rw [Machine.mode, hrestored.cpsr, merge_and_inside (by decide) (by decide)]
    exact (hat.interrupted hrestoring hhigh).mode
  · rw [hrestored.mem, hrestored.sp, scratch_psr, hsp, store_of_ne (scratch_apart _), scratch_pc, hsp, store_self,
      hpc, hat.pc]
  · rw [hrestored.general 0 (by decide), hat.r0, if_neg (Nat.ne_of_lt hk)]
  · have hzero : (0 : UInt32) ∈ entry_offsets := by decide
    have hword := scratch_psr_entry hstack hzero
    rw [UInt32.add_zero] at hword
    rw [hrestored.mem, hword, hholds.r0, hrestored.general 0 (by decide)]
  · rw [hrestored.mem, scratch_psr_entry hstack (by decide), hr1, hrestored.general 1 (by decide)]

/-- The C functions may return to the tail for the task just saved. -/
theorem saved_ready (hrestoring : Restoring m TID) (hb : Interrupted b TID) {saved : Machine}
    (hsave : save b = some saved) : Ready { m with mem := saved.mem } TID := by
  have hkept : ∀ a ∈ [(0xc0008110 : UInt32), 0xc0008188, 0xc000819c, task_global_addr],
      saved.mem a = b.mem a := by
    intro a ha
    have hsides : ∀ a ∈ [(0xc0008110 : UInt32), 0xc0008188, 0xc000819c, task_global_addr],
        a ∉ [(0x7FFC : UInt32), 0x7FF8, 0xc100b40c] ∧ (a < 0xc0051f40 ∨ 0xc0056740 ≤ a) := by decide
    exact save_writes hb hsave (hsides a ha).1 fun off hoff => outside_table (hsides a ha).2 hoff
  obtain ⟨hfirst, hsecond, hthird⟩ := hb.literals
  refine ⟨hrestoring.ready.mode, hrestoring.ready.pc, ⟨?_, ?_, ?_⟩, ?_⟩
  · exact (hkept _ (by simp)).trans hfirst
  · exact (hkept _ (by simp)).trans hsecond
  · exact (hkept _ (by simp)).trans hthird
  · exact (hkept _ (by simp)).trans hb.kstack

/-- What a reentrant tail comes to after an IRQ before instruction `k` is one of
the states of the loop. -/
theorem ReentrantAt.loops (hrestoring : Restoring m TID)
    (henabled : flag (m.mem (task_table_entry TID + 64)) 7 = false) (hlow : SWITCHED ≤ k) (hhigh : k ≤ JUMP)
    (hre : ReentrantAt m TID k) :
    ∃ b final j, AtBoundary m b TID k ∧ Continues m final TID ∧ (∀ n < 13, final.r n = b.r n) ∧
      k ≤ j ∧ j ≤ JUMP ∧ final.pc = tail_addr j := by
  obtain ⟨b, hb, hat⟩ := exists_boundary hrestoring.ready hrestoring.sp hrestoring.stack hlow hhigh
  have hinterrupted := hat.interrupted hrestoring hhigh
  have hflag : flag b.cpsr 7 = false := by
    rw [hat.cpsr, flag_merge _ _ _ (by decide)]
    exact henabled
  obtain ⟨saved, hsave, hlater⟩ := hre b hb hflag
  obtain ⟨saved', hsave', hholds⟩ := save_spec hinterrupted
  obtain rfl : saved' = saved := Option.some.inj (hsave'.symm.trans hsave)
  have hready := saved_ready hrestoring hinterrupted hsave
  obtain ⟨resumed, hrestore, n, final, hrun, hcontinues⟩ :=
    hlater { m with mem := saved'.mem } (.single (.code fun _ _ => rfl)) hready
  obtain ⟨resumed', hrestore', hrestored, hloop⟩ := resumes_looping hrestoring hat hhigh hready hholds
  obtain rfl : resumed' = resumed := Option.some.inj (hrestore'.symm.trans hrestore)
  obtain ⟨j, hj, hj', hfinal⟩ := hloop.run hlow (Nat.le_refl k) hhigh (hrestored.pc.trans hat.pc) n
  obtain rfl := Option.some.inj (hfinal.symm.trans hrun)
  exact ⟨b, _, j, hat, hcontinues, hrestored.general, hj, hj', rfl⟩

/-- With the jump alone still to be made, the pc of the task is lost. -/
theorem Reentrant.pc_jump (hrestoring : Restoring m TID)
    (henabled : flag (m.mem (task_table_entry TID + 64)) 7 = false) (hre : Reentrant m TID) :
    m.mem (task_table_entry TID + 60) = tail_addr JUMP := by
  obtain ⟨b, final, j, -, hcontinues, -, hj, hj', hpc⟩ :=
    (hre JUMP (Nat.le_refl _)).loops hrestoring henabled (by decide) (Nat.le_refl _)
  rw [← hcontinues.pc, hpc, Nat.le_antisymm hj' hj]

/-- The tail of a task can be interrupted without harm exactly if the task has
IRQs masked, or is at the jump of the tail itself and has in r0 and r1 what the
tail has there after the switch. -/
theorem restore_reentrant_iff (hrestoring : Restoring m TID) :
    Reentrant m TID ↔ flag (m.mem (task_table_entry TID + 64)) 7 = true ∨
      (m.mem (task_table_entry TID + 60) = tail_addr JUMP ∧
        m.mem (task_table_entry TID) = task_table_entry TID ∧
        m.mem (task_table_entry TID + 4) = m.mem (task_table_entry TID + 64)) := by
  constructor
  · intro hre
    cases henabled : flag (m.mem (task_table_entry TID + 64)) 7 with
    | true => exact .inl rfl
    | false =>
      obtain ⟨b, final, j, hat, hcontinues, hsame, -, -, -⟩ :=
        (hre SWITCHED (by decide)).loops hrestoring henabled (Nat.le_refl _) (by decide)
      have hr0 : final.r 0 = m.mem (task_table_entry TID) := by
        have hzero : 4 * UInt32.ofNat (0 : Reg).val = 0 := rfl
        have hword := hcontinues.general 0 (by decide)
        rwa [hzero, UInt32.add_zero] at hword
      have hr1 : final.r 1 = m.mem (task_table_entry TID + 4) := hcontinues.general 1 (by decide)
      refine .inr ⟨hre.pc_jump hrestoring henabled, ?_, ?_⟩
      · rw [← hr0, hsame 0 (by decide), hat.r0, if_neg (by decide)]
      · rw [← hr1, hsame 1 (by decide), hat.r1, if_pos rfl]
  · intro hcases k hhigh b hb hflag
    have hlow : SWITCHED ≤ k := by
      by_contra hbefore
      rw [masked_before_switch hrestoring.ready.pc (Nat.lt_of_not_le hbefore) hb, hrestoring.masked] at hflag
      cases hflag
    obtain ⟨b', hb', hat⟩ := exists_boundary hrestoring.ready hrestoring.sp hrestoring.stack hlow hhigh
    obtain rfl : b' = b := Option.some.inj (hb'.symm.trans hb)
    have henabled : flag (m.mem (task_table_entry TID + 64)) 7 = false := by
      rw [hat.cpsr, flag_merge _ _ _ (by decide)] at hflag
      exact hflag
    obtain ⟨hpc, hr0, hr1⟩ := hcases.resolve_left (by rw [henabled]; decide)
    obtain ⟨saved, hsave, hholds⟩ := save_spec (hat.interrupted hrestoring hhigh)
    refine ⟨saved, hsave, fun m₂ hrun hready => ?_⟩
    obtain ⟨resumed, hrestore, hrestored, hloop⟩ :=
      resumes_looping hrestoring hat hhigh hready (hholds.same (same_of_elsewhere hrun))
    have hjump := hloop.run_to_jump hlow (Nat.le_refl k) (Nat.add_sub_cancel' hhigh) (hrestored.pc.trans hat.pc)
    have hzero : 4 * UInt32.ofNat (0 : Reg).val = 0 := rfl
    have hone : 4 * UInt32.ofNat (1 : Reg).val = 4 := rfl
    have hoffset : ∀ p ∈ restore_general, p.2 = 4 * UInt32.ofNat p.1.val := by decide
    refine ⟨resumed, hrestore, JUMP - k, _, hjump, fun n hn => ?_, ?_, ?_, hpc.symm, ?_⟩
    · obtain rfl | rfl | ⟨p, hp, rfl⟩ := general_cases n hn
      · refine (hrestored.general 0 hn).trans (hat.r0.trans ?_)
        rw [hzero, UInt32.add_zero, hr0, ite_self]
      · refine (hrestored.general 1 hn).trans (hat.r1.trans ?_)
        rw [hone, hr1, ite_self]
      · rw [← hoffset p hp, ← hat.general p hp]
        exact hrestored.general p.1 hn
    · exact hrestored.sp.trans hat.sp_svc
    · exact hrestored.lr.trans hat.lr_svc
    · have hflags : resumed.cpsr &&& FLAGS_MASK = m.mem (task_table_entry TID + 64) &&& FLAGS_MASK := by
        rw [hrestored.cpsr, merge_and_inside (by decide) (by decide), hat.cpsr,
          merge_and_inside (by decide) (by decide)]
      exact hflags

end Resumption

/-- Task 1 about to be restored, with an empty stack, the given r0, r1, pc and cpsr
in its entry and otherwise zero registers. -/
def restoring_task (r0 r1 pc cpsr : UInt32) : Machine :=
  { r := fun _ => 0
    sp := fun mode => if mode = PSR_MODE_IRQ then 0x8000 else 0xc001273c
    lr := fun _ => 0
    spsr := fun _ => 0
    cpsr := 0xD3
    pc := restore_addr
    mem := fun addr =>
      if addr = 0xc0008110 ∨ addr = 0xc000819c then task_global_addr
      else if addr = 0xc0008188 then 0xc100b400
      else if addr = task_global_addr then task_table_entry 1
      else if addr = task_table_entry 1 then r0
      else if addr = task_table_entry 1 + 4 then r1
      else if addr = task_table_entry 1 + 52 then 0xc001273c
      else if addr = task_table_entry 1 + 60 then pc
      else if addr = task_table_entry 1 + 64 then cpsr
      else 0 }

theorem restoring_task_restoring {r0 r1 pc cpsr : UInt32} (hmode : cpsr &&& MODE_MASK = PSR_MODE_SVC) :
    Restoring (restoring_task r0 r1 pc cpsr) 1 where
  ready := ⟨(by decide : (0xD3 : UInt32) &&& MODE_MASK = PSR_MODE_SVC), rfl, ⟨rfl, rfl, rfl⟩, rfl⟩
  masked := (by decide : flag 0xD3 7 = true)
  irq_sp := rfl
  mode := hmode
  sp := show Aligned 0xc001273c from rfl
  stack := show StackApart 0xc001273c 1 from ⟨by decide, by decide⟩
  r7 _ := show (0 : UInt32) = 0 &&& asr 0 6 from by decide

/-- A task that has IRQs masked is not interrupted in the tail, and one whose own
state is that of the tail before the jump gets back to it. -/
theorem restore_reentrant_task :
    Reentrant (restoring_task 0 0 0xc0008840 0xD3) 1 ∧
      Reentrant (restoring_task (task_table_entry 1) 0x53 (tail_addr JUMP) 0x53) 1 := by
  constructor
  · exact (restore_reentrant_iff (restoring_task_restoring (by decide))).mpr (.inl (by decide))
  · exact (restore_reentrant_iff (restoring_task_restoring (by decide))).mpr (.inr ⟨rfl, rfl, rfl⟩)

/-- Interrupted before the jump, the task never gets to its pc. With 0x53, as
`task_create` writes it, IRQs are enabled. -/
theorem restore_not_reentrant :
    Restoring (restoring_task 0 0 0xc0008840 0x53) 1 ∧ ¬ Reentrant (restoring_task 0 0 0xc0008840 0x53) 1 := by
  have hrestoring : Restoring (restoring_task 0 0 0xc0008840 0x53) 1 := restoring_task_restoring (by decide)
  refine ⟨hrestoring, fun hre => ?_⟩
  have hpc := hre.pc_jump hrestoring (by decide)
  exact absurd hpc (by decide)

end epos.entry
