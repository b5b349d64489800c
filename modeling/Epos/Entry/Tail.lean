import Epos.Entry.Switch

open arm words epos.task

namespace epos.entry

/-! The tail of the path, one instruction after the other. -/

/-- Where instruction `k` of the tail is. -/
def tail_addr (k : Nat) : UInt32 := restore_addr + 4 * UInt32.ofNat k

/-- `msr` is instruction 20. From here on IRQs may be enabled. -/
def SWITCHED : Nat := 21

/-- The last instruction, which loads the pc. -/
def JUMP : Nat := 23

theorem tail_take_eq {m : Machine} (hpc : m.pc = restore_addr) {k : Nat} (hk : k ≤ 23) :
    run text k m = exec_list (restore_listing.take k) m := by
  have hlisted : ∀ k < 24, listed text restore_addr (restore_listing.take k) = true := by decide +kernel
  have hstraight : ∀ k < 24, straight (restore_listing.take k) = true := by decide
  have hlength : ∀ k < 24, (restore_listing.take k).length = k := by decide
  have hrun := run_eq_exec_list text (m := m) (hpc ▸ hlisted k (by omega)) (hstraight k (by omega))
  rwa [hlength k (by omega)] at hrun

/-- Before the `msr` the cpsr is the one that the path has masked IRQs in. -/
theorem masked_before_switch {m b : Machine} (hpc : m.pc = restore_addr) {k : Nat}
    (hk : k < SWITCHED) (hrun : run text k m = some b) : b.cpsr = m.cpsr := by
  have hk' : k ≤ 20 := Nat.le_of_lt_succ hk
  rw [tail_take_eq hpc (by omega)] at hrun
  have hno : ∀ i ∈ restore_listing.take 20, i.op.writes_cpsr = false := by decide
  apply exec_list_cpsr _ hrun
  intro i hi
  exact hno i (List.take_subset_take_left _ hk' hi)

/-- The words below a stack pointer, which the tail writes, are none of those that
the path reads. -/
structure StackApart (sp : UInt32) (TID : UInt8) : Prop where
  table : ∀ off ∈ entry_offsets, task_table_entry TID + off ≠ sp - 4 ∧ task_table_entry TID + off ≠ sp - 8
  path : ∀ a ∈ [(0xc0008110 : UInt32), 0xc0008188, 0xc000819c, task_global_addr], a ≠ sp - 4 ∧ a ≠ sp - 8

/-- `b` is the state before instruction `k` of the tail, one of those after the `msr`. -/
structure AtBoundary (m b : Machine) (TID : UInt8) (k : Nat) : Prop where
  pc : b.pc = tail_addr k
  r0 : b.r 0 = if k = JUMP then m.mem (task_table_entry TID) else task_table_entry TID
  r1 : b.r 1 = if k = SWITCHED then m.mem (task_table_entry TID + 64) else m.mem (task_table_entry TID + 4)
  general : ∀ p ∈ restore_general, b.r p.1 = m.mem (task_table_entry TID + p.2)
  sp : b.sp = store m.sp PSR_MODE_SVC (m.mem (task_table_entry TID + 52))
  lr : b.lr = store m.lr PSR_MODE_SVC (m.mem (task_table_entry TID + 56))
  cpsr : b.cpsr = merge FC_MASK m.cpsr (m.mem (task_table_entry TID + 64))
  mem : b.mem = scratch_psr m.mem (task_table_entry TID)

section Boundaries

variable {m : Machine} {TID : UInt8}

/-- What the tail writes changes no word that the path reads. -/
theorem scratch_psr_apart {mem : UInt32 → UInt32} {a : UInt32}
    (hupper : a ≠ mem (task_table_entry TID + 52) - 4) (hlower : a ≠ mem (task_table_entry TID + 52) - 8) :
    scratch_psr mem (task_table_entry TID) a = mem a := by
  rw [scratch_psr, store_of_ne hlower, scratch_pc, store_of_ne hupper]

theorem scratch_psr_entry {mem : UInt32 → UInt32}
    (hstack : StackApart (mem (task_table_entry TID + 52)) TID) {off : UInt32} (hoff : off ∈ entry_offsets) :
    scratch_psr mem (task_table_entry TID) (task_table_entry TID + off) = mem (task_table_entry TID + off) :=
  scratch_psr_apart (hstack.table off hoff).1 (hstack.table off hoff).2

/-- The tail up to the switch. -/
theorem tail_switched (hready : Ready m TID) (hsp : Aligned (m.mem (task_table_entry TID + 52)))
    (hstack : StackApart (m.mem (task_table_entry TID + 52)) TID) :
    ∃ b, exec_list (restore_listing.take 21) m = some b ∧ AtBoundary m b TID 21 := by
  have hsplit : restore_listing.take 21 =
      restore_load ++ (restore_general.map fun p => al (.ldr p.1 0 p.2)) ++ restore_bank := rfl
  obtain ⟨r₁, hload, hbase₁⟩ := restore_load_spec hready
  obtain ⟨r₂, hgeneral, hbase₂, hloaded⟩ :=
    restore_general_spec (m := { m with r := r₁, pc := m.pc + 12 }) hbase₁
  have hbank := restore_bank_spec (m := { m with r := r₂, pc := m.pc + 12 + 44 }) hbase₂ hready.mode hsp
  have hstatus : scratch_pc m.mem (task_table_entry TID) (task_table_entry TID + 64) =
      m.mem (task_table_entry TID + 64) := by
    rw [scratch_pc, store_of_ne (hstack.table 64 (by decide)).1]
  simp only [hstatus] at hbank
  refine ⟨_, by rw [hsplit, exec_list_append, exec_list_append, hload, Option.bind_some, hgeneral,
    Option.bind_some, hbank], ?_⟩
  have hne : ∀ p ∈ restore_general, p.1 ≠ 1 := by decide
  constructor
  · simp only [hready.pc, UInt32.add_assoc]
    decide
  · have hzero : (0 : Reg) ≠ 1 := by decide
    rw [if_neg (by decide)]
    simp only [store_of_ne hzero, hbase₂]
  · rw [if_pos (by decide)]
    simp only [store_self]
  · intro p hp
    simp only [store_of_ne (hne p hp), hloaded p hp]
  · rfl
  · rfl
  · rfl
  · rfl

/-- The tail up to instruction `k`, from the switch to the jump. -/
theorem exists_boundary (hready : Ready m TID) (hsp : Aligned (m.mem (task_table_entry TID + 52)))
    (hstack : StackApart (m.mem (task_table_entry TID + 52)) TID) {k : Nat} (hlow : SWITCHED ≤ k)
    (hhigh : k ≤ JUMP) : ∃ b, run text k m = some b ∧ AtBoundary m b TID k := by
  have hzero : Aligned 0 := rfl
  have hfour : Aligned 4 := rfl
  obtain ⟨b, hb, hat⟩ := tail_switched hready hsp hstack
  have hr0 : b.r 0 = task_table_entry TID := hat.r0
  have hword1 : b.mem (task_table_entry TID + 4) = m.mem (task_table_entry TID + 4) := by
    rw [hat.mem]
    exact scratch_psr_entry hstack (by decide)
  have hword0 : b.mem (task_table_entry TID + 0) = m.mem (task_table_entry TID) := by
    rw [hat.mem, scratch_psr_entry hstack (by decide), UInt32.add_zero]
  have hfirst := exec_ldr_entry TID hr0 (n := 1) (by decide) hfour
  have hzero_one : (0 : Reg) ≠ 1 := by decide
  have hr0' : store b.r 1 (b.mem (task_table_entry TID + 4)) 0 = task_table_entry TID :=
    (store_of_ne hzero_one).trans hr0
  have hsecond := exec_ldr_entry TID
    (m := { b with r := store b.r 1 (b.mem (task_table_entry TID + 4)), pc := b.pc + 4 }) hr0' (n := 0)
    (by decide) hzero
  have hothers : ∀ p ∈ restore_general, p.1 ≠ 0 ∧ p.1 ≠ 1 := by decide
  rw [tail_take_eq hready.pc hhigh]
  have hcases : k = 21 ∨ k = 22 ∨ k = 23 := by
    simp only [SWITCHED, JUMP] at hlow hhigh
    omega
  obtain rfl | rfl | rfl := hcases
  · exact ⟨b, hb, hat⟩
  · have htake : restore_listing.take 22 = restore_listing.take 21 ++ [al (.ldr 1 0 4)] := rfl
    refine ⟨_, by rw [htake, exec_list_append, hb, Option.bind_some, exec_list_cons, hfirst]; rfl, ?_⟩
    refine ⟨?_, hr0', ?_, fun p hp => ?_, hat.sp, hat.lr, hat.cpsr, hat.mem⟩
    · simp only [hat.pc]
      decide
    · rw [if_neg (by decide), ← hword1]
      simp only [store_self]
    · rw [← hat.general p hp]
      simp only [store_of_ne (hothers p hp).2]
  · have htake : restore_listing.take 23 =
        restore_listing.take 21 ++ [al (.ldr 1 0 4), al (.ldr 0 0 0)] := rfl
    refine ⟨_, by rw [htake, exec_list_append, hb, Option.bind_some, exec_list_cons, hfirst,
      Option.bind_some, exec_list_cons, hsecond]; rfl, ?_⟩
    refine ⟨?_, ?_, ?_, fun p hp => ?_, hat.sp, hat.lr, hat.cpsr, hat.mem⟩
    · simp only [hat.pc]
      decide
    · rw [if_pos (by decide), ← hword0]
      simp only [store_self]
    · rw [if_neg (by decide), ← hword1]
      simp only [store_of_ne hzero_one.symm, store_self]
    · rw [← hat.general p hp]
      simp only [store_of_ne (hothers p hp).1, store_of_ne (hothers p hp).2]

end Boundaries

end epos.entry
