import Epos.Entry.Save

open arm words epos.task

namespace epos.entry

/-- Back from the C functions, with the entry of task `TID` to be restored. -/
structure Ready (m : Machine) (TID : UInt8) : Prop where
  mode : m.mode = PSR_MODE_SVC
  pc : m.pc = restore_addr
  literals : Literals m.mem
  kstack : m.mem task_global_addr = task_table_entry TID

/-! The tail keeps the pc and the cpsr on the stack of the task it restores. -/

def scratch_pc (mem : UInt32 → UInt32) (e : UInt32) : UInt32 → UInt32 :=
  store mem (mem (e + 52) - 4) (mem (e + 60))

def scratch_psr (mem : UInt32 → UInt32) (e : UInt32) : UInt32 → UInt32 :=
  store (scratch_pc mem e) (mem (e + 52) - 8) (scratch_pc mem e (e + 64))

/-- The registers when only the pc is still to be loaded. -/
structure Loaded (m m' : Machine) (e : UInt32) : Prop where
  r0 : m'.r 0 = scratch_psr m.mem e e
  r1 : m'.r 1 = scratch_psr m.mem e (e + 4)
  general : ∀ p ∈ restore_general, m'.r p.1 = m.mem (e + p.2)
  sp : m'.sp PSR_MODE_SVC = m.mem (e + 52)
  lr : m'.lr PSR_MODE_SVC = m.mem (e + 56)
  cpsr : m'.cpsr = merge FC_MASK m.cpsr (scratch_pc m.mem e (e + 64))
  mem : m'.mem = scratch_psr m.mem e

theorem restore_load_spec {m : Machine} {TID : UInt8} (hready : Ready m TID) :
    ∃ r, exec_list restore_load m = some { m with r, pc := m.pc + 12 } ∧
      r 0 = task_table_entry TID := by
  obtain ⟨r, sp, lr, spsr, cpsr, pc, mem⟩ := m
  obtain ⟨-, hpc, ⟨-, -, hliteral⟩, hkstack⟩ := hready
  simp only [restore_addr, task_global_addr] at hpc hliteral hkstack
  subst hpc
  have hword : Aligned 0xc000819c := rfl
  have hglobal : Aligned 0xc0057344 := rfl
  simp -implicitDefEqProofs only [restore_load, Fin.isValue, UInt32.reduceSub, exec_list_cons,
    exec_task_global_word, store, UInt32.reduceAdd, Option.bind_some, al_exec, Op.exec, Machine.get,
    ↓reduceIte, hword, load_aligned, hliteral, Fin.reduceEq, Machine.next, Machine.set,
    Function.update_self, UInt32.add_zero, hglobal, hkstack, exec_list_nil, Option.some.injEq,
    Machine.mk.injEq, and_self, and_true, exists_eq_left']

/-- What follows the general registers, up to the switch to the cpsr of the task. -/
def restore_bank : List Instr :=
  [al (.ldr 13 0 52), al (.ldr 14 0 56), al (.ldr 1 0 60), al (.str 1 13 (0 - 4)), al (.ldr 1 0 64),
   al (.str 1 13 (0 - 8)), al (.msr_cpsr_fc 1)]

/-- It needs an aligned stack pointer. -/
theorem restore_bank_spec {m : Machine} {TID : UInt8} (hbase : m.r 0 = task_table_entry TID)
    (hmode : m.mode = PSR_MODE_SVC) (hsp : Aligned (m.mem (task_table_entry TID + 52))) :
    exec_list restore_bank m = some { m with
      r := store m.r 1 (scratch_pc m.mem (task_table_entry TID) (task_table_entry TID + 64))
      sp := store m.sp PSR_MODE_SVC (m.mem (task_table_entry TID + 52))
      lr := store m.lr PSR_MODE_SVC (m.mem (task_table_entry TID + 56))
      cpsr := merge FC_MASK m.cpsr (scratch_pc m.mem (task_table_entry TID) (task_table_entry TID + 64))
      pc := m.pc + 28
      mem := scratch_psr m.mem (task_table_entry TID) } := by
  obtain ⟨r, sp, lr, spsr, cpsr, pc, mem⟩ := m
  have hword : ∀ off : UInt32, Aligned off → Aligned (task_table_entry TID + off) :=
    fun off => aligned_add (task_table_entry_aligned TID)
  have h52 := hword 52 rfl
  have h56 := hword 56 rfl
  have h60 := hword 60 rfl
  have h64 := hword 64 rfl
  have hupper : Aligned (mem (task_table_entry TID + 52) + 4294967292) := aligned_add hsp rfl
  have hlower : Aligned (mem (task_table_entry TID + 52) + 4294967288) := aligned_add hsp rfl
  simp only [mode_mk, PSR_MODE_SVC] at hmode hbase
  simp -implicitDefEqProofs only [restore_bank, Fin.isValue, UInt32.reduceSub, exec_list_cons, al_exec,
    Op.exec, Machine.get, Fin.reduceEq, ↓reduceIte, hbase, h52, load_aligned, Machine.next, Machine.set,
    mode_mk, hmode, Option.bind_some, h56, h60, Function.update_self, hupper, write_aligned, store,
    Option.map_some, ne_eq, Fin.zero_eq_one_iff, Nat.reduceEqDiff, not_false_eq_true, Function.update_of_ne,
    h64, Function.update_idem, hlower, exec_list_nil, Option.some.injEq, Machine.mk.injEq, true_and]
  have hfour : ∀ a : UInt32, a + 4294967292 = a - 4 := fun a => (UInt32.sub_eq_add_neg a 4).symm
  have height : ∀ a : UInt32, a + 4294967288 = a - 8 := fun a => (UInt32.sub_eq_add_neg a 8).symm
  simp only [scratch_psr, scratch_pc, store, PSR_MODE_SVC, hfour, height, UInt32.add_assoc,
    UInt32.reduceAdd, and_self]

/-- A load of r0 or r1 from the entry that r0 points to. -/
theorem exec_ldr_entry (TID : UInt8) {m : Machine} (hbase : m.r 0 = task_table_entry TID) {n : Reg}
    (hn : n < 13) {off : UInt32} (hoff : Aligned off) :
    (al (.ldr n 0 off)).exec m =
      some { m with r := store m.r n (m.mem (task_table_entry TID + off)), pc := m.pc + 4 } := by
  have hword : Aligned (task_table_entry TID + off) := aligned_add (task_table_entry_aligned TID) hoff
  have haddr : m.get 0 + off = task_table_entry TID + off := by rw [get_general (by decide), hbase]
  exact exec_ldr hn haddr hword rfl

/-- The rest of the tail up to the jump. -/
theorem restore_svc_spec {m : Machine} {TID : UInt8} (hbase : m.r 0 = task_table_entry TID)
    (hmode : m.mode = PSR_MODE_SVC) (hsp : Aligned (m.mem (task_table_entry TID + 52))) :
    exec_list restore_svc m = some { m with
      r := store (store m.r 1 (scratch_psr m.mem (task_table_entry TID) (task_table_entry TID + 4))) 0
        (scratch_psr m.mem (task_table_entry TID) (task_table_entry TID))
      sp := store m.sp PSR_MODE_SVC (m.mem (task_table_entry TID + 52))
      lr := store m.lr PSR_MODE_SVC (m.mem (task_table_entry TID + 56))
      cpsr := merge FC_MASK m.cpsr (scratch_pc m.mem (task_table_entry TID) (task_table_entry TID + 64))
      pc := m.pc + 36
      mem := scratch_psr m.mem (task_table_entry TID) } := by
  have hsplit : restore_svc = restore_bank ++ [al (.ldr 1 0 4), al (.ldr 0 0 0)] := rfl
  have hne : (0 : Reg) ≠ 1 := by decide
  have hfirst : Aligned 0 := rfl
  have hsecond : Aligned 4 := rfl
  rw [hsplit, exec_list_append, restore_bank_spec hbase hmode hsp, Option.bind_some, exec_list_cons,
    exec_ldr_entry TID _ (by decide) hsecond, Option.bind_some, exec_list_cons,
    exec_ldr_entry TID _ (by decide) hfirst]
  · have hlast : ∀ old : UInt32, store (store m.r 1 old) 1
        (scratch_psr m.mem (task_table_entry TID) (task_table_entry TID + 4)) =
        store m.r 1 (scratch_psr m.mem (task_table_entry TID) (task_table_entry TID + 4)) :=
      fun old => Function.update_idem _ _ _
    simp only [Option.bind_some, exec_list_nil, hlast, UInt32.add_zero, UInt32.add_assoc]
    rfl
  · simp only [store_of_ne hne, hbase]
  · simp only [store_of_ne hne, hbase]

theorem restore_svc_unaligned {m : Machine} {TID : UInt8} (hbase : m.r 0 = task_table_entry TID)
    (hmode : m.mode = PSR_MODE_SVC) (hsp : ¬ Aligned (m.mem (task_table_entry TID + 52))) :
    exec_list restore_svc m = none := by
  obtain ⟨r, sp, lr, spsr, cpsr, pc, mem⟩ := m
  have hword : ∀ off : UInt32, Aligned off → Aligned (task_table_entry TID + off) :=
    fun off => aligned_add (task_table_entry_aligned TID)
  have h52 := hword 52 rfl
  have h56 := hword 56 rfl
  have h60 := hword 60 rfl
  have hupper : ¬ Aligned (mem (task_table_entry TID + 52) + 4294967292) := by
    intro hstack
    have hback : Aligned (mem (task_table_entry TID + 52) + 4294967292 + 4) := aligned_add hstack rfl
    rw [UInt32.add_assoc] at hback
    exact hsp (by simpa using hback)
  simp only [mode_mk, PSR_MODE_SVC] at hmode hbase
  simp -implicitDefEqProofs only [restore_svc, Fin.isValue, UInt32.reduceSub, exec_list_cons, al_exec,
    Op.exec, Machine.get, Fin.reduceEq, ↓reduceIte, hbase, h52, load_aligned, Machine.next, Machine.set,
    mode_mk, hmode, Option.bind_some, h56, h60, Machine.write, Function.update_self, hupper,
    Option.map_none, Option.bind_none]

theorem restore_general_spec {m : Machine} {TID : UInt8} (hbase : m.r 0 = task_table_entry TID) :
    ∃ r, exec_list (restore_general.map fun p => al (.ldr p.1 0 p.2)) m =
        some { m with r, pc := m.pc + 44 } ∧
      r 0 = task_table_entry TID ∧
      ∀ p ∈ restore_general, r p.1 = m.mem (task_table_entry TID + p.2) := by
  have haligned : ∀ p ∈ restore_general, Aligned (m.r 0 + p.2) := by
    intro p hp
    rw [hbase]
    have hoffset : ∀ q ∈ restore_general, Aligned q.2 := by decide
    exact aligned_add (task_table_entry_aligned TID) (hoffset p hp)
  have hblock := exec_ldr_block restore_general (by decide) (by decide) haligned
  rw [hbase] at hblock
  have hregs : (restore_general.map fun p => (p.1, m.mem (task_table_entry TID + p.2))).map Prod.fst =
      [2, 3, 4, 5, 6, 7, 8, 9, 10, 11, 12] := rfl
  refine ⟨_, hblock, ?_, fun p hp => ?_⟩
  · have hkept : (0 : Reg) ∉ (restore_general.map fun p => (p.1, m.mem (task_table_entry TID + p.2))).map
        Prod.fst := by
      rw [hregs]
      decide
    rw [storeAll_of_not_mem hkept, hbase]
  · apply storeAll_of_mem
    · rw [hregs]
      decide
    · exact List.mem_map.mpr ⟨p, hp, rfl⟩

/-- The tail up to the jump. -/
theorem restore_listing_spec {m : Machine} {TID : UInt8} (hready : Ready m TID)
    (hsp : Aligned (m.mem (task_table_entry TID + 52))) :
    ∃ m', exec_list restore_listing m = jump.exec m' ∧ Loaded m m' (task_table_entry TID) := by
  obtain ⟨r₁, hload, hbase₁⟩ := restore_load_spec hready
  obtain ⟨r₂, hgeneral, hbase₂, hloaded⟩ :=
    restore_general_spec (m := { m with r := r₁, pc := m.pc + 12 }) hbase₁
  have hsvc := restore_svc_spec (m := { m with r := r₂, pc := m.pc + 12 + 44 }) hbase₂ hready.mode hsp
  obtain ⟨m', hm'⟩ : ∃ m', exec_list restore_svc { m with r := r₂, pc := m.pc + 12 + 44 } = some m' :=
    ⟨_, hsvc⟩
  have hstate := Option.some.inj (hm'.symm.trans hsvc)
  refine ⟨m', ?_, ?_⟩
  · rw [restore_listing, exec_list_append, exec_list_append, exec_list_append, hload, Option.bind_some,
      hgeneral, Option.bind_some, hm', Option.bind_some, exec_list_cons]
    cases jump.exec m' <;> rfl
  · subst hstate
    have hothers : ∀ p ∈ restore_general, p.1 ≠ 0 ∧ p.1 ≠ 1 := by decide
    refine ⟨?_, ?_, fun p hp => ?_, ?_, ?_, rfl, rfl⟩
    · simp only [store_self]
    · have hone : (1 : Reg) ≠ 0 := by decide
      simp only [store_of_ne hone, store_self]
    · simp only [store_of_ne (hothers p hp).1, store_of_ne (hothers p hp).2]
      exact hloaded p hp
    · simp only [store_self]
    · simp only [store_self]

theorem restore_listing_unaligned {m : Machine} {TID : UInt8} (hready : Ready m TID)
    (hsp : ¬ Aligned (m.mem (task_table_entry TID + 52))) : exec_list restore_listing m = none := by
  obtain ⟨r₁, hload, hbase₁⟩ := restore_load_spec hready
  obtain ⟨r₂, hgeneral, hbase₂, -⟩ :=
    restore_general_spec (m := { m with r := r₁, pc := m.pc + 12 }) hbase₁
  have hsvc := restore_svc_unaligned (m := { m with r := r₂, pc := m.pc + 12 + 44 }) hbase₂ hready.mode hsp
  rw [restore_listing, exec_list_append, exec_list_append, exec_list_append, hload, Option.bind_some,
    hgeneral, Option.bind_some, hsvc]
  rfl

end epos.entry
