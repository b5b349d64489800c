import Epos.Entry.Defs
import Mathlib.Algebra.Group.Basic

open arm words epos.task

namespace epos.entry

/-- The words of a context and their offsets in a task table entry. -/
def fields (ctx : context) : List (UInt32 × UInt32) :=
  [(0, ctx.r0), (4, ctx.r1), (8, ctx.r2), (12, ctx.r3), (16, ctx.r4), (20, ctx.r5), (24, ctx.r6),
   (28, ctx.r7), (32, ctx.r8), (36, ctx.r9), (40, ctx.r10), (44, ctx.r11), (48, ctx.r12),
   (52, ctx.sp), (56, ctx.lr), (60, ctx.pc), (64, ctx.cpsr), (68, ctx.spsr)]

/-- The entry at `e` holds the context. -/
def Holds (mem : UInt32 → UInt32) (e : UInt32) (ctx : context) : Prop :=
  ∀ p ∈ fields ctx, mem (e + p.1) = p.2

/-- Executed, the word `.word task_global` is `andgt r7, r5, r4, asr #6`. -/
def task_global_word_r7 (r : Reg → UInt32) (cpsr : UInt32) : UInt32 :=
  if passes cpsr 12 then r 5 &&& asr (r 4) 6 else r 7

/-- What the path finds in the registers when it saves them, from its vector on. -/
def vector_context (m : Machine) : context :=
  { r0 := m.r 0, r1 := m.r 1, r2 := m.r 2, r3 := m.r 3, r4 := m.r 4, r5 := m.r 5, r6 := m.r 6
    r7 := task_global_word_r7 m.r m.cpsr, r8 := m.r 8, r9 := m.r 9, r10 := m.r 10, r11 := m.r 11
    r12 := m.r 12, sp := m.sp PSR_MODE_SVC, lr := m.lr PSR_MODE_SVC, pc := m.lr PSR_MODE_IRQ - 4
    cpsr := m.spsr PSR_MODE_IRQ, spsr := m.spsr PSR_MODE_SVC }

/-- The state at the vector. The stack pointer of IRQ mode is the one set at reset. -/
structure OnVector (m : Machine) (TID : UInt8) : Prop where
  mode : m.mode = PSR_MODE_IRQ
  pc : m.pc = vector_irq_addr
  sp : m.sp PSR_MODE_IRQ = 0x8000
  literals : Literals m.mem
  kstack : m.mem task_global_addr = task_table_entry TID

def scratch_writes (m : Machine) : List (UInt32 × UInt32) := [(0x7FFC, m.r 0), (0x7FF8, m.r 1)]

/-- The stores to the entry, in the order the path makes them. -/
def entry_writes (e : UInt32) (ctx : context) : List (UInt32 × UInt32) :=
  [(e, ctx.r0), (e + 4, ctx.r1), (e + 8, ctx.r2), (e + 12, ctx.r3), (e + 16, ctx.r4),
   (e + 20, ctx.r5), (e + 24, ctx.r6), (e + 28, ctx.r7), (e + 32, ctx.r8), (e + 36, ctx.r9),
   (e + 40, ctx.r10), (e + 44, ctx.r11), (e + 48, ctx.r12), (e + 60, ctx.pc), (e + 64, ctx.cpsr),
   (e + 52, ctx.sp), (e + 56, ctx.lr), (e + 68, ctx.spsr)]

theorem task_table_entry_toNat (TID : UInt8) :
    (task_table_entry TID).toNat = 0xc0051f40 + 72 * TID.toNat := by
  have hlt := TID.toNat_lt
  rw [task_table_entry, UInt32.toNat_add, UInt32.toNat_mul, UInt8.toNat_toUInt32]
  simp only [task_table_addr, UInt32.reduceToNat]
  omega

theorem task_table_entry_aligned (TID : UInt8) : Aligned (task_table_entry TID) := by
  rw [aligned_iff, task_table_entry_toNat]
  omega

/-- An address outside the task table is none of the words of an entry. -/
theorem outside_table {TID : UInt8} {a off : UInt32} (ha : a < 0xc0051f40 ∨ 0xc0056740 ≤ a)
    (hoff : off < 72) : a ≠ task_table_entry TID + off := by
  rintro rfl
  have hlt := TID.toNat_lt
  have hentry := task_table_entry_toNat TID
  rw [UInt32.lt_iff_toNat_lt] at hoff
  simp only [UInt32.reduceToNat] at hoff
  have hsum : (0xc0051f40 + 72 * TID.toNat + off.toNat) % 2 ^ 32 =
      0xc0051f40 + 72 * TID.toNat + off.toNat := Nat.mod_eq_of_lt (by omega)
  rw [UInt32.lt_iff_toNat_lt, UInt32.le_iff_toNat_le, UInt32.toNat_add, hentry, hsum] at ha
  simp only [UInt32.reduceToNat] at ha
  omega

theorem outside_entry_writes {TID : UInt8} {a : UInt32} (hne : ∀ off < 72, a ≠ task_table_entry TID + off)
    (ctx : context) : a ∉ (entry_writes (task_table_entry TID) ctx).map Prod.fst := by
  have hfirst : a ≠ task_table_entry TID := by
    have hzero := hne 0 (by decide)
    rwa [UInt32.add_zero] at hzero
  simp only [entry_writes, List.map_cons, List.map_nil, List.mem_cons, List.not_mem_nil, hfirst, or_false,
    false_or, not_or]
  refine ⟨?_, ?_, ?_, ?_, ?_, ?_, ?_, ?_, ?_, ?_, ?_, ?_, ?_, ?_, ?_, ?_, ?_⟩ <;> exact hne _ (by decide)

theorem mode_mk (r : Reg → UInt32) (sp lr spsr : UInt32 → UInt32) (cpsr pc : UInt32)
    (mem : UInt32 → UInt32) : (Machine.mk r sp lr spsr cpsr pc mem).mode = cpsr &&& MODE_MASK := rfl

theorem exec_task_global_word (m : Machine) :
    Instr.exec m ⟨12, .and_asr 7 5 4 6⟩ =
      some { m with r := store m.r 7 (task_global_word_r7 m.r m.cpsr), pc := m.pc + 4 } := by
  unfold Instr.exec task_global_word_r7
  cases passes m.cpsr 12 with
  | true => rfl
  | false => simp [store, Machine.next]

/-- The return address, and r0 and r1 below the stack of IRQ mode. -/
def scratch_store : List Instr :=
  [al (.sub_imm 14 14 4), al (.str 0 13 (0 - 4)), al (.str 1 13 (0 - 8)), ⟨12, .and_asr 7 5 4 6⟩]

/-- From there on to the entry. -/
def scratch_load : List Instr :=
  [al (.ldr 1 15 (0 - 12)), al (.ldr 0 1 0), al (.ldr 1 13 (0 - 4)), al (.str 1 0 0), al (.ldr 1 13 (0 - 8)),
   al (.str 1 0 4)]

section Scratch

variable {r : Reg → UInt32} {sp lr spsr mem : UInt32 → UInt32} {cpsr pc : UInt32}

theorem scratch_addr (hmode : cpsr &&& MODE_MASK = PSR_MODE_IRQ) (hsp : sp PSR_MODE_IRQ = 0x8000)
    (off : UInt32) :
    (Machine.mk r sp lr spsr cpsr pc mem).get 13 + off = 0x8000 + off := by
  have hget : (Machine.mk r sp lr spsr cpsr pc mem).get 13 = sp (cpsr &&& MODE_MASK) := rfl
  rw [hget, hmode, hsp]

theorem scratch_store_spec (hmode : cpsr &&& MODE_MASK = PSR_MODE_IRQ) (hsp : sp PSR_MODE_IRQ = 0x8000) :
    exec_list scratch_store ⟨r, sp, lr, spsr, cpsr, pc, mem⟩ =
      some ⟨store r 7 (task_global_word_r7 r cpsr), sp, store lr PSR_MODE_IRQ (lr PSR_MODE_IRQ - 4), spsr, cpsr,
        pc + 4 + 4 + 4 + 4, store (store mem 0x7FFC (r 0)) 0x7FF8 (r 1)⟩ := by
  have hreturn : (al (.sub_imm 14 14 4)).exec ⟨r, sp, lr, spsr, cpsr, pc, mem⟩ =
      some ⟨r, sp, store lr PSR_MODE_IRQ (lr PSR_MODE_IRQ - 4), spsr, cpsr, pc + 4, mem⟩ := by
    rw [← hmode]
    rfl
  have hupper : Aligned (0x8000 + (0 - 4)) := rfl
  have hlower : Aligned (0x8000 + (0 - 8)) := rfl
  rw [scratch_store, exec_list_cons, hreturn, Option.bind_some, exec_list_cons,
    exec_str (scratch_addr hmode hsp _) hupper, Option.bind_some, exec_list_cons,
    exec_str (scratch_addr hmode hsp _) hlower, Option.bind_some, exec_list_cons, exec_task_global_word,
    Option.bind_some, exec_list_nil]
  rfl

theorem scratch_load_spec (hmode : cpsr &&& MODE_MASK = PSR_MODE_IRQ) (hsp : sp PSR_MODE_IRQ = 0x8000)
    {TID : UInt8} (hliteral : mem (pc + 8 + (0 - 12)) = task_global_addr) (hpool : Aligned (pc + 8 + (0 - 12)))
    (hkstack : mem task_global_addr = task_table_entry TID) :
    exec_list scratch_load ⟨r, sp, lr, spsr, cpsr, pc, mem⟩ =
      some ⟨store (store r 0 (task_table_entry TID)) 1 (mem 0x7FF8), sp, lr, spsr, cpsr,
        pc + 4 + 4 + 4 + 4 + 4 + 4,
        store (store mem (task_table_entry TID) (mem 0x7FFC)) (task_table_entry TID + 4) (mem 0x7FF8)⟩ := by
  have he := task_table_entry_aligned TID
  have he0 : Aligned (task_table_entry TID + 0) := aligned_add he rfl
  have he4 : Aligned (task_table_entry TID + 4) := aligned_add he rfl
  have hglobal : Aligned (task_global_addr + 0) := rfl
  have hupper : Aligned (0x8000 + (0 - 4)) := rfl
  have hlower : Aligned (0x8000 + (0 - 8)) := rfl
  have hslot : 0x7FF8 ≠ task_table_entry TID + 0 := outside_table (.inl (by decide)) (by decide)
  rw [← UInt32.add_zero task_global_addr] at hkstack
  -- the registers after each load
  obtain ⟨r₁, hr₁⟩ : ∃ r₁, r₁ = store r 1 task_global_addr := ⟨_, rfl⟩
  obtain ⟨r₂, hr₂⟩ : ∃ r₂, r₂ = store r₁ 0 (task_table_entry TID) := ⟨_, rfl⟩
  obtain ⟨r₃, hr₃⟩ : ∃ r₃, r₃ = store r₂ 1 (mem 0x7FFC) := ⟨_, rfl⟩
  obtain ⟨r₄, hr₄⟩ : ∃ r₄, r₄ = store r₃ 1 (mem 0x7FF8) := ⟨_, rfl⟩
  obtain ⟨mem₁, hmem₁⟩ : ∃ mem₁, mem₁ = store mem (task_table_entry TID + 0) (mem 0x7FFC) := ⟨_, rfl⟩
  have hone₁ : r₁ 1 = task_global_addr := by rw [hr₁, store_self]
  have hzero₃ : r₃ 0 = task_table_entry TID := by rw [hr₃, store_of_ne (by decide), hr₂, store_self]
  have hone₃ : r₃ 1 = mem 0x7FFC := by rw [hr₃, store_self]
  have hzero₄ : r₄ 0 = task_table_entry TID := by rw [hr₄, store_of_ne (by decide), hzero₃]
  have hone₄ : r₄ 1 = mem 0x7FF8 := by rw [hr₄, store_self]
  have h₁ : (al (.ldr 1 15 (0 - 12))).exec ⟨r, sp, lr, spsr, cpsr, pc, mem⟩ =
      some ⟨r₁, sp, lr, spsr, cpsr, pc + 4, mem⟩ := hr₁ ▸ exec_ldr (by decide) rfl hpool hliteral
  have h₂ : (al (.ldr 0 1 0)).exec ⟨r₁, sp, lr, spsr, cpsr, pc + 4, mem⟩ =
      some ⟨r₂, sp, lr, spsr, cpsr, pc + 4 + 4, mem⟩ :=
    hr₂ ▸ exec_ldr (by decide) (congrArg (· + 0) hone₁) hglobal hkstack
  have h₃ : (al (.ldr 1 13 (0 - 4))).exec ⟨r₂, sp, lr, spsr, cpsr, pc + 4 + 4, mem⟩ =
      some ⟨r₃, sp, lr, spsr, cpsr, pc + 4 + 4 + 4, mem⟩ :=
    hr₃ ▸ exec_ldr (by decide) (scratch_addr hmode hsp _) hupper rfl
  have h₄ : (al (.str 1 0 0)).exec ⟨r₃, sp, lr, spsr, cpsr, pc + 4 + 4 + 4, mem⟩ =
      some ⟨r₃, sp, lr, spsr, cpsr, pc + 4 + 4 + 4 + 4, mem₁⟩ := by
    rw [hmem₁, ← hone₃]
    exact exec_str (congrArg (· + 0) hzero₃) he0
  have h₅ : (al (.ldr 1 13 (0 - 8))).exec ⟨r₃, sp, lr, spsr, cpsr, pc + 4 + 4 + 4 + 4, mem₁⟩ =
      some ⟨r₄, sp, lr, spsr, cpsr, pc + 4 + 4 + 4 + 4 + 4, mem₁⟩ := by
    have hsame : mem₁ 0x7FF8 = mem 0x7FF8 := by rw [hmem₁, store_of_ne hslot]
    exact hr₄ ▸ exec_ldr (by decide) (scratch_addr hmode hsp _) hlower hsame
  have h₆ : (al (.str 1 0 4)).exec ⟨r₄, sp, lr, spsr, cpsr, pc + 4 + 4 + 4 + 4 + 4, mem₁⟩ =
      some ⟨r₄, sp, lr, spsr, cpsr, pc + 4 + 4 + 4 + 4 + 4 + 4,
        store mem₁ (task_table_entry TID + 4) (mem 0x7FF8)⟩ := by
    rw [← hone₄]
    exact exec_str (congrArg (· + 4) hzero₄) he4
  rw [scratch_load, exec_list_cons, h₁, Option.bind_some, exec_list_cons, h₂, Option.bind_some, exec_list_cons,
    h₃, Option.bind_some, exec_list_cons, h₄, Option.bind_some, exec_list_cons, h₅, Option.bind_some,
    exec_list_cons, h₆, Option.bind_some, exec_list_nil]
  have hregs : r₄ = store (store r 0 (task_table_entry TID)) 1 (mem 0x7FF8) := by
    rw [hr₄, hr₃, hr₂, hr₁]
    funext n
    by_cases hone : n = 1
    · rw [hone, store_self, store_self]
    · simp only [store, Function.update_apply, hone, ↓reduceIte]
  rw [hregs, hmem₁, UInt32.add_zero]

end Scratch

/-- Up to the store of r1 the path works with r0 and r1 alone. -/
theorem save_scratch_spec {m : Machine} {TID : UInt8} (hvector : OnVector m TID) :
    exec_list save_scratch m = some { m with
      r := store (store m.r 7 (task_global_word_r7 m.r m.cpsr)) 0 (task_table_entry TID)
      lr := store m.lr PSR_MODE_IRQ (m.lr PSR_MODE_IRQ - 4)
      pc := 0xc000812c
      mem := storeAll m.mem (scratch_writes m ++
        [(task_table_entry TID, m.r 0), (task_table_entry TID + 4, m.r 1)]) } := by
  have hsplit : save_scratch = scratch_store ++ scratch_load := rfl
  obtain ⟨r, sp, lr, spsr, cpsr, pc, mem⟩ := m
  obtain ⟨hmode, hpc, hsp, ⟨hliteral, -, -⟩, hkstack⟩ := hvector
  simp only [mode_mk] at hmode hpc hsp hliteral hkstack
  subst hpc
  obtain ⟨mem₁, hmem₁⟩ : ∃ mem₁, mem₁ = store (store mem 0x7FFC (r 0)) 0x7FF8 (r 1) := ⟨_, rfl⟩
  have hkept : ∀ a, a ≠ 0x7FFC → a ≠ 0x7FF8 → mem₁ a = mem a := fun a hupper hlower => by
    rw [hmem₁, store_of_ne hlower, store_of_ne hupper]
  have hupper : mem₁ 0x7FFC = r 0 := by rw [hmem₁, store_of_ne (by decide), store_self]
  have hlower : mem₁ 0x7FF8 = r 1 := by rw [hmem₁, store_self]
  have hpool : vector_irq_addr + 4 + 4 + 4 + 4 + 8 + (0 - 12) = 0xc0008110 := by decide
  have hliteral₁ := (hkept 0xc0008110 (by decide) (by decide)).trans hliteral
  have hkstack₁ := (hkept task_global_addr (by decide) (by decide)).trans hkstack
  rw [hsplit, exec_list_append, scratch_store_spec hmode hsp, Option.bind_some, ← hmem₁,
    scratch_load_spec hmode hsp (hpool ▸ hliteral₁) (hpool ▸ rfl) hkstack₁, hupper, hlower, hmem₁]
  have hregs : store (store (store r 7 (task_global_word_r7 r cpsr)) 0 (task_table_entry TID)) 1 (r 1) =
      store (store r 7 (task_global_word_r7 r cpsr)) 0 (task_table_entry TID) := by
    have hone : store (store r 7 (task_global_word_r7 r cpsr)) 0 (task_table_entry TID) 1 = r 1 := by
      rw [store_of_ne (by decide), store_of_ne (by decide)]
    rw [← hone]
    exact Function.update_eq_self ..
  have hnext : vector_irq_addr + 4 + 4 + 4 + 4 + 4 + 4 + 4 + 4 + 4 + 4 = 0xc000812c := by decide
  rw [hregs, hnext]
  rfl

/-- The registers that the path saves before it leaves IRQ mode. -/
theorem save_general_spec {m : Machine} {TID : UInt8} (hbase : m.r 0 = task_table_entry TID) :
    exec_list (save_general.map fun p => al (.str p.1 0 p.2)) m = some { m with
      pc := m.pc + 48
      mem := storeAll m.mem (save_general.map fun p => (task_table_entry TID + p.2, m.get p.1)) } := by
  have hget : m.get 0 = task_table_entry TID := hbase
  have haligned : ∀ p ∈ save_general, Aligned (m.get 0 + p.2) := by
    intro p hp
    rw [hget]
    have hoffset : ∀ q ∈ save_general, Aligned q.2 := by decide
    exact aligned_add (task_table_entry_aligned TID) (hoffset p hp)
  have hblock := exec_str_block save_general (by decide) (by decide) haligned
  rw [hget] at hblock
  exact hblock

/-- The saved status, the switch to supervisor mode, and what is banked there. -/
theorem save_svc_spec {m : Machine} {TID : UInt8} (hbase : m.r 0 = task_table_entry TID)
    (hmode : m.mode = PSR_MODE_IRQ) :
    exec_list save_svc m = some { m with
      r := store m.r 1 (m.spsr PSR_MODE_SVC)
      cpsr := merge FC_MASK m.cpsr ((m.cpsr &&& ~~~0x1F) ||| 0x13)
      pc := m.pc + 40
      mem := storeAll m.mem [(task_table_entry TID + 64, m.spsr PSR_MODE_IRQ),
        (task_table_entry TID + 52, m.sp PSR_MODE_SVC), (task_table_entry TID + 56, m.lr PSR_MODE_SVC),
        (task_table_entry TID + 68, m.spsr PSR_MODE_SVC)] } := by
  obtain ⟨r, sp, lr, spsr, cpsr, pc, mem⟩ := m
  have hword : ∀ off : UInt32, Aligned off → Aligned (task_table_entry TID + off) :=
    fun off => aligned_add (task_table_entry_aligned TID)
  have h52 := hword 52 rfl
  have h56 := hword 56 rfl
  have h64 := hword 64 rfl
  have h68 := hword 68 rfl
  have hswitch : merge FC_MASK cpsr (cpsr &&& ~~~31 ||| 19) &&& MODE_MASK = 19 := by
    rw [merge_and_inside (by decide) (by decide), or_and, UInt32.and_assoc]
    have hclear : (~~~31 : UInt32) &&& MODE_MASK = 0 := by decide
    rw [hclear, UInt32.and_zero, UInt32.zero_or]
    decide
  simp only [mode_mk, PSR_MODE_IRQ] at hmode hbase
  simp -implicitDefEqProofs only [save_svc, Fin.isValue, exec_list_cons, al_exec, Op.exec, Machine.next,
    Machine.set, Fin.reduceEq, ↓reduceIte, mode_mk, hmode, Option.bind_some, Machine.get, ne_eq,
    Fin.zero_eq_one_iff, Nat.reduceEqDiff, not_false_eq_true, Function.update_of_ne, hbase,
    Function.update_self, h64, write_aligned, store, Option.map_some, Function.update_idem, hswitch, h52,
    h56, h68, exec_list_nil, storeAll_cons, storeAll_nil, Option.some.injEq, Machine.mk.injEq, true_and]
  refine ⟨rfl, ?_, rfl⟩
  simp only [UInt32.add_assoc, UInt32.reduceAdd]

/-- Executed, the literal 0xc100b400 may change r11, which is saved already. -/
theorem exec_timer_word (m : Machine) :
    ∃ r, Instr.exec m ⟨12, .mrs_cpsr 11⟩ = some { m with r, pc := m.pc + 4 } ∧
      ∀ n, n ≠ 11 → r n = m.r n := by
  unfold Instr.exec
  cases passes m.cpsr 12 with
  | true => exact ⟨store m.r 11 m.cpsr, rfl, fun n hn => store_of_ne hn⟩
  | false => exact ⟨m.r, rfl, fun n _ => rfl⟩

/-- Then the timer interrupt is acknowledged. -/
theorem save_timer_spec {m : Machine} (hpc : m.pc = 0xc0008184)
    (hliteral : m.mem 0xc0008188 = 0xc100b400) :
    ∃ saved, exec_list save_timer m = some saved ∧ saved.mem = store m.mem 0xc100b40c 1 := by
  obtain ⟨r, sp, lr, spsr, cpsr, pc, mem⟩ := m
  simp only at hpc hliteral
  subst hpc
  have hword : Aligned 0xc0008188 := rfl
  have htimer : Aligned 0xc100b40c := rfl
  obtain ⟨r', hexec, hsame⟩ := exec_timer_word
    ⟨store r 2 1, sp, lr, spsr, cpsr, 0xc0008188, mem⟩
  have htwo : r' 2 = 1 := (hsame 2 (by decide)).trans (store_self r 2 1)
  have hmov : Op.exec ⟨r, sp, lr, spsr, cpsr, 0xc0008184, mem⟩ (.mov_imm 2 1) =
      some ⟨store r 2 1, sp, lr, spsr, cpsr, 0xc0008188, mem⟩ := rfl
  rw [save_timer, exec_list_cons, al_exec, hmov, Option.bind_some, exec_list_cons, hexec,
    Option.bind_some]
  simp -implicitDefEqProofs only [Fin.isValue, UInt32.reduceSub, UInt32.reduceAdd, exec_list_cons, al_exec,
    Op.exec, Machine.get, ↓reduceIte, hword, load_aligned, hliteral, Fin.reduceEq, Machine.next,
    Machine.set, Option.bind_some, Function.update_self, ne_eq, not_false_eq_true, Function.update_of_ne,
    htwo, htimer, write_aligned, store, Option.map_some, exec_list_nil, Option.some.injEq, exists_eq_left']

/-- All stores of the path up to the first call. -/
theorem save_listing_spec {m : Machine} {TID : UInt8} (hvector : OnVector m TID) :
    ∃ saved, exec_list save_listing m = some saved ∧
      saved.mem = storeAll m.mem (scratch_writes m ++
        entry_writes (task_table_entry TID) (vector_context m) ++ [(0xc100b40c, 1)]) := by
  have hscratch := save_scratch_spec hvector
  generalize hm₁ : (Machine.mk _ _ _ _ _ _ _) = m₁ at hscratch
  have hbase₁ : m₁.r 0 = task_table_entry TID := by
    rw [← hm₁]
    simp only [store_self]
  have hgeneral := save_general_spec hbase₁
  generalize hm₂ : (Machine.mk _ _ _ _ _ _ _) = m₂ at hgeneral
  have hmode₂ : m₂.mode = PSR_MODE_IRQ := by
    rw [← hm₂, ← hm₁]
    exact hvector.mode
  have hbase₂ : m₂.r 0 = task_table_entry TID := by
    rw [← hm₂]
    exact hbase₁
  have hsvc := save_svc_spec hbase₂ hmode₂
  generalize hm₃ : (Machine.mk _ _ _ _ _ _ _) = m₃ at hsvc
  have hmem₃ : m₃.mem = storeAll m.mem (scratch_writes m ++
      entry_writes (task_table_entry TID) (vector_context m)) := by
    have hmode₁ : m₁.mode = PSR_MODE_IRQ := by
      rw [← hm₁]
      exact hvector.mode
    rw [← hm₃, ← hm₂, ← storeAll_append]
    simp only [save_general, List.map_cons, List.map_nil, Machine.get, hmode₁, Fin.reduceEq, ↓reduceIte]
    rw [← hm₁, ← storeAll_append]
    have hmodes : PSR_MODE_SVC ≠ PSR_MODE_IRQ := by decide
    simp only [scratch_writes, entry_writes, vector_context, List.cons_append, List.nil_append, store,
      Function.update_apply, Fin.reduceEq, hmodes, ↓reduceIte]
  have hpc₃ : m₃.pc = 0xc0008184 := by
    rw [← hm₃, ← hm₂, ← hm₁]
    rfl
  have hliteral₃ : m₃.mem 0xc0008188 = 0xc100b400 := by
    have hscratch_ne : (0xc0008188 : UInt32) ∉ (scratch_writes m).map Prod.fst := by
      simp only [scratch_writes, List.map_cons, List.map_nil]
      decide
    have hout : ∀ off < 72, 0xc0008188 ≠ task_table_entry TID + off :=
      fun off => outside_table (.inl (by decide))
    have hentry_ne := outside_entry_writes hout (vector_context m)
    rw [hmem₃, storeAll_append, storeAll_of_not_mem hentry_ne, storeAll_of_not_mem hscratch_ne]
    exact hvector.literals.2.1
  obtain ⟨saved, htimer, hsaved⟩ := save_timer_spec hpc₃ hliteral₃
  refine ⟨saved, ?_, ?_⟩
  · rw [save_listing, exec_list_append, exec_list_append, exec_list_append, hscratch, Option.bind_some,
      hgeneral, Option.bind_some, hsvc, Option.bind_some, htimer]
  · rw [hsaved, hmem₃, storeAll_append m.mem _ [(0xc100b40c, 1)]]
    rfl

end epos.entry
