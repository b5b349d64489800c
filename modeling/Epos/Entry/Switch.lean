import Epos.Entry.Restore
import Mathlib.Logic.Relation

open arm words epos.task

namespace epos.entry

/-- Task `TID` is running, in supervisor mode, when an IRQ comes. -/
structure Interrupted (m : Machine) (TID : UInt8) : Prop where
  mode : m.mode = PSR_MODE_SVC
  pc : Aligned m.pc
  irq_sp : m.sp PSR_MODE_IRQ = 0x8000
  literals : Literals m.mem
  kstack : m.mem task_global_addr = task_table_entry TID

/-- What reaches the entry of the interrupted task. -/
def saved_context (m : Machine) : context :=
  { r0 := m.r 0, r1 := m.r 1, r2 := m.r 2, r3 := m.r 3, r4 := m.r 4, r5 := m.r 5, r6 := m.r 6
    r7 := task_global_word_r7 m.r m.cpsr, r8 := m.r 8, r9 := m.r 9, r10 := m.r 10, r11 := m.r 11
    r12 := m.r 12, sp := m.sp PSR_MODE_SVC, lr := m.lr PSR_MODE_SVC, pc := m.pc, cpsr := m.cpsr
    spsr := m.spsr PSR_MODE_SVC }

/-- `m'` goes on where `m` was interrupted. -/
structure Resumes (m m' : Machine) : Prop where
  general : ∀ n < 13, m'.r n = m.r n
  sp : m'.sp PSR_MODE_SVC = m.sp PSR_MODE_SVC
  lr : m'.lr PSR_MODE_SVC = m.lr PSR_MODE_SVC
  pc : m'.pc = m.pc
  cpsr : m'.cpsr = m.cpsr

def entry_offsets : List UInt32 :=
  [0, 4, 8, 12, 16, 20, 24, 28, 32, 36, 40, 44, 48, 52, 56, 60, 64, 68]

/-- No word of the entry of task `TID` differs. -/
def SameEntry (mem mem' : UInt32 → UInt32) (TID : UInt8) : Prop :=
  ∀ off ∈ entry_offsets, mem' (task_table_entry TID + off) = mem (task_table_entry TID + off)

/-- The two words below the task's stack pointer, where the tail keeps the pc
and the cpsr, are not words of its entry that the tail has still to read, or
hold there what they overwrite. -/
structure ScratchHarmless (m : Machine) (e : UInt32) : Prop where
  cpsr : m.sp PSR_MODE_SVC - 4 ≠ e + 64
  pc_r0 : m.sp PSR_MODE_SVC - 4 = e → m.r 0 = m.pc
  pc_r1 : m.sp PSR_MODE_SVC - 4 = e + 4 → m.r 1 = m.pc
  cpsr_r0 : m.sp PSR_MODE_SVC - 8 = e → m.r 0 = m.cpsr
  cpsr_r1 : m.sp PSR_MODE_SVC - 8 = e + 4 → m.r 1 = m.cpsr

/-- When the switch is transparent for a task interrupted in `m` and restored
from `m₂`: r7 survives the word executed with the flags of a greater-than, and
the bits of the cpsr that `msr CPSR_fc` does not write are as they were. -/
structure Transparent (m m₂ : Machine) (TID : UInt8) : Prop where
  r7 : passes m.cpsr 12 = true → m.r 7 = m.r 5 &&& asr (m.r 4) 6
  sp : Aligned (m.sp PSR_MODE_SVC)
  scratch : ScratchHarmless m (task_table_entry TID)
  status : m₂.cpsr &&& ~~~FC_MASK = m.cpsr &&& ~~~FC_MASK

theorem passes_take_irq (cpsr : UInt32) : passes (merge 0x1BF cpsr 0x192) 12 = passes cpsr 12 := by
  have hkept : ∀ bit < 32, flag 0x1BF bit = false → flag (merge 0x1BF cpsr 0x192) bit = flag cpsr bit := by
    intro bit hbit hmask
    rw [flag_merge _ _ _ hbit, hmask]
    rfl
  simp only [passes]
  rw [hkept 28 (by decide) (by decide), hkept 30 (by decide) (by decide), hkept 31 (by decide) (by decide)]

theorem onVector_take_irq {m : Machine} {TID : UInt8} (hm : Interrupted m TID) :
    OnVector (take_irq m) TID where
  mode := merge_and_inside (by decide) (by decide) m.cpsr 0x192
  pc := rfl
  sp := hm.irq_sp
  literals := hm.literals
  kstack := hm.kstack

theorem vector_context_take_irq (m : Machine) : vector_context (take_irq m) = saved_context m := by
  have hmodes : PSR_MODE_SVC ≠ PSR_MODE_IRQ := by decide
  simp only [vector_context, saved_context, take_irq, task_global_word_r7, passes_take_irq,
    Function.update_self, Function.update_of_ne hmodes, UInt32.add_sub_cancel]

theorem entry_writes_nodup (e : UInt32) (ctx : context) :
    ((entry_writes e ctx).map Prod.fst).Nodup := by
  have haddrs : (entry_writes e ctx).map Prod.fst =
      [0, 4, 8, 12, 16, 20, 24, 28, 32, 36, 40, 44, 48, 60, 64, 52, 56, 68].map (e + ·) := by
    simp only [entry_writes, List.map_cons, List.map_nil, UInt32.add_zero]
  rw [haddrs]
  apply List.Nodup.map
  · intro a b hab
    exact (UInt32.add_right_inj e).mp hab
  · decide

theorem fields_mem_entry_writes (e : UInt32) (ctx : context) :
    ∀ p ∈ fields ctx, (e + p.1, p.2) ∈ entry_writes e ctx := by
  simp [fields, entry_writes]

theorem fields_offset (ctx : context) : ∀ p ∈ fields ctx, p.1 ∈ entry_offsets := by
  simp [fields, entry_offsets]

/-- The path saves the interrupted task, r7 apart, into its entry. -/
theorem save_spec {m : Machine} {TID : UInt8} (hm : Interrupted m TID) :
    ∃ saved, save m = some saved ∧ Holds saved.mem (task_table_entry TID) (saved_context m) := by
  obtain ⟨saved, hexec, hmem⟩ := save_listing_spec (onVector_take_irq hm)
  refine ⟨saved, (save_eq m).trans hexec, fun p hp => ?_⟩
  have hoffset : ∀ off ∈ entry_offsets, off < 72 := by decide
  have htimer : task_table_entry TID + p.1 ∉ [((0xc100b40c : UInt32), (1 : UInt32))].map Prod.fst := by
    have hne : 0xc100b40c ≠ task_table_entry TID + p.1 :=
      outside_table (.inr (by decide)) (hoffset _ (fields_offset _ p hp))
    simpa using hne.symm
  rw [hmem, vector_context_take_irq, storeAll_append, storeAll_append, storeAll_of_not_mem htimer]
  exact storeAll_of_mem (entry_writes_nodup _ _) (fields_mem_entry_writes _ _ p hp)

theorem Holds.same {mem mem' : UInt32 → UInt32} {TID : UInt8} {ctx : context}
    (hholds : Holds mem (task_table_entry TID) ctx) (hsame : SameEntry mem mem' TID) :
    Holds mem' (task_table_entry TID) ctx := by
  intro p hp
  rw [hsame p.1 (fields_offset ctx p hp)]
  exact hholds p hp

/-- The words of the entry that go to registers unscathed. -/
theorem Holds.general {mem : UInt32 → UInt32} {e : UInt32} {m : Machine}
    (hholds : Holds mem e (saved_context m)) :
    ∀ p ∈ restore_general, mem (e + p.2) = if p.1 = 7 then task_global_word_r7 m.r m.cpsr else m.r p.1 := by
  have hwords := hholds
  simp only [Holds, fields, List.forall_mem_cons] at hwords
  simp only [restore_general, List.forall_mem_cons]
  simp [hwords, saved_context]

theorem Holds.r0 {mem : UInt32 → UInt32} {e : UInt32} {m : Machine} (hholds : Holds mem e (saved_context m)) :
    mem e = m.r 0 := by
  have hfirst := hholds (0, m.r 0) (by simp [fields, saved_context])
  rwa [UInt32.add_zero] at hfirst

/-- The cpsr the tail comes to is the saved one if its scratch word for the pc
is not the saved cpsr, and otherwise is none a task can have. -/
theorem restored_cpsr {m m₂ : Machine} {e : UInt32} (hmode : m.mode = PSR_MODE_SVC) (hpc : Aligned m.pc)
    (hholds : Holds m₂.mem e (saved_context m)) :
    merge FC_MASK m₂.cpsr (scratch_pc m₂.mem e (e + 64)) = m.cpsr ↔
      m.sp PSR_MODE_SVC - 4 ≠ e + 64 ∧ m₂.cpsr &&& ~~~FC_MASK = m.cpsr &&& ~~~FC_MASK := by
  have hsp : m₂.mem (e + 52) = m.sp PSR_MODE_SVC := hholds (52, _) (by simp [fields, saved_context])
  have hword : m₂.mem (e + 60) = m.pc := hholds (60, _) (by simp [fields, saved_context])
  have hstatus : m₂.mem (e + 64) = m.cpsr := hholds (64, _) (by simp [fields, saved_context])
  constructor
  · intro hmerge
    refine ⟨fun hclash => ?_, ?_⟩
    · rw [scratch_pc, hsp, hword, hclash, store_self] at hmerge
      have hlow : merge FC_MASK m₂.cpsr m.pc &&& 3 = m.pc &&& 3 :=
        merge_and_inside (by decide) (by decide) _ _
      have hthree : m.cpsr &&& 3 = 3 := by
        have hmask : (3 : UInt32) = MODE_MASK &&& 3 := by decide
        rw [hmask, ← UInt32.and_assoc]
        have hsvc : m.cpsr &&& MODE_MASK = PSR_MODE_SVC := hmode
        rw [hsvc]
        decide
      rw [hmerge, hthree, aligned_and_three hpc] at hlow
      exact absurd hlow (by decide)
    · rw [← hmerge]
      exact (merge_and_outside (by decide) (by decide) _ _).symm
  · rintro ⟨hapart, hrest⟩
    rw [scratch_pc, hsp, store_of_ne hapart.symm, hstatus, merge, hrest]
    exact merge_self FC_MASK m.cpsr

theorem scratch_apart (sp : UInt32) : sp - 4 ≠ sp - 8 := by
  intro h
  exact absurd ((UInt32.sub_right_inj sp).mp h) (by decide)

/-- A word of the entry that the tail loads last is still there unless a scratch
word took its place. -/
theorem restored_word {m m₂ : Machine} {e a word : UInt32}
    (hholds : Holds m₂.mem e (saved_context m)) (hapart : m.sp PSR_MODE_SVC - 4 ≠ e + 64)
    (hword : m₂.mem a = word) :
    scratch_psr m₂.mem e a = word ↔
      (m.sp PSR_MODE_SVC - 4 = a → word = m.pc) ∧ (m.sp PSR_MODE_SVC - 8 = a → word = m.cpsr) := by
  have hsp : m₂.mem (e + 52) = m.sp PSR_MODE_SVC := hholds (52, _) (by simp [fields, saved_context])
  have hpc : m₂.mem (e + 60) = m.pc := hholds (60, _) (by simp [fields, saved_context])
  have hstatus : m₂.mem (e + 64) = m.cpsr := hholds (64, _) (by simp [fields, saved_context])
  have hpsr : scratch_pc m₂.mem e (e + 64) = m.cpsr := by
    rw [scratch_pc, hsp, store_of_ne hapart.symm, hstatus]
  rw [scratch_psr, hpsr, hsp]
  by_cases hlower : m.sp PSR_MODE_SVC - 8 = a
  · have hupper : m.sp PSR_MODE_SVC - 4 ≠ a := fun h => scratch_apart _ (h.trans hlower.symm)
    rw [hlower, store_self]
    exact ⟨fun h => ⟨fun hu => absurd hu hupper, fun _ => h.symm⟩, fun h => (h.2 rfl).symm⟩
  · rw [store_of_ne (Ne.symm hlower), scratch_pc, hsp, hpc]
    by_cases hupper : m.sp PSR_MODE_SVC - 4 = a
    · rw [hupper, store_self]
      exact ⟨fun h => ⟨fun _ => h.symm, fun hl => absurd hl hlower⟩, fun h => (h.1 rfl).symm⟩
    · rw [store_of_ne (Ne.symm hupper)]
      exact ⟨fun _ => ⟨fun hu => absurd hu hupper, fun hl => absurd hl hlower⟩, fun _ => hword⟩

theorem task_global_word_r7_eq {r : Reg → UInt32} {cpsr : UInt32} :
    task_global_word_r7 r cpsr = r 7 ↔ (passes cpsr 12 = true → r 7 = r 5 &&& asr (r 4) 6) := by
  unfold task_global_word_r7
  cases passes cpsr 12 with
  | true => exact ⟨fun h _ => h.symm, fun h => (h rfl).symm⟩
  | false => exact ⟨fun _ h => (by cases h), fun _ => rfl⟩

theorem general_cases : ∀ n : Reg, n < 13 → n = 0 ∨ n = 1 ∨ ∃ p ∈ restore_general, p.1 = n := by
  decide

theorem jump_changes_pc {m resumed : Machine} (hjump : jump.exec m = some resumed) :
    ∃ pc, resumed = { m with pc } := by
  have hop : (m.load (m.get 13 + (0 - 4))).bind m.jump = some resumed := hjump
  obtain ⟨word, -, hword⟩ := Option.bind_eq_some_iff.mp hop
  unfold Machine.jump at hword
  split at hword
  · exact ⟨word, (Option.some.inj hword).symm⟩
  · cases hword

theorem jump_exec {m : Machine} (hsp : Aligned (m.get 13)) (hpc : Aligned (m.mem (m.get 13 - 4))) :
    jump.exec m = some { m with pc := m.mem (m.get 13 - 4) } := by
  have haddr : m.get 13 + (0 - 4) = m.get 13 - 4 := (UInt32.sub_eq_add_neg _ 4).symm
  have hscratch : Aligned (m.get 13 - 4) := by
    rw [← haddr]
    exact aligned_add hsp rfl
  have hop : jump.exec m = (m.load (m.get 13 + (0 - 4))).bind m.jump := rfl
  rw [hop, haddr, load_aligned hscratch, Option.bind_some, Machine.jump, if_pos hpc]

/-- The registers that the tail brings back, and the bits of the cpsr that `msr`
writes. -/
structure Restored (m m₂ resumed : Machine) (TID : UInt8) : Prop where
  general : ∀ n < 13, resumed.r n = m.r n
  sp : resumed.sp PSR_MODE_SVC = m.sp PSR_MODE_SVC
  lr : resumed.lr PSR_MODE_SVC = m.lr PSR_MODE_SVC
  pc : resumed.pc = m.pc
  cpsr : resumed.cpsr = merge FC_MASK m₂.cpsr m.cpsr
  mem : resumed.mem = scratch_psr m₂.mem (task_table_entry TID)

/-- What the saved entry holds comes back, unless r7 was changed on the way to
it or the scratch words do harm. -/
theorem restore_spec {m m₂ : Machine} {TID : UInt8} (hm : Interrupted m TID) (hready : Ready m₂ TID)
    (hholds : Holds m₂.mem (task_table_entry TID) (saved_context m))
    (hr7 : passes m.cpsr 12 = true → m.r 7 = m.r 5 &&& asr (m.r 4) 6) (haligned : Aligned (m.sp PSR_MODE_SVC))
    (hscratch : ScratchHarmless m (task_table_entry TID)) :
    ∃ resumed, restore m₂ = some resumed ∧ Restored m m₂ resumed TID := by
  have hsp : m₂.mem (task_table_entry TID + 52) = m.sp PSR_MODE_SVC :=
    hholds (52, _) (by simp [fields, saved_context])
  have hlr : m₂.mem (task_table_entry TID + 56) = m.lr PSR_MODE_SVC :=
    hholds (56, _) (by simp [fields, saved_context])
  have hpc : m₂.mem (task_table_entry TID + 60) = m.pc := hholds (60, _) (by simp [fields, saved_context])
  have hstatus : m₂.mem (task_table_entry TID + 64) = m.cpsr := hholds (64, _) (by simp [fields, saved_context])
  have hr1 : m₂.mem (task_table_entry TID + 4) = m.r 1 := hholds (4, _) (by simp [fields, saved_context])
  obtain ⟨m', htail, hloaded⟩ := restore_listing_spec hready (hsp ▸ haligned)
  have hcpsr : m'.cpsr = merge FC_MASK m₂.cpsr m.cpsr := by
    rw [hloaded.cpsr, scratch_pc, hsp, store_of_ne hscratch.cpsr.symm, hstatus]
  have hget : m'.get 13 = m.sp PSR_MODE_SVC := by
    have hmode : m'.mode = PSR_MODE_SVC := by
      rw [Machine.mode, hcpsr, merge_and_inside (by decide) (by decide)]
      exact hm.mode
    have hbank : m'.get 13 = m'.sp m'.mode := rfl
    rw [hbank, hmode, hloaded.sp, hsp]
  have hpc' : m'.mem (m'.get 13 - 4) = m.pc := by
    rw [hget, hloaded.mem, scratch_psr, hsp, store_of_ne (scratch_apart _), scratch_pc, hsp, store_self, hpc]
  have hjump := jump_exec (m := m') (hget ▸ haligned) (hpc'.symm ▸ hm.pc)
  rw [restore_eq hready.pc, htail]
  refine ⟨_, hjump, fun n hn => ?_, hloaded.sp.trans hsp, hloaded.lr.trans hlr, hpc', hcpsr, hloaded.mem⟩
  obtain rfl | rfl | ⟨p, hp, rfl⟩ := general_cases n hn
  · exact hloaded.r0.trans
      ((restored_word hholds hscratch.cpsr hholds.r0).mpr ⟨hscratch.pc_r0, hscratch.cpsr_r0⟩)
  · exact hloaded.r1.trans
      ((restored_word hholds hscratch.cpsr hr1).mpr ⟨hscratch.pc_r1, hscratch.cpsr_r1⟩)
  · refine (hloaded.general p hp).trans ((hholds.general p hp).trans ?_)
    split
    · next hseven =>
      rw [hseven]
      exact task_global_word_r7_eq.mpr hr7
    · rfl

/-- The tail resumes the task exactly when the switch is transparent for it. -/
theorem restore_iff {m m₂ : Machine} {TID : UInt8} (hm : Interrupted m TID) (hready : Ready m₂ TID)
    (hholds : Holds m₂.mem (task_table_entry TID) (saved_context m)) :
    (∃ resumed, restore m₂ = some resumed ∧ Resumes m resumed) ↔ Transparent m m₂ TID := by
  have hsp : m₂.mem (task_table_entry TID + 52) = m.sp PSR_MODE_SVC :=
    hholds (52, _) (by simp [fields, saved_context])
  have hr1 : m₂.mem (task_table_entry TID + 4) = m.r 1 := hholds (4, _) (by simp [fields, saved_context])
  constructor
  · rintro ⟨resumed, hrestore, hresumes⟩
    rw [restore_eq hready.pc] at hrestore
    by_cases haligned : Aligned (m.sp PSR_MODE_SVC)
    · obtain ⟨m', htail, hloaded⟩ := restore_listing_spec hready (hsp ▸ haligned)
      have hcpsr := restored_cpsr hm.mode hm.pc hholds
      rw [← hloaded.cpsr] at hcpsr
      obtain ⟨pc, rfl⟩ := jump_changes_pc (htail.symm.trans hrestore)
      obtain ⟨hapart, hstatus⟩ := hcpsr.mp hresumes.cpsr
      have hword0 := (restored_word hholds hapart hholds.r0).mp (hloaded.r0 ▸ hresumes.general 0 (by decide))
      have hword1 := (restored_word hholds hapart hr1).mp (hloaded.r1 ▸ hresumes.general 1 (by decide))
      have hloaded7 := (hloaded.general (7, 28) (by decide)).trans (hholds.general (7, 28) (by decide))
      have hr7 : task_global_word_r7 m.r m.cpsr = m.r 7 := hloaded7.symm.trans (hresumes.general 7 (by decide))
      exact ⟨task_global_word_r7_eq.mp hr7, haligned,
        ⟨hapart, hword0.1, hword1.1, hword0.2, hword1.2⟩, hstatus⟩
    · rw [restore_listing_unaligned hready (hsp ▸ haligned)] at hrestore
      cases hrestore
  · intro htransparent
    obtain ⟨resumed, hrestore, hrestored⟩ :=
      restore_spec hm hready hholds htransparent.r7 htransparent.sp htransparent.scratch
    have hcpsr : resumed.cpsr = m.cpsr := by
      rw [hrestored.cpsr, merge, htransparent.status]
      exact merge_self FC_MASK m.cpsr
    exact ⟨resumed, hrestore, hrestored.general, hrestored.sp, hrestored.lr, hrestored.pc, hcpsr⟩

/-- Two tasks have no word of their entries in common. -/
theorem entries_apart {TID other : UInt8} (hother : other ≠ TID) {off off' : UInt32} (hoff : off < 72)
    (hoff' : off' < 72) : task_table_entry TID + off ≠ task_table_entry other + off' := by
  intro heq
  have hTID := TID.toNat_lt
  have hlt := other.toNat_lt
  have hne : other.toNat ≠ TID.toNat := fun h => hother (UInt8.toNat_inj.mp h)
  have hsum := congrArg UInt32.toNat heq
  rw [UInt32.lt_iff_toNat_lt] at hoff hoff'
  simp only [UInt32.reduceToNat] at hoff hoff'
  rw [UInt32.toNat_add, UInt32.toNat_add, task_table_entry_toNat, task_table_entry_toNat,
    Nat.mod_eq_of_lt (by omega), Nat.mod_eq_of_lt (by omega)] at hsum
  omega

theorem entry_offsets_lt : ∀ off ∈ entry_offsets, off < 72 := by decide

/-- Saving a task writes its entry, the words below the stack pointer of IRQ mode
and the timer. -/
theorem save_writes {m saved : Machine} {TID : UInt8} (hm : Interrupted m TID) (hsave : save m = some saved)
    {a : UInt32} (hscratch : a ∉ [(0x7FFC : UInt32), 0x7FF8, 0xc100b40c])
    (hentry : ∀ off < 72, a ≠ task_table_entry TID + off) : saved.mem a = m.mem a := by
  obtain ⟨saved', hexec, hmem⟩ := save_listing_spec (onVector_take_irq hm)
  have hsame : saved' = saved := Option.some.inj ((hexec.symm.trans (save_eq m).symm).trans hsave)
  subst hsame
  simp only [List.mem_cons, List.not_mem_nil, or_false, not_or] at hscratch
  have htimer : a ∉ [((0xc100b40c : UInt32), (1 : UInt32))].map Prod.fst := by
    simpa using hscratch.2.2
  have hbelow : a ∉ (scratch_writes (take_irq m)).map Prod.fst := by
    simpa [scratch_writes] using ⟨hscratch.1, hscratch.2.1⟩
  rw [hmem, storeAll_append, storeAll_append, storeAll_of_not_mem htimer,
    storeAll_of_not_mem (outside_entry_writes hentry _), storeAll_of_not_mem hbelow]
  rfl

/-- Saving one task does not write the entry of another. -/
theorem save_keeps_entry {m saved : Machine} {TID other : UInt8} (hother : other ≠ TID)
    (hm : Interrupted m other) (hsave : save m = some saved) : SameEntry m.mem saved.mem TID := by
  intro off hoff
  have hlt := entry_offsets_lt off hoff
  apply save_writes hm hsave
  · have hupper : 0x7FFC ≠ task_table_entry TID + off := outside_table (.inl (by decide)) hlt
    have hlower : 0x7FF8 ≠ task_table_entry TID + off := outside_table (.inl (by decide)) hlt
    have htimer : 0xc100b40c ≠ task_table_entry TID + off := outside_table (.inr (by decide)) hlt
    simp only [List.mem_cons, List.not_mem_nil, or_false, not_or]
    exact ⟨hupper.symm, hlower.symm, htimer.symm⟩
  · exact fun off' hoff' => entries_apart hother hlt hoff'

/-- Restoring a task writes the two words below its stack pointer only. -/
theorem restore_writes {m resumed : Machine} {TID : UInt8} (hready : Ready m TID)
    (hrestore : restore m = some resumed) {a : UInt32}
    (hupper : a ≠ m.mem (task_table_entry TID + 52) - 4)
    (hlower : a ≠ m.mem (task_table_entry TID + 52) - 8) : resumed.mem a = m.mem a := by
  rw [restore_eq hready.pc] at hrestore
  by_cases hsp : Aligned (m.mem (task_table_entry TID + 52))
  · obtain ⟨m', htail, hloaded⟩ := restore_listing_spec hready hsp
    obtain ⟨pc, rfl⟩ := jump_changes_pc (htail.symm.trans hrestore)
    have hmem := congrFun hloaded.mem a
    rw [hmem, scratch_psr, store_of_ne hlower, scratch_pc, store_of_ne hupper]
  · rw [restore_listing_unaligned hready hsp] at hrestore
    cases hrestore

/-- What may happen while task `TID` waits: other code runs, another task is
saved, and another task is restored whose stack is not in the entry of `TID`. -/
inductive Elsewhere (TID : UInt8) (m m' : Machine) : Prop where
  | code (hsame : SameEntry m.mem m'.mem TID)
  | saves (other : UInt8) (hother : other ≠ TID) (hm : Interrupted m other) (hsave : save m = some m')
  | restores (other : UInt8) (hready : Ready m other) (hrestore : restore m = some m')
      (hstack : ∀ off ∈ entry_offsets,
        task_table_entry TID + off ≠ m.mem (task_table_entry other + 52) - 4 ∧
        task_table_entry TID + off ≠ m.mem (task_table_entry other + 52) - 8)

theorem Elsewhere.same {TID : UInt8} {m m' : Machine} (hstep : Elsewhere TID m m') :
    SameEntry m.mem m'.mem TID := by
  cases hstep with
  | code hsame => exact hsame
  | saves other hother hm hsave => exact save_keeps_entry hother hm hsave
  | restores other hready hrestore hstack =>
    exact fun off hoff => restore_writes hready hrestore (hstack off hoff).1 (hstack off hoff).2

theorem same_of_elsewhere {TID : UInt8} {m m' : Machine}
    (hrun : Relation.ReflTransGen (Elsewhere TID) m m') : SameEntry m.mem m'.mem TID := by
  induction hrun with
  | refl => exact fun _ _ => rfl
  | tail _ hstep ih => exact fun off hoff => (hstep.same off hoff).trans (ih off hoff)

/-- An interrupted task is always saved, and after any number of switches among
other tasks it resumes with all its registers exactly when the switch is
transparent for it. -/
theorem context_switch_iff {m : Machine} {TID : UInt8} (hm : Interrupted m TID) :
    ∃ saved, save m = some saved ∧
      ∀ m₂, Relation.ReflTransGen (Elsewhere TID) saved m₂ → Ready m₂ TID →
        ((∃ resumed, restore m₂ = some resumed ∧ Resumes m resumed) ↔ Transparent m m₂ TID) := by
  obtain ⟨saved, hsave, hholds⟩ := save_spec hm
  refine ⟨saved, hsave, fun m₂ hrun hready => ?_⟩
  exact restore_iff hm hready (hholds.same (same_of_elsewhere hrun))

/-- Task 1 with an empty stack, r7 = 7 and otherwise zero registers. -/
def running (cpsr : UInt32) : Machine :=
  { r := fun n => if n = 7 then 7 else 0
    sp := fun mode => if mode = PSR_MODE_IRQ then 0x8000 else 0xc001273c
    lr := fun _ => 0
    spsr := fun _ => 0
    cpsr
    pc := 0xc0008840
    mem := fun addr =>
      if addr = 0xc0008110 ∨ addr = 0xc000819c then task_global_addr
      else if addr = 0xc0008188 then 0xc100b400
      else if addr = task_global_addr then task_table_entry 1
      else 0 }

theorem running_interrupted {cpsr : UInt32} (hmode : cpsr &&& MODE_MASK = PSR_MODE_SVC) :
    Interrupted (running cpsr) 1 where
  mode := hmode
  pc := show Aligned 0xc0008840 from rfl
  irq_sp := rfl
  literals := ⟨rfl, rfl, rfl⟩
  kstack := rfl

/-- A state the C functions may return to the tail, for the task saved before. -/
def ready_again (saved : Machine) : Machine := { saved with pc := restore_addr }

theorem ready_again_elsewhere (saved : Machine) (TID : UInt8) :
    Relation.ReflTransGen (Elsewhere TID) saved (ready_again saved) :=
  .single (.code fun _ _ => rfl)

/-- What the tail looks at, for the two states of the flags tried below. -/
theorem running_saved {cpsr : UInt32} (hcpsr : cpsr = 0x53 ∨ cpsr = 0x40000153) :
    (save (running cpsr)).map (fun s => (s.mode, s.mem 0xc0008110, s.mem 0xc0008188,
      s.mem 0xc000819c, s.mem task_global_addr)) =
    some (PSR_MODE_SVC, task_global_addr, 0xc100b400, task_global_addr, task_table_entry 1) := by
  obtain rfl | rfl := hcpsr <;> decide +kernel

theorem running_ready {cpsr : UInt32} {saved : Machine} (hcpsr : cpsr = 0x53 ∨ cpsr = 0x40000153)
    (hsave : save (running cpsr) = some saved) : Ready (ready_again saved) 1 := by
  have hseen := running_saved hcpsr
  rw [hsave, Option.map_some, Option.some.injEq] at hseen
  simp only [Prod.mk.injEq] at hseen
  obtain ⟨hmode, hfirst, hsecond, hthird, hkstack⟩ := hseen
  exact ⟨hmode, rfl, ⟨hfirst, hsecond, hthird⟩, hkstack⟩

theorem running_transparent {saved : Machine} (hsave : save (running 0x40000153) = some saved) :
    Transparent (running 0x40000153) (ready_again saved) 1 where
  r7 hgreater := absurd hgreater (by decide)
  sp := show Aligned 0xc001273c from rfl
  scratch := ⟨by decide, fun h => absurd h (by decide), fun h => absurd h (by decide), fun h => absurd h (by decide),
    fun h => absurd h (by decide)⟩
  status := by
    have hcpsr : (save (running 0x40000153)).map (fun s => s.cpsr &&& ~~~FC_MASK) =
        some ((running 0x40000153).cpsr &&& ~~~FC_MASK) := by
      decide +kernel
    rw [hsave, Option.map_some, Option.some.injEq] at hcpsr
    exact hcpsr

/-- With the zero flag set, and the A bit as the exception leaves it, the task resumes. -/
theorem context_switch_zero_flag :
    ∃ saved, save (running 0x40000153) = some saved ∧
      ∃ resumed, restore (ready_again saved) = some resumed ∧ Resumes (running 0x40000153) resumed := by
  have hrunning : Interrupted (running 0x40000153) 1 := running_interrupted (by decide)
  obtain ⟨saved, hsave, hiff⟩ := context_switch_iff hrunning
  refine ⟨saved, hsave, (hiff _ (ready_again_elsewhere saved 1) (running_ready (.inr rfl) hsave)).mpr ?_⟩
  exact running_transparent hsave

/-- With the flags that `task_create` gives a task, r7 comes back as 0. -/
theorem context_switch_loses_r7 :
    Interrupted (running 0x53) 1 ∧ ∃ saved, save (running 0x53) = some saved ∧
      Relation.ReflTransGen (Elsewhere 1) saved (ready_again saved) ∧ Ready (ready_again saved) 1 ∧
      ¬ ∃ resumed, restore (ready_again saved) = some resumed ∧ Resumes (running 0x53) resumed := by
  have hrunning : Interrupted (running 0x53) 1 := running_interrupted (by decide)
  obtain ⟨saved, hsave, -⟩ := save_spec hrunning
  refine ⟨hrunning, saved, hsave, ready_again_elsewhere saved 1, running_ready (.inl rfl) hsave, ?_⟩
  rintro ⟨resumed, hrestore, hresumes⟩
  have hlost : ((save (running 0x53)).bind fun s => restore (ready_again s)).map (·.r 7) = some 0 := by
    decide +kernel
  rw [hsave, Option.bind_some, hrestore, Option.map_some, Option.some.injEq] at hlost
  have hkept := hresumes.general 7 (by decide)
  rw [hlost] at hkept
  exact absurd hkept (by decide)

end epos.entry
