import Epos.Entry.Defs
import Epos.Lib.ArmBlock

open arm words

namespace epos.entry

def PSR_MODE_ABT : UInt32 := 0x17

/-- The exceptions whose vectors save r0 to r3 and call a C function. -/
inductive Exception where
  | data_abort
  | prefetch_abort
  | swi
deriving DecidableEq

namespace Exception

def mode : Exception → UInt32
  | data_abort | prefetch_abort => PSR_MODE_ABT
  | swi => PSR_MODE_SVC

def vector : Exception → UInt32
  | data_abort => 0xc00080dc
  | prefetch_abort => 0xc00080c4
  | swi => 0xc00080b4

/-- What the processor adds to the address of the instruction to bank it in lr. -/
def lr_offset : Exception → UInt32
  | data_abort => 8
  | prefetch_abort | swi => 4

/-- An SWI leaves the mask of imprecise aborts alone. -/
def psr_mask : Exception → UInt32
  | data_abort | prefetch_abort => 0x1BF
  | swi => 0xBF

def psr_value : Exception → UInt32
  | data_abort | prefetch_abort => 0x197
  | swi => 0x93

/-- Where the interrupted code has to go on: the instruction is to be tried again,
but for an SWI, which is done. -/
def resume (addr : UInt32) : Exception → UInt32
  | data_abort | prefetch_abort => addr
  | swi => addr + 4

/-- The vectors up to the call, as assembled in `kernel.list`. -/
def words : Exception → List UInt32
  | data_abort => [0xe24ee004, 0xe92d400f, 0xee160f10, 0xee151f10, 0xeb000f14]
  | prefetch_abort => [0xe24ee004, 0xe92d400f, 0xee160f50, 0xee151f30, 0xeb000ef7]
  | swi => [0xe24ee004, 0xe92d400f, 0xeb000ef0]

/-- r0 and r1 are loaded with the address and the status of a fault. -/
def arguments : Exception → List BlockOp
  | data_abort => [.mrc 0 6 0 0, .mrc 1 5 0 0]
  | prefetch_abort => [.mrc 0 6 0 2, .mrc 1 5 0 1]
  | swi => []

/-- The offsets of `common_Dabt_handler`, `common_pref_handler` and `common_swi_handler`. -/
def call_offset : Exception → UInt32
  | data_abort => 4 * 0xf14
  | prefetch_abort => 4 * 0xef7
  | swi => 4 * 0xef0

end Exception

def save_block : List BlockOp := [.single (.sub_imm 14 14 4), .stmdb 13 [0, 1, 2, 3, 14]]

def return_word : UInt32 := 0xe8fd800f

def Exception.code (k : Exception) : List BlockOp := save_block ++ k.arguments ++ [.bl k.call_offset]

theorem words_decoded (k : Exception) : k.words.map decode_block = k.code.map some := by
  cases k <;> decide

theorem return_decoded : decode_block return_word = some (.ldmia_return 13 [0, 1, 2, 3]) := by decide

def take_exception (k : Exception) (m : Machine) : Machine :=
  { m with
    lr := Function.update m.lr k.mode (m.pc + k.lr_offset)
    spsr := Function.update m.spsr k.mode m.cpsr
    cpsr := merge k.psr_mask m.cpsr k.psr_value
    pc := k.vector }

/-- From the exception up to the entry of the C function. -/
def call_state (cp15 : Nat → Nat → Nat → UInt32) (k : Exception) (m : Machine) : Option Machine :=
  exec_blocks cp15 k.code (take_exception k m)

/-- From the exception up to the return, where `handler` is what the C function does. -/
def run_vector (cp15 : Nat → Nat → Nat → UInt32) (handler : Machine → Machine) (k : Exception)
    (m : Machine) : Option Machine :=
  (call_state cp15 k m).bind fun called =>
    let returned := handler called
    if returned.pc = called.lr called.mode then
      (BlockOp.ldmia_return 13 [0, 1, 2, 3]).exec cp15 returned
    else none

/-- What the procedure call standard requires of a function: it returns, with r4 to
r11, sp, and the five words its caller has on the stack as they were. -/
structure KeepsCallee (m m' : Machine) : Prop where
  pc : m'.pc = m.lr m.mode
  mode : m'.mode = m.mode
  spsr : m'.spsr m.mode = m.spsr m.mode
  sp : m'.sp m.mode = m.sp m.mode
  callee : ∀ n, 4 ≤ n → n ≤ 11 → m'.r n = m.r n
  frame : ∀ t < 5, m'.mem (m.sp m.mode + 4 * UInt32.ofNat t) = m.mem (m.sp m.mode + 4 * UInt32.ofNat t)

/-- The interrupted code notices nothing. -/
structure Exception.Transparent (k : Exception) (m m' : Machine) : Prop where
  pc : m'.pc = k.resume m.pc
  general : ∀ n, n < 13 → m'.r n = m.r n
  cpsr : m'.cpsr = m.cpsr

theorem taken_mode (k : Exception) (m : Machine) : (take_exception k m).mode = k.mode := by
  cases k <;> exact merge_and_inside (by decide) (by decide) _ _

theorem exec_blocks_append (cp15 : Nat → Nat → Nat → UInt32) (is js : List BlockOp) (m : Machine) :
    exec_blocks cp15 (is ++ js) m = (exec_blocks cp15 is m).bind (exec_blocks cp15 js) := by
  induction is generalizing m with
  | nil => rfl
  | cons i is ih =>
    rw [List.cons_append, exec_blocks, exec_blocks, Option.bind_assoc]
    exact congrArg _ (funext ih)

section Vectors

variable (cp15 : Nat → Nat → Nat → UInt32) {k : Exception} {m : Machine}

/-- What the vector has on the stack while the C function runs. -/
def saved (k : Exception) (m : Machine) : List UInt32 :=
  [m.r 0, m.r 1, m.r 2, m.r 3, m.pc + k.lr_offset - 4]

/-- The state after the push. -/
def pushed (k : Exception) (m : Machine) : Machine :=
  { take_exception k m with
    lr := Function.update m.lr k.mode (m.pc + k.lr_offset - 4)
    sp := Function.update m.sp k.mode (m.sp k.mode - 20)
    pc := k.vector + 8
    mem := storeAll m.mem ((saved k m).zipIdx.map fun p =>
      (m.sp k.mode - 20 + 4 * UInt32.ofNat p.2, p.1)) }

theorem save_block_spec (hsp : Aligned (m.sp k.mode)) :
    exec_blocks cp15 save_block (take_exception k m) = some (pushed k m) := by
  have hmode : merge k.psr_mask m.cpsr k.psr_value &&& MODE_MASK = k.mode := taken_mode k m
  have hbase : Aligned (m.sp k.mode - 20) := by
    rw [UInt32.sub_eq_add_neg]
    exact aligned_add hsp rfl
  simp -implicitDefEqProofs [save_block, exec_blocks, BlockOp.exec, Op.exec, take_exception, Machine.get,
    Machine.set, Machine.next, Machine.push, Machine.mode, hmode, block_words, pushed, saved, hbase,
    UInt32.add_assoc]

theorem ne_of_two_le : ∀ n : Reg, 2 ≤ n → n ≠ 0 ∧ n ≠ 1 := by decide

/-- Up to the call only r0, r1 and lr change. -/
theorem call_state_spec (hsp : Aligned (m.sp k.mode)) :
    ∃ r lr pc, call_state cp15 k m = some { pushed k m with r, lr, pc } ∧
      ∀ n, 2 ≤ n → r n = m.r n := by
  have hmode : (pushed k m).mode = k.mode := taken_mode k m
  have hnext : ∀ r pc, { pushed k m with r, pc }.mode = k.mode := fun _ _ => hmode
  rw [call_state, Exception.code, List.append_assoc, exec_blocks_append, save_block_spec cp15 hsp,
    Option.bind_some]
  cases k with
  | data_abort =>
    refine ⟨store (store m.r 0 (cp15 6 0 0)) 1 (cp15 5 0 0), _, _, rfl, ?_⟩
    intro n hn
    rw [store_of_ne (ne_of_two_le n hn).2, store_of_ne (ne_of_two_le n hn).1]
  | prefetch_abort =>
    refine ⟨store (store m.r 0 (cp15 6 0 2)) 1 (cp15 5 0 1), _, _, rfl, ?_⟩
    intro n hn
    rw [store_of_ne (ne_of_two_le n hn).2, store_of_ne (ne_of_two_le n hn).1]
  | swi => exact ⟨m.r, _, _, rfl, fun _ _ => rfl⟩

/-- Without an aligned stack the vector does not get that far. -/
theorem call_state_unaligned (hsp : ¬ Aligned (m.sp k.mode)) : call_state cp15 k m = none := by
  have hmode : merge k.psr_mask m.cpsr k.psr_value &&& MODE_MASK = k.mode := taken_mode k m
  have hbase : ¬ Aligned (m.sp k.mode - 20) := by
    intro hbase
    have hback : Aligned (m.sp k.mode - 20 + 20) := aligned_add hbase rfl
    rw [UInt32.sub_add_cancel] at hback
    exact hsp hback
  simp -implicitDefEqProofs [call_state, Exception.code, save_block, exec_blocks, BlockOp.exec, Op.exec,
    take_exception, Machine.get, Machine.set, Machine.next, Machine.push, Machine.mode, hmode, hbase]

theorem pushed_frame {t : Nat} (ht : t < (saved k m).length) :
    (pushed k m).mem (m.sp k.mode - 20 + 4 * UInt32.ofNat t) = (saved k m)[t] := by
  have hlength : (saved k m).length = 5 := rfl
  apply storeAll_of_forall
  · have hmem : ((saved k m)[t], t) ∈ (saved k m).zipIdx := by
      rw [List.mem_zipIdx_iff_getElem?]
      exact List.getElem?_eq_getElem ht
    exact List.mem_map.mpr ⟨_, List.mem_map.mpr ⟨_, hmem, rfl⟩, rfl⟩
  · rintro q hq heq
    obtain ⟨⟨word, j⟩, hword, rfl⟩ := List.mem_map.mp hq
    rw [List.mem_zipIdx_iff_getElem?] at hword
    obtain ⟨hj, hget⟩ := List.getElem?_eq_some_iff.mp hword
    obtain rfl := slot_inj (by omega) (by omega) heq
    exact hget.symm

/-- The return takes r0 to r3, the pc and the cpsr from what the vector saved, and
everything else from what the C function left. -/
theorem return_spec {called returned : Machine} (hkeeps : KeepsCallee called returned)
    (hmode : called.mode = k.mode) (hsp : called.sp k.mode = m.sp k.mode - 20)
    (hspsr : called.spsr k.mode = m.cpsr) (haligned : Aligned (m.sp k.mode))
    (hframe : ∀ t (ht : t < (saved k m).length),
      called.mem (m.sp k.mode - 20 + 4 * UInt32.ofNat t) = (saved k m)[t]) :
    (BlockOp.ldmia_return 13 [0, 1, 2, 3]).exec cp15 returned =
      if Aligned (m.pc + k.lr_offset - 4) then
        some { returned with
          r := store (store (store (store returned.r 0 (m.r 0)) 1 (m.r 1)) 2 (m.r 2)) 3 (m.r 3)
          sp := Function.update returned.sp k.mode (m.sp k.mode)
          cpsr := m.cpsr
          pc := m.pc + k.lr_offset - 4 }
      else none := by
  have hbase : Aligned (m.sp k.mode - 20) := by
    rw [UInt32.sub_eq_add_neg]
    exact aligned_add haligned rfl
  have hret : returned.mode = k.mode := hkeeps.mode.trans hmode
  have hretsp : returned.sp k.mode = m.sp k.mode - 20 := by
    rw [← hmode, hkeeps.sp, hmode, hsp]
  have hretspsr : returned.spsr k.mode = m.cpsr := by
    rw [← hmode, hkeeps.spsr, hmode, hspsr]
  have hword : ∀ t (ht : t < (saved k m).length),
      returned.mem (m.sp k.mode - 20 + 4 * UInt32.ofNat t) = (saved k m)[t] := by
    intro t ht
    have hkept := hkeeps.frame t ht
    rw [hmode, hsp] at hkept
    rw [hkept, hframe t ht]
  have hlt : ∀ t < 5, t < (saved k m).length := fun _ ht => ht
  have h0 := hword 0 (hlt 0 (by decide))
  have h1 := hword 1 (hlt 1 (by decide))
  have h2 := hword 2 (hlt 2 (by decide))
  have h3 := hword 3 (hlt 3 (by decide))
  have h4 := hword 4 (hlt 4 (by decide))
  simp only [saved, List.getElem_cons_zero, List.getElem_cons_succ] at h0 h1 h2 h3 h4
  have hget : returned.get 13 = m.sp k.mode - 20 := by
    simp only [Machine.get, hret, hretsp]
    rfl
  have hloaded : (block_words (m.sp k.mode - 20) [0, 1, 2, 3]).map (fun p => (p.1, returned.mem p.2)) =
      [(0, m.r 0), (1, m.r 1), (2, m.r 2), (3, m.r 3)] := by
    simp only [block_words, List.zipIdx_cons, List.zipIdx_nil, List.map_cons, List.map_nil, h0, h1, h2, h3]
  have hlast : m.sp k.mode - 20 + 4 * UInt32.ofNat [(0 : Reg), 1, 2, 3].length =
      m.sp k.mode - 20 + 4 * UInt32.ofNat 4 := rfl
  have hsp_out : m.sp k.mode - 20 + 4 * UInt32.ofNat ([(0 : Reg), 1, 2, 3].length + 1) =
      m.sp k.mode := by
    have hsize : 4 * UInt32.ofNat ([(0 : Reg), 1, 2, 3].length + 1) = 20 := by decide
    rw [hsize, UInt32.sub_add_cancel]
  simp only [BlockOp.exec, Machine.pop_return, hget, hloaded, if_pos hbase, Machine.jump, hlast, h4,
    hsp_out, hretspsr, hret, List.foldl_cons, List.foldl_nil]
  have hset : returned.set 13 (m.sp k.mode) =
      { returned with sp := Function.update returned.sp k.mode (m.sp k.mode) } := by
    simp only [Machine.set, hret]
    rfl
  simp only [hset, set_general (by decide : (0 : Reg) < 13), set_general (by decide : (1 : Reg) < 13),
    set_general (by decide : (2 : Reg) < 13), set_general (by decide : (3 : Reg) < 13)]

theorem run_vector_spec (cp15 : Nat → Nat → Nat → UInt32) {handler : Machine → Machine}
    (hhandler : ∀ m, KeepsCallee m (handler m)) (hsp : Aligned (m.sp k.mode)) :
    ∃ called, call_state cp15 k m = some called ∧ (∀ n, 2 ≤ n → called.r n = m.r n) ∧
      run_vector cp15 handler k m =
        if Aligned (m.pc + k.lr_offset - 4) then
          some { handler called with
            r := store (store (store (store (handler called).r 0 (m.r 0)) 1 (m.r 1)) 2 (m.r 2)) 3 (m.r 3)
            sp := Function.update (handler called).sp k.mode (m.sp k.mode)
            cpsr := m.cpsr
            pc := m.pc + k.lr_offset - 4 }
        else none := by
  obtain ⟨r, lr, pc, hcall, hregs⟩ := call_state_spec cp15 hsp
  refine ⟨_, hcall, hregs, ?_⟩
  rw [run_vector, hcall, Option.bind_some]
  generalize hcalled : ({ pushed k m with r, lr, pc } : Machine) = called
  have hmode : called.mode = k.mode := by
    rw [← hcalled]
    exact taken_mode k m
  have hstack : called.sp k.mode = m.sp k.mode - 20 := by
    rw [← hcalled]
    exact Function.update_self ..
  have hspsr : called.spsr k.mode = m.cpsr := by
    rw [← hcalled]
    exact Function.update_self ..
  have hframe : ∀ t (ht : t < (saved k m).length),
      called.mem (m.sp k.mode - 20 + 4 * UInt32.ofNat t) = (saved k m)[t] := by
    intro t ht
    rw [← hcalled]
    exact pushed_frame ht
  simp only [if_pos (hhandler called).pc]
  exact return_spec cp15 (hhandler called) hmode hstack hspsr hsp hframe

/-- r4 to r11 are kept by the C function, and r0 to r3 by the vector. -/
theorem general_kept {called returned : Machine} (hkeeps : KeepsCallee called returned)
    (hregs : ∀ n, 2 ≤ n → called.r n = m.r n) {n : Reg} (hn : n < 12) :
    store (store (store (store returned.r 0 (m.r 0)) 1 (m.r 1)) 2 (m.r 2)) 3 (m.r 3) n = m.r n := by
  have hcases : ∀ n : Reg, n < 12 → n = 3 ∨ n = 2 ∨ n = 1 ∨ n = 0 ∨ 4 ≤ n ∧ n ≤ 11 := by decide
  obtain rfl | rfl | rfl | rfl | ⟨hlow, hhigh⟩ := hcases n hn
  · exact store_self ..
  · rw [store_of_ne (by decide), store_self]
  · rw [store_of_ne (by decide), store_of_ne (by decide), store_self]
  · rw [store_of_ne (by decide), store_of_ne (by decide), store_of_ne (by decide), store_self]
  · have hne : ∀ n : Reg, 4 ≤ n → n ≠ 0 ∧ n ≠ 1 ∧ n ≠ 2 ∧ n ≠ 3 ∧ 2 ≤ n := by decide
    obtain ⟨h0, h1, h2, h3, htwo⟩ := hne n hlow
    rw [store_of_ne h3, store_of_ne h2, store_of_ne h1, store_of_ne h0, hkeeps.callee n hlow hhigh,
      hregs n htwo]

end Vectors

/-- The vectors are transparent to prefetch aborts alone, and only if the C function
leaves r12 as it was: a data abort goes on after the instruction that faulted, and
an SWI is made again and again. -/
theorem exception_transparent_iff (cp15 : Nat → Nat → Nat → UInt32) (handler : Machine → Machine)
    (hhandler : ∀ m, KeepsCallee m (handler m)) (k : Exception) (m : Machine) :
    (∃ m', run_vector cp15 handler k m = some m' ∧ k.Transparent m m') ↔
      k = .prefetch_abort ∧ Aligned m.pc ∧ Aligned (m.sp PSR_MODE_ABT) ∧
        ∀ called, call_state cp15 k m = some called → (handler called).r 12 = called.r 12 := by
  constructor
  · rintro ⟨m', hrun, htransparent⟩
    have hsp : Aligned (m.sp k.mode) := by
      by_contra hsp
      rw [run_vector, call_state_unaligned cp15 hsp] at hrun
      cases hrun
    obtain ⟨called, hcall, hregs, hspec⟩ := run_vector_spec cp15 hhandler hsp
    rw [hspec] at hrun
    split at hrun
    · next hresume =>
      obtain rfl := Option.some.inj hrun
      have hpc : m.pc + k.lr_offset - 4 = k.resume m.pc := htransparent.pc
      have hother : ∀ a : UInt32, a + 4 ≠ a := by
        intro a heq
        exact absurd (UInt32.add_right_inj a |>.mp (heq.trans (UInt32.add_zero a).symm)) (by decide)
      cases k with
      | data_abort =>
        simp only [Exception.lr_offset, Exception.resume] at hpc
        have hback : m.pc + 8 - 4 = m.pc + 4 := by grind
        exact absurd (hback.symm.trans hpc) (hother m.pc)
      | swi =>
        simp only [Exception.lr_offset, Exception.resume, UInt32.add_sub_cancel] at hpc
        exact absurd hpc.symm (hother m.pc)
      | prefetch_abort =>
        simp only [Exception.lr_offset, UInt32.add_sub_cancel] at hresume
        refine ⟨rfl, hresume, hsp, ?_⟩
        intro called' hcall'
        obtain rfl := Option.some.inj (hcall.symm.trans hcall')
        have hr12 := htransparent.general 12 (by decide)
        rw [hregs 12 (by decide), ← hr12]
        rfl
    · cases hrun
  · rintro ⟨rfl, hpc, hsp, hr12⟩
    obtain ⟨called, hcall, hregs, hspec⟩ := run_vector_spec cp15 (k := .prefetch_abort) hhandler hsp
    have hresume : m.pc + Exception.lr_offset .prefetch_abort - 4 = m.pc := UInt32.add_sub_cancel ..
    rw [hresume, if_pos hpc] at hspec
    refine ⟨_, hspec, rfl, ?_, rfl⟩
    intro n hn
    by_cases hlast : n = 12
    · subst hlast
      exact (hr12 called hcall).trans (hregs 12 (by decide))
    · have hlt : ∀ n : Reg, n < 13 → n ≠ 12 → n < 12 := by decide
      exact general_kept (hhandler called) hregs (hlt n hn hlast)

/-- A C function that does nothing but return. -/
def return_only (m : Machine) : Machine := { m with pc := m.lr m.mode }

theorem return_only_keeps (m : Machine) : KeepsCallee m (return_only m) :=
  ⟨rfl, rfl, rfl, rfl, fun _ _ _ => rfl, fun _ _ => rfl⟩

/-- A task about to execute the instruction at 0xc0010000. -/
def interrupted : Machine :=
  { r := fun _ => 1, sp := fun _ => 0x7000, lr := fun _ => 0, spsr := fun _ => 0, cpsr := 0x53
    pc := 0xc0010000, mem := fun _ => 0 }

theorem prefetch_abort_transparent :
    ∃ m', run_vector (fun _ _ _ => 0) return_only .prefetch_abort interrupted = some m' ∧
      Exception.prefetch_abort.Transparent interrupted m' := by
  apply (exception_transparent_iff (fun _ _ _ => 0) return_only return_only_keeps .prefetch_abort
    interrupted).mpr
  exact ⟨rfl, by decide, by decide, fun _ _ => rfl⟩

/-- A data abort at 0xc0010000, whose C function does nothing: the instruction is
skipped. -/
theorem data_abort_skips :
    ∃ m', run_vector (fun _ _ _ => 0) return_only .data_abort interrupted = some m' ∧
      m'.pc = 0xc0010004 ∧ ¬ Exception.data_abort.Transparent interrupted m' := by
  have hsp : Aligned (interrupted.sp Exception.data_abort.mode) := by decide
  obtain ⟨called, -, -, hrun⟩ :=
    run_vector_spec (fun _ _ _ => 0) (k := .data_abort) return_only_keeps hsp
  have hresume : Aligned (interrupted.pc + Exception.data_abort.lr_offset - 4) := by decide
  rw [if_pos hresume] at hrun
  refine ⟨_, hrun, rfl, ?_⟩
  intro htransparent
  have hskipped : interrupted.pc + Exception.data_abort.lr_offset - 4 ≠
      Exception.data_abort.resume interrupted.pc := by decide
  exact hskipped htransparent.pc

end epos.entry
