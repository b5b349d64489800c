import Epos.Lib.Arm
import Epos.Task.Defs

open arm words epos.task

namespace epos.entry

def PSR_MODE_IRQ : UInt32 := 0x12
def PSR_MODE_SVC : UInt32 := 0x13

/-! `__vector_irq` as assembled, from the committed `kernel.list`. The words at
0xc0008110, 0xc0008188 and 0xc000819c are the literals of the source's `.word`. -/

def vector_irq_addr : UInt32 := 0xc0008104
def restore_addr : UInt32 := 0xc000819c

def save_words : List UInt32 :=
  [0xe24ee004, 0xe50d0004, 0xe50d1008, 0xc0057344, 0xe51f100c, 0xe5910000, 0xe51d1004, 0xe5801000,
   0xe51d1008, 0xe5801004, 0xe5802008, 0xe580300c, 0xe5804010, 0xe5805014, 0xe5806018, 0xe580701c,
   0xe5808020, 0xe5809024, 0xe580a028, 0xe580b02c, 0xe580c030, 0xe580e03c, 0xe14f1000, 0xe5801040,
   0xe10f1000, 0xe3c1101f, 0xe3811013, 0xe129f001, 0xe580d034, 0xe580e038, 0xe14f1000, 0xe5801044,
   0xe3a02001, 0xc100b400, 0xe51f300c, 0xe583200c]

/-- The calls of `common_irq_handler` and `task_schedule`. -/
def call_words : List UInt32 := [0xeb000f27, 0xeb000461]

def restore_words : List UInt32 :=
  [0xc0057344, 0xe51f100c, 0xe5910000, 0xe5902008, 0xe590300c, 0xe5904010, 0xe5905014, 0xe5906018,
   0xe590701c, 0xe5908020, 0xe5909024, 0xe590a028, 0xe590b02c, 0xe590c030, 0xe590d034, 0xe590e038,
   0xe590103c, 0xe50d1004, 0xe5901040, 0xe50d1008, 0xe129f001, 0xe5901004, 0xe5900000, 0xe51df004]

def text (addr : UInt32) : Option UInt32 :=
  if vector_irq_addr ≤ addr ∧ Aligned addr then
    (save_words ++ call_words ++ restore_words)[((addr - vector_irq_addr) / 4).toNat]?
  else none

/-- What data accesses see of the literals. -/
def Literals (mem : UInt32 → UInt32) : Prop :=
  mem 0xc0008110 = task_global_addr ∧ mem 0xc0008188 = 0xc100b400 ∧ mem 0xc000819c = task_global_addr

/-- The processor takes an IRQ: it banks the return address and the cpsr, masks
IRQs and imprecise aborts, and goes on in IRQ mode. -/
def take_irq (m : Machine) : Machine :=
  { m with
    lr := Function.update m.lr PSR_MODE_IRQ (m.pc + 4)
    spsr := Function.update m.spsr PSR_MODE_IRQ m.cpsr
    cpsr := merge 0x1BF m.cpsr 0x192
    pc := vector_irq_addr }

/-- From the vector up to the first call. -/
def save (m : Machine) : Option Machine := run text save_words.length (take_irq m)

/-- From the return of the second call up to the jump. -/
def restore (m : Machine) : Option Machine := run text restore_words.length m

def save_general : List (Reg × UInt32) :=
  [(2, 8), (3, 12), (4, 16), (5, 20), (6, 24), (7, 28), (8, 32), (9, 36), (10, 40), (11, 44), (12, 48),
   (14, 60)]

def restore_general : List (Reg × UInt32) :=
  [(2, 8), (3, 12), (4, 16), (5, 20), (6, 24), (7, 28), (8, 32), (9, 36), (10, 40), (11, 44), (12, 48)]

def save_scratch : List Instr :=
  [al (.sub_imm 14 14 4), al (.str 0 13 (0 - 4)), al (.str 1 13 (0 - 8)), ⟨12, .and_asr 7 5 4 6⟩,
   al (.ldr 1 15 (0 - 12)), al (.ldr 0 1 0), al (.ldr 1 13 (0 - 4)), al (.str 1 0 0), al (.ldr 1 13 (0 - 8)),
   al (.str 1 0 4)]

def save_svc : List Instr :=
  [al (.mrs_spsr 1), al (.str 1 0 64), al (.mrs_cpsr 1), al (.bic_imm 1 1 0x1F),
   al (.orr_imm 1 1 0x13), al (.msr_cpsr_fc 1), al (.str 13 0 52), al (.str 14 0 56),
   al (.mrs_spsr 1), al (.str 1 0 68)]

def save_timer : List Instr :=
  [al (.mov_imm 2 1), ⟨12, .mrs_cpsr 11⟩, al (.ldr 3 15 (0 - 12)), al (.str 2 3 12)]

def restore_load : List Instr := [⟨12, .and_asr 7 5 4 6⟩, al (.ldr 1 15 (0 - 12)), al (.ldr 0 1 0)]

def restore_svc : List Instr :=
  [al (.ldr 13 0 52), al (.ldr 14 0 56), al (.ldr 1 0 60), al (.str 1 13 (0 - 4)), al (.ldr 1 0 64),
   al (.str 1 13 (0 - 8)), al (.msr_cpsr_fc 1), al (.ldr 1 0 4), al (.ldr 0 0 0)]

def jump : Instr := al (.ldr 15 13 (0 - 4))

def save_listing : List Instr :=
  save_scratch ++ (save_general.map fun p => al (.str p.1 0 p.2)) ++ save_svc ++ save_timer

def restore_listing : List Instr :=
  restore_load ++ (restore_general.map fun p => al (.ldr p.1 0 p.2)) ++ restore_svc ++ [jump]

theorem save_listed : listed text vector_irq_addr save_listing = true := by decide +kernel

theorem restore_listed : listed text restore_addr restore_listing = true := by decide +kernel

theorem save_eq (m : Machine) : save m = exec_list save_listing (take_irq m) := by
  have hlisted : listed text (take_irq m).pc save_listing = true := save_listed
  exact run_eq_exec_list text hlisted (by decide)

theorem restore_eq {m : Machine} (hpc : m.pc = restore_addr) :
    restore m = exec_list restore_listing m := by
  have hlisted := restore_listed
  rw [← hpc] at hlisted
  exact run_eq_exec_list text hlisted (by decide)

end epos.entry
