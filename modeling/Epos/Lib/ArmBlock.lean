import Epos.Lib.Arm

open words

namespace arm

/-! Instructions that move several registers, the call, and the read of a
coprocessor register, in their unconditional forms. -/

inductive BlockOp where
  | single (op : Op)
  | stmdb (rn : Reg) (regs : List Reg)
  | ldmia_return (rn : Reg) (regs : List Reg)
  | mrc (rt : Reg) (crn crm opc2 : Nat)
  | bl (offset : UInt32)
deriving DecidableEq

/-- The words that a block from `base` on has for the registers listed. -/
def block_words (base : UInt32) (regs : List Reg) : List (Reg × UInt32) :=
  regs.zipIdx.map fun p => (p.1, base + 4 * UInt32.ofNat p.2)

/-- `stmdb rn!, {regs}` -/
def Machine.push (m : Machine) (rn : Reg) (regs : List Reg) : Option Machine :=
  let base := m.get rn - 4 * UInt32.ofNat regs.length
  if Aligned base then
    let stored := (block_words base regs).map fun p => (p.2, m.get p.1)
    some { m.set rn base with mem := storeAll m.mem stored }.next
  else none

/-- `ldmia rn!, {regs, pc}^`: the return from an exception, which also takes the
cpsr back from the banked spsr. -/
def Machine.pop_return (m : Machine) (rn : Reg) (regs : List Reg) : Option Machine :=
  let base := m.get rn
  let loaded := (block_words base regs).map fun p => (p.1, m.mem p.2)
  let m' := loaded.foldl (fun m' p => m'.set p.1 p.2)
    (m.set rn (base + 4 * UInt32.ofNat (regs.length + 1)))
  if Aligned base then
    { m' with cpsr := m.spsr m.mode }.jump (m.mem (base + 4 * UInt32.ofNat regs.length))
  else none

/-- `cp15` gives what the system control coprocessor has in its registers. -/
def BlockOp.exec (cp15 : Nat → Nat → Nat → UInt32) (m : Machine) : BlockOp → Option Machine
  | .single op => op.exec m
  | .stmdb rn regs => m.push rn regs
  | .ldmia_return rn regs => m.pop_return rn regs
  | .mrc rt crn crm opc2 => some (m.set rt (cp15 crn crm opc2)).next
  | .bl offset => some { m.set 14 (m.pc + 4) with pc := m.pc + 8 + offset }

def exec_blocks (cp15 : Nat → Nat → Nat → UInt32) : List BlockOp → Machine → Option Machine
  | [], m => some m
  | b :: rest, m => (b.exec cp15 m).bind (exec_blocks cp15 rest)

/-- The registers of a block transfer, the lowest first. -/
def block_regs (word : UInt32) : List Reg :=
  (List.range 16).filterMap fun n => if field word n 1 = 1 then some (Fin.ofNat 16 n) else none

/-- The signed word offset of a branch. -/
def branch_offset (word : UInt32) : UInt32 := ⟨((BitVec.ofNat 24 (field word 0 24)).signExtend 32) <<< 2⟩

def decode_block (word : UInt32) : Option BlockOp :=
  if field word 28 4 ≠ 0xE then none
  else
    match field word 25 3, field word 20 5 with
    | 0b100, 0b10010 => some (.stmdb (reg word 16) (block_regs word))
    | 0b100, 0b01111 =>
      if field word 15 1 = 1 then some (.ldmia_return (reg word 16) ((block_regs word).filter (· ≠ 15)))
      else none
    | 0b111, 0b00001 =>
      if field word 8 4 = 0xF ∧ field word 4 1 = 1 then
        some (.mrc (reg word 12) (field word 16 4) (field word 0 4) (field word 5 3))
      else none
    | 0b101, _ => if field word 24 1 = 1 then some (.bl (branch_offset word)) else none
    | _, _ => (decode_op word).map .single

end arm
