import Epos.Lib.WordMem

open words

namespace arm

/-! The ARM state (no Thumb) of a processor with banked registers, for the
instructions below. FIQ mode's own r8 to r12 are left out. -/

abbrev Reg := Fin 16

instance neZero_sixteen : @NeZero Nat Zero.ofOfNat0 16 := ⟨by decide⟩

/-- `sp`, `lr` and `spsr` are banked: one for each mode number. `r` holds r0 to r12. -/
structure Machine where
  r : Reg → UInt32
  sp : UInt32 → UInt32
  lr : UInt32 → UInt32
  spsr : UInt32 → UInt32
  cpsr : UInt32
  pc : UInt32
  mem : UInt32 → UInt32

def MODE_MASK : UInt32 := 0x1F

def Machine.mode (m : Machine) : UInt32 := m.cpsr &&& MODE_MASK

/-- Read as an operand, the pc is two instructions ahead. -/
def Machine.get (m : Machine) (n : Reg) : UInt32 :=
  if n = 15 then m.pc + 8 else if n = 14 then m.lr m.mode else if n = 13 then m.sp m.mode else m.r n

def Machine.set (m : Machine) (n : Reg) (word : UInt32) : Machine :=
  if n = 15 then { m with pc := word }
  else if n = 14 then { m with lr := Function.update m.lr m.mode word }
  else if n = 13 then { m with sp := Function.update m.sp m.mode word }
  else { m with r := Function.update m.r n word }

def Machine.next (m : Machine) : Machine := { m with pc := m.pc + 4 }

/-- Word accesses and jumps elsewhere are not modelled. -/
def Aligned (addr : UInt32) : Prop := addr % 4 = 0

instance (addr : UInt32) : Decidable (Aligned addr) := inferInstanceAs (Decidable (_ = _))

def Machine.load (m : Machine) (addr : UInt32) : Option UInt32 :=
  if Aligned addr then some (m.mem addr) else none

def Machine.write (m : Machine) (addr word : UInt32) : Option Machine :=
  if Aligned addr then some { m with mem := store m.mem addr word } else none

def Machine.jump (m : Machine) (addr : UInt32) : Option Machine :=
  if Aligned addr then some { m with pc := addr } else none

/-- The arithmetic shift right. -/
def asr (word : UInt32) (n : Nat) : UInt32 := ⟨word.toBitVec.sshiftRight n⟩

/-- `old` with the bits of `mask` taken from `new`. -/
def merge (mask old new : UInt32) : UInt32 := (old &&& ~~~mask) ||| (new &&& mask)

/-- The bytes of the cpsr that `msr CPSR_fc` writes: flags and control. -/
def FC_MASK : UInt32 := 0xFF0000FF

inductive Op where
  | and_asr (rd rn rm : Reg) (n : Nat)
  | sub_imm (rd rn : Reg) (imm : UInt32)
  | bic_imm (rd rn : Reg) (imm : UInt32)
  | orr_imm (rd rn : Reg) (imm : UInt32)
  | mov_imm (rd : Reg) (imm : UInt32)
  | mrs_cpsr (rd : Reg)
  | mrs_spsr (rd : Reg)
  | msr_cpsr_fc (rm : Reg)
  | ldr (rt rn : Reg) (offset : UInt32)
  | str (rt rn : Reg) (offset : UInt32)
deriving DecidableEq

structure Instr where
  cond : Nat
  op : Op
deriving DecidableEq

def Op.exec (m : Machine) : Op → Option Machine
  | .and_asr rd rn rm n => some (m.set rd (m.get rn &&& asr (m.get rm) n)).next
  | .sub_imm rd rn imm => some (m.set rd (m.get rn - imm)).next
  | .bic_imm rd rn imm => some (m.set rd (m.get rn &&& ~~~imm)).next
  | .orr_imm rd rn imm => some (m.set rd (m.get rn ||| imm)).next
  | .mov_imm rd imm => some (m.set rd imm).next
  | .mrs_cpsr rd => some (m.set rd m.cpsr).next
  | .mrs_spsr rd => some (m.set rd (m.spsr m.mode)).next
  | .msr_cpsr_fc rm =>
    some { m with cpsr := merge FC_MASK m.cpsr (m.get rm) }.next
  | .ldr rt rn offset => (m.load (m.get rn + offset)).bind fun word =>
    if rt = 15 then m.jump word else some (m.set rt word).next
  | .str rt rn offset => (m.write (m.get rn + offset) (m.get rt)).map Machine.next

def flag (cpsr : UInt32) (bit : Nat) : Bool := cpsr.toBitVec.getLsbD bit

def passes (cpsr : UInt32) : Nat → Bool
  | 0x0 => flag cpsr 30
  | 0x1 => !flag cpsr 30
  | 0x2 => flag cpsr 29
  | 0x3 => !flag cpsr 29
  | 0x4 => flag cpsr 31
  | 0x5 => !flag cpsr 31
  | 0x6 => flag cpsr 28
  | 0x7 => !flag cpsr 28
  | 0x8 => flag cpsr 29 && !flag cpsr 30
  | 0x9 => !flag cpsr 29 || flag cpsr 30
  | 0xA => flag cpsr 31 == flag cpsr 28
  | 0xB => flag cpsr 31 != flag cpsr 28
  | 0xC => !flag cpsr 30 && flag cpsr 31 == flag cpsr 28
  | 0xD => flag cpsr 30 || flag cpsr 31 != flag cpsr 28
  | _ => true

def Instr.exec (m : Machine) (i : Instr) : Option Machine :=
  if passes m.cpsr i.cond then i.op.exec m else some m.next

/-- The `n` bits of an instruction word from bit `lo` on. -/
def field (word : UInt32) (lo n : Nat) : Nat := word.toNat / 2 ^ lo % 2 ^ n

def reg (word : UInt32) (lo : Nat) : Reg := Fin.ofNat 16 (field word lo 4)

/-- An immediate operand: eight bits rotated right by an even amount. -/
def imm_operand (word : UInt32) : UInt32 :=
  ⟨(BitVec.ofNat 32 (field word 0 8)).rotateRight (2 * field word 8 4)⟩

def imm_offset (word : UInt32) : UInt32 :=
  if field word 23 1 = 1 then UInt32.ofNat (field word 0 12) else 0 - UInt32.ofNat (field word 0 12)

/-- Of the register forms, the `mrs` and `msr` space is recognised without
regard to its should-be-zero and should-be-one bits. -/
def decode_op (word : UInt32) : Option Op :=
  match field word 25 3, field word 21 4, field word 20 1 with
  | 0b001, 0b0010, 0 => some (.sub_imm (reg word 12) (reg word 16) (imm_operand word))
  | 0b001, 0b1100, 0 => some (.orr_imm (reg word 12) (reg word 16) (imm_operand word))
  | 0b001, 0b1101, 0 => some (.mov_imm (reg word 12) (imm_operand word))
  | 0b001, 0b1110, 0 => some (.bic_imm (reg word 12) (reg word 16) (imm_operand word))
  | 0b000, 0b0000, 0 =>
    if field word 4 3 = 0b100 ∧ field word 7 5 ≠ 0 then
      some (.and_asr (reg word 12) (reg word 16) (reg word 0) (field word 7 5))
    else none
  | 0b000, 0b1000, 0 => if field word 4 4 = 0 then some (.mrs_cpsr (reg word 12)) else none
  | 0b000, 0b1010, 0 => if field word 4 4 = 0 then some (.mrs_spsr (reg word 12)) else none
  | 0b000, 0b1001, 0 =>
    if field word 4 4 = 0 ∧ field word 16 4 = 0b1001 then some (.msr_cpsr_fc (reg word 0)) else none
  | 0b010, 0b1000, 0 => some (.str (reg word 12) (reg word 16) (imm_offset word))
  | 0b010, 0b1100, 0 => some (.str (reg word 12) (reg word 16) (imm_offset word))
  | 0b010, 0b1000, 1 => some (.ldr (reg word 12) (reg word 16) (imm_offset word))
  | 0b010, 0b1100, 1 => some (.ldr (reg word 12) (reg word 16) (imm_offset word))
  | _, _, _ => none

/-- Condition 0b1111 is another instruction space. -/
def decode (word : UInt32) : Option Instr :=
  if field word 28 4 = 0xF then none else (decode_op word).map fun op => ⟨field word 28 4, op⟩

variable (text : UInt32 → Option UInt32)

/-- Instructions are fetched from `text`; data accesses go to memory. -/
def step (m : Machine) : Option Machine :=
  (text m.pc).bind fun word => (decode word).bind fun i => i.exec m

def run : Nat → Machine → Option Machine
  | 0, m => some m
  | n + 1, m => (step text m).bind (run n)

/-- The instructions `is` are what `text` has from `addr` on. -/
def listed : UInt32 → List Instr → Bool
  | _, [] => true
  | addr, i :: rest => (text addr).bind decode = some i && listed (addr + 4) rest

/-- The register an instruction writes, the banked ones under their number. -/
def Op.dest : Op → Option Reg
  | .and_asr rd _ _ _ | .sub_imm rd _ _ | .bic_imm rd _ _ | .orr_imm rd _ _ | .mov_imm rd _
  | .mrs_cpsr rd | .mrs_spsr rd => some rd
  | .ldr rt _ _ => some rt
  | .msr_cpsr_fc _ | .str _ _ _ => none

/-- Only the last instruction may jump. -/
def straight : List Instr → Bool
  | [] => true
  | [_] => true
  | i :: rest => i.op.dest ≠ some 15 && straight rest

/-- Instructions executed one after the other, whatever lies at the pc. -/
def exec_list : List Instr → Machine → Option Machine
  | [], m => some m
  | i :: rest, m => (i.exec m).bind (exec_list rest)

/-- The instruction that is always executed. -/
def al (op : Op) : Instr := ⟨14, op⟩

@[simp] theorem exec_list_nil (m : Machine) : exec_list [] m = some m := rfl

theorem exec_list_cons (i : Instr) (rest : List Instr) (m : Machine) :
    exec_list (i :: rest) m = (i.exec m).bind (exec_list rest) := rfl

theorem al_exec (op : Op) (m : Machine) : (al op).exec m = op.exec m := rfl

theorem exec_list_append (is js : List Instr) (m : Machine) :
    exec_list (is ++ js) m = (exec_list is m).bind (exec_list js) := by
  induction is generalizing m with
  | nil => rfl
  | cons i is ih =>
    rw [List.cons_append, exec_list_cons, exec_list_cons, Option.bind_assoc]
    exact congrArg _ (funext ih)

theorem aligned_iff (a : UInt32) : Aligned a ↔ a.toNat % 4 = 0 := by
  rw [Aligned, ← UInt32.toNat_inj, UInt32.toNat_mod]
  rfl

theorem aligned_add {a b : UInt32} (ha : Aligned a) (hb : Aligned b) : Aligned (a + b) := by
  rw [aligned_iff] at *
  rw [UInt32.toNat_add]
  omega

theorem load_aligned {m : Machine} {addr : UInt32} (haddr : Aligned addr) :
    m.load addr = some (m.mem addr) := if_pos haddr

theorem write_aligned {m : Machine} {addr : UInt32} (haddr : Aligned addr) (word : UInt32) :
    m.write addr word = some { m with mem := store m.mem addr word } := if_pos haddr

theorem get_ne_pc {m : Machine} {n : Reg} (hn : n ≠ 15) (pc : UInt32) (mem : UInt32 → UInt32) :
    { m with pc, mem }.get n = m.get n := by
  simp only [Machine.get, hn, ↓reduceIte, Machine.mode]

/-! What `merge` leaves in the bits under another mask. -/

theorem merge_and_inside {mask sub : UInt32} (hsub : ~~~mask &&& sub = 0) (hmask : mask &&& sub = sub)
    (old new : UInt32) : merge mask old new &&& sub = new &&& sub := by
  rw [merge, or_and, UInt32.and_assoc, UInt32.and_assoc, hsub, hmask, UInt32.and_zero, UInt32.zero_or]

theorem merge_and_outside {mask sub : UInt32} (hsub : ~~~mask &&& sub = sub) (hmask : mask &&& sub = 0)
    (old new : UInt32) : merge mask old new &&& sub = old &&& sub := by
  rw [merge, or_and, UInt32.and_assoc, UInt32.and_assoc, hsub, hmask, UInt32.and_zero, UInt32.or_zero]

theorem merge_self (mask word : UInt32) : merge mask word word = word := by
  rw [merge, ← UInt32.toBitVec_inj]
  ext i hi
  simp only [UInt32.toBitVec_or, UInt32.toBitVec_and, UInt32.toBitVec_not, BitVec.getElem_or,
    BitVec.getElem_and, BitVec.getElem_not]
  cases word.toBitVec[i] <;> cases mask.toBitVec[i] <;> rfl

theorem flag_merge (mask old new : UInt32) {bit : Nat} (hbit : bit < 32) :
    flag (merge mask old new) bit = if flag mask bit then flag new bit else flag old bit := by
  have hbits : flag (merge mask old new) bit =
      ((flag old bit && !flag mask bit) || (flag new bit && flag mask bit)) := by
    simp only [flag, merge, UInt32.toBitVec_or, UInt32.toBitVec_and, UInt32.toBitVec_not,
      BitVec.getLsbD_or, BitVec.getLsbD_and, BitVec.getLsbD_not, hbit, decide_true, Bool.true_and]
  rw [hbits]
  cases flag mask bit <;> simp

theorem aligned_and_three {a : UInt32} (ha : Aligned a) : a &&& 3 = 0 := by
  rw [aligned_iff] at ha
  rw [← UInt32.toNat_inj, UInt32.toNat_and]
  have hmask : (3 : UInt32).toNat = 2 ^ 2 - 1 := rfl
  rw [hmask, Nat.and_two_pow_sub_one_eq_mod]
  exact ha

theorem set_general {m : Machine} {n : Reg} (hn : n < 13) (word : UInt32) :
    m.set n word = { m with r := store m.r n word } := by
  have hpc : n ≠ 15 := by rintro rfl; exact absurd hn (by decide)
  have hlr : n ≠ 14 := by rintro rfl; exact absurd hn (by decide)
  have hsp : n ≠ 13 := by rintro rfl; exact absurd hn (by decide)
  simp only [Machine.set, hpc, hlr, hsp, ↓reduceIte, store]

theorem get_general {m : Machine} {n : Reg} (hn : n < 13) : m.get n = m.r n := by
  have hpc : n ≠ 15 := by rintro rfl; exact absurd hn (by decide)
  have hlr : n ≠ 14 := by rintro rfl; exact absurd hn (by decide)
  have hsp : n ≠ 13 := by rintro rfl; exact absurd hn (by decide)
  simp only [Machine.get, hpc, hlr, hsp, ↓reduceIte]

/-- A load to a general register. -/
theorem exec_ldr {m : Machine} {rt rn : Reg} {off addr word : UInt32} (hrt : rt < 13)
    (haddr : m.get rn + off = addr) (haligned : Aligned addr) (hword : m.mem addr = word) :
    (al (.ldr rt rn off)).exec m = some { m with r := store m.r rt word, pc := m.pc + 4 } := by
  have hpc : rt ≠ 15 := by
    rintro rfl
    exact absurd hrt (by decide)
  rw [al_exec, Op.exec, haddr, load_aligned haligned, hword, Option.bind_some, if_neg hpc, set_general hrt]
  rfl

theorem exec_str {m : Machine} {rt rn : Reg} {off addr : UInt32} (haddr : m.get rn + off = addr)
    (haligned : Aligned addr) :
    (al (.str rt rn off)).exec m = some { m with mem := store m.mem addr (m.get rt), pc := m.pc + 4 } := by
  rw [al_exec, Op.exec, haddr, write_aligned haligned]
  rfl

theorem block_pc (pc : UInt32) (n : Nat) : pc + 4 + 4 * UInt32.ofNat n = pc + 4 * UInt32.ofNat (n + 1) := by
  rw [UInt32.ofNat_add, UInt32.mul_add, UInt32.add_assoc, UInt32.add_comm 4]
  rfl

/-- Registers stored at offsets from a base register. -/
theorem exec_str_block {m : Machine} {rn : Reg} (regs : List (Reg × UInt32)) (hrn : rn ≠ 15)
    (hrt : ∀ p ∈ regs, p.1 ≠ 15) (haligned : ∀ p ∈ regs, Aligned (m.get rn + p.2)) :
    exec_list (regs.map fun p => al (.str p.1 rn p.2)) m =
      some { m with
        mem := storeAll m.mem (regs.map fun p => (m.get rn + p.2, m.get p.1))
        pc := m.pc + 4 * UInt32.ofNat regs.length } := by
  induction regs generalizing m with
  | nil => simp
  | cons p regs ih =>
    have hfirst := haligned p List.mem_cons_self
    have hbase : ∀ pc mem, { m with pc, mem }.get rn = m.get rn := get_ne_pc hrn
    have hvalues : ∀ pc mem, (regs.map fun q => (m.get rn + q.2, { m with pc, mem }.get q.1)) =
        regs.map fun q => (m.get rn + q.2, m.get q.1) := by
      intro pc mem
      apply List.map_congr_left
      intro q hq
      rw [get_ne_pc (hrt q (List.mem_cons_of_mem p hq))]
    rw [List.map_cons, exec_list_cons, exec_str rfl hfirst, Option.bind_some]
    rw [ih (fun q hq => hrt q (List.mem_cons_of_mem p hq)) (fun q hq => by
      rw [hbase]
      exact haligned q (List.mem_cons_of_mem p hq))]
    simp only [hbase, hvalues, block_pc, List.length_cons, List.map_cons, storeAll_cons]

/-- General registers loaded from offsets from another general register. -/
theorem exec_ldr_block {m : Machine} {rn : Reg} (regs : List (Reg × UInt32)) (hrn : rn < 13)
    (hrt : ∀ p ∈ regs, p.1 < 13 ∧ p.1 ≠ rn) (haligned : ∀ p ∈ regs, Aligned (m.r rn + p.2)) :
    exec_list (regs.map fun p => al (.ldr p.1 rn p.2)) m =
      some { m with
        r := storeAll m.r (regs.map fun p => (p.1, m.mem (m.r rn + p.2)))
        pc := m.pc + 4 * UInt32.ofNat regs.length } := by
  induction regs generalizing m with
  | nil => simp
  | cons p regs ih =>
    obtain ⟨hgeneral, hne⟩ := hrt p List.mem_cons_self
    have hfirst := haligned p List.mem_cons_self
    have haddr : m.get rn + p.2 = m.r rn + p.2 := by rw [get_general hrn]
    have hbase : ∀ word, store m.r p.1 word rn = m.r rn := fun word => store_of_ne (Ne.symm hne)
    rw [List.map_cons, exec_list_cons, exec_ldr hgeneral haddr hfirst rfl, Option.bind_some]
    rw [ih (fun q hq => hrt q (List.mem_cons_of_mem p hq)) (fun q hq => by
      simpa only [hbase] using haligned q (List.mem_cons_of_mem p hq))]
    simp only [hbase, block_pc, List.length_cons, List.map_cons, storeAll_cons]

theorem set_next_pc {m : Machine} {n : Reg} (hn : n ≠ 15) (word : UInt32) :
    (m.set n word).next.pc = m.pc + 4 := by
  unfold Machine.set
  rw [if_neg hn]
  split
  · rfl
  · split <;> rfl

theorem exec_pc {i : Instr} {m m' : Machine} (hdest : i.op.dest ≠ some 15)
    (hexec : i.exec m = some m') : m'.pc = m.pc + 4 := by
  unfold Instr.exec at hexec
  split at hexec
  · cases hop : i.op with
    | and_asr rd | sub_imm rd | bic_imm rd | orr_imm rd | mov_imm rd | mrs_cpsr rd | mrs_spsr rd =>
      rw [hop] at hdest hexec
      simp only [Op.exec, Option.some.injEq] at hexec
      rw [← hexec]
      exact set_next_pc (fun h => hdest (congrArg some h)) _
    | msr_cpsr_fc rm =>
      rw [hop] at hexec
      simp only [Op.exec, Option.some.injEq] at hexec
      rw [← hexec]
      rfl
    | ldr rt rn offset =>
      rw [hop] at hdest hexec
      have hrt : rt ≠ 15 := fun h => hdest (congrArg some h)
      obtain ⟨word, -, hset⟩ := Option.bind_eq_some_iff.mp hexec
      rw [if_neg hrt, Option.some.injEq] at hset
      rw [← hset]
      exact set_next_pc hrt _
    | str rt rn offset =>
      rw [hop] at hexec
      obtain ⟨m₁, hwrite, rfl⟩ := Option.map_eq_some_iff.mp hexec
      unfold Machine.write at hwrite
      split at hwrite
      · cases hwrite
        rfl
      · cases hwrite
  · cases hexec
    rfl

/-- Only `msr` writes the cpsr. -/
def Op.writes_cpsr : Op → Bool
  | .msr_cpsr_fc _ => true
  | _ => false

theorem set_cpsr (m : Machine) (n : Reg) (word : UInt32) : (m.set n word).cpsr = m.cpsr := by
  unfold Machine.set
  split
  · rfl
  · split
    · rfl
    · split <;> rfl

theorem exec_cpsr {i : Instr} {m m' : Machine} (hop : i.op.writes_cpsr = false)
    (hexec : i.exec m = some m') : m'.cpsr = m.cpsr := by
  unfold Instr.exec at hexec
  split at hexec
  · cases hi : i.op with
    | and_asr rd | sub_imm rd | bic_imm rd | orr_imm rd | mov_imm rd | mrs_cpsr rd | mrs_spsr rd =>
      rw [hi] at hexec
      obtain rfl := Option.some.inj hexec
      exact set_cpsr m rd _
    | msr_cpsr_fc rm =>
      rw [hi] at hop
      cases hop
    | ldr rt rn offset =>
      rw [hi] at hexec
      obtain ⟨word, -, hload⟩ := Option.bind_eq_some_iff.mp hexec
      split at hload
      · unfold Machine.jump at hload
        split at hload
        · obtain rfl := Option.some.inj hload
          rfl
        · cases hload
      · obtain rfl := Option.some.inj hload
        exact set_cpsr m rt word
    | str rt rn offset =>
      rw [hi] at hexec
      obtain ⟨m₁, hwrite, rfl⟩ := Option.map_eq_some_iff.mp hexec
      unfold Machine.write at hwrite
      split at hwrite
      · obtain rfl := Option.some.inj hwrite
        rfl
      · cases hwrite
  · obtain rfl := Option.some.inj hexec
    rfl

theorem exec_list_cpsr {is : List Instr} {m m' : Machine} (hops : ∀ i ∈ is, i.op.writes_cpsr = false)
    (hexec : exec_list is m = some m') : m'.cpsr = m.cpsr := by
  induction is generalizing m with
  | nil =>
    obtain rfl := Option.some.inj hexec
    rfl
  | cons i rest ih =>
    rw [exec_list_cons] at hexec
    obtain ⟨m₁, hfirst, hrest⟩ := Option.bind_eq_some_iff.mp hexec
    rw [ih (fun j hj => hops j (List.mem_cons_of_mem i hj)) hrest,
      exec_cpsr (hops i List.mem_cons_self) hfirst]

theorem step_of_decode {i : Instr} {m : Machine} (hlisted : (text m.pc).bind decode = some i) :
    step text m = i.exec m := by
  obtain ⟨word, hword, hdecode⟩ := Option.bind_eq_some_iff.mp hlisted
  rw [step, hword, Option.bind_some, hdecode, Option.bind_some]

/-- Straight-line code runs through its listing. -/
theorem run_eq_exec_list {is : List Instr} {m : Machine} (hlisted : listed text m.pc is = true)
    (hstraight : straight is = true) : run text is.length m = exec_list is m := by
  induction is generalizing m with
  | nil => rfl
  | cons i rest ih =>
    simp only [listed, Bool.and_eq_true, decide_eq_true_eq] at hlisted
    rw [List.length_cons, run, step_of_decode text hlisted.1, exec_list_cons]
    cases hexec : i.exec m with
    | none => rfl
    | some m' =>
      rw [Option.bind_some, Option.bind_some]
      cases rest with
      | nil => rfl
      | cons j rest =>
        simp only [straight, Bool.and_eq_true, decide_eq_true_eq] at hstraight
        have hpc := exec_pc hstraight.1 hexec
        apply ih
        · rw [hpc]
          exact hlisted.2
        · exact hstraight.2

end arm
