import Flipper.Binary.AddressSpace
import Mathlib.Computability.StateTransition

/-! The part of the Thumb instruction set that leaf code with a loop over words needs, in its
encoding: instructions are fetched from the memory that they write to. Of the flags only Z is
kept, since no instruction here reads another. -/
namespace Flipper.Assembly.Thumb
open Binary StateTransition

abbrev Word := BitVec 32

inductive Instr where
  /-- `ldr t, [pc, #offset]` -/
  | ldrLiteral (t offset : Nat)
  | b (offset : Word)
  | bne (offset : Word)
  | ldmia (n : Nat) (list : List Nat)
  | stmia (n : Nat) (list : List Nat)
  | sub (d : Nat) (value : Word)
  | cmp (n : Nat) (value : Word)
  | orr (d m : Nat)
  /-- `str t, [n, #offset]` -/
  | str (t n : Nat) (offset : Word)
  | bx (m : Nat)
  deriving DecidableEq

/-- The number in some bits of an instruction. -/
def field (code : BitVec 16) (low width : Nat) : Nat := (code.extractLsb' low width).toNat

def registers (code : BitVec 16) : List Nat := (List.range 8).filter code.getLsbD

def decode (code : BitVec 16) : Option Instr :=
  if field code 11 5 = 0b01001 then some (.ldrLiteral (field code 8 3) (4 * field code 0 8))
  else if field code 11 5 = 0b11100 then some (.b ((code.extractLsb' 0 11 ++ 0#1).signExtend 32))
  else if field code 8 8 = 0b11010001 then some (.bne ((code.extractLsb' 0 8 ++ 0#1).signExtend 32))
  else if field code 11 5 = 0b11001 then some (.ldmia (field code 8 3) (registers code))
  else if field code 11 5 = 0b11000 then some (.stmia (field code 8 3) (registers code))
  else if field code 11 5 = 0b00111 then some
    (.sub (field code 8 3) (BitVec.ofNat 32 (field code 0 8)))
  else if field code 11 5 = 0b00101 then some
    (.cmp (field code 8 3) (BitVec.ofNat 32 (field code 0 8)))
  else if field code 6 10 = 0b0100001100 then some (.orr (field code 0 3) (field code 3 3))
  else if field code 11 5 = 0b01100 then
    some (.str (field code 0 3) (field code 3 3) (BitVec.ofNat 32 (4 * field code 6 5)))
  else if field code 7 9 = 0b010001110 ∧ field code 0 3 = 0 then some (.bx (field code 3 4))
  else none

structure Cpu where
  reg : Nat → Word
  pc : Word
  z : Bool
  memory : AddressSpace 32

abbrev lr := 14

namespace Cpu

def set (cpu : Cpu) (target : Nat) (value : Word) : Cpu :=
  { cpu with reg := Function.update cpu.reg target value }

def result (cpu : Cpu) (target : Nat) (value : Word) : Cpu :=
  { cpu.set target value with z := value == 0 }

def next (cpu : Cpu) : Cpu := { cpu with pc := cpu.pc + 2 }

/-- A branch reads the program counter two instructions ahead. -/
def branch (cpu : Cpu) (offset : Word) : Cpu := { cpu with pc := cpu.pc + 4 + offset }

/-- Consecutive words into the registers of a list. -/
def loads (cpu : Cpu) (address : Word) : List Nat → Cpu
  | [] => cpu
  | t :: rest => (cpu.set t (cpu.memory.word address)).loads (address + 4) rest

def stores (cpu : Cpu) (address : Word) : List Nat → Cpu
  | [] => cpu
  | t :: rest =>
    { cpu with memory := cpu.memory.storeWord address (cpu.reg t) : Cpu }.stores (address + 4) rest

section
variable (cpu : Cpu) (target r : Nat) (value : Word)

@[simp] theorem set_reg : (cpu.set target value).reg r = if r = target then value else cpu.reg r :=
  Function.update_apply ..

@[simp] theorem set_pc : (cpu.set target value).pc = cpu.pc := rfl

@[simp] theorem set_memory : (cpu.set target value).memory = cpu.memory := rfl

@[simp] theorem result_reg : (cpu.result target value).reg r = if r =
    target then value else cpu.reg r :=
  set_reg ..

@[simp] theorem result_pc : (cpu.result target value).pc = cpu.pc := rfl

@[simp] theorem next_reg : cpu.next.reg = cpu.reg := rfl

@[simp] theorem next_pc : cpu.next.pc = cpu.pc + 2 := rfl

@[simp] theorem next_memory : cpu.next.memory = cpu.memory := rfl

@[simp] theorem branch_reg : (cpu.branch value).reg = cpu.reg := rfl

@[simp] theorem branch_pc : (cpu.branch value).pc = cpu.pc + 4 + value := rfl

@[simp] theorem branch_memory : (cpu.branch value).memory = cpu.memory := rfl

end
end Cpu

/-- A load or store of several words and a change to the other instruction set are faults
where the architecture has them so. -/
def exec : Instr → Cpu → Option Cpu
  | .ldrLiteral t offset, cpu =>
    let base := (cpu.pc + 4) &&& ~~~3
    some (cpu.set t (cpu.memory.word (base + BitVec.ofNat 32 offset))).next
  | .b offset, cpu => some (cpu.branch offset)
  | .bne offset, cpu => some (if cpu.z then cpu.next else cpu.branch offset)
  | .ldmia n list, cpu =>
    let address := cpu.reg n
    if address.toNat % 4 = 0 then
      let back := if n ∈ list then cpu else cpu.set n (address + BitVec.ofNat 32 (4 * list.length))
      some (back.loads address list).next
    else none
  | .stmia n list, cpu =>
    let address := cpu.reg n
    if address.toNat % 4 = 0 then
      some ((cpu.stores address list).set n (address + BitVec.ofNat 32 (4 * list.length))).next
    else none
  | .sub d value, cpu => some (cpu.result d (cpu.reg d - value)).next
  | .cmp n value, cpu => some { cpu with z := cpu.reg n == value : Cpu }.next
  | .orr d m, cpu => some (cpu.result d (cpu.reg d ||| cpu.reg m)).next
  | .str t n offset, cpu =>
    some { cpu with memory := cpu.memory.storeWord (cpu.reg n + offset) (cpu.reg t) : Cpu }.next
  | .bx m, cpu => if (cpu.reg m).getLsbD 0 then some { cpu with pc := cpu.reg m &&& ~~~1 } else none

section Single
variable {cpu : Cpu} (aligned : (cpu.reg n).toNat % 4 = 0) (t : Nat)
include aligned

theorem exec_ldmia_single (other : n ≠ t) : exec (.ldmia n [t]) cpu =
    some ((cpu.set n (cpu.reg n + 4)).set t (cpu.memory.word (cpu.reg n))).next := by
  have unlisted : n ∉ [t] := by simpa using other
  simp only [exec, if_pos aligned, if_neg unlisted]
  rfl

theorem exec_stmia_single : exec (.stmia n [t]) cpu =
    some (Cpu.next (Cpu.set { cpu with memory := cpu.memory.storeWord (cpu.reg n) (cpu.reg t) } n
      (cpu.reg n + 4))) := by
  simp only [exec, if_pos aligned]
  rfl

end Single

def fetch (memory : AddressSpace 32) (address : Word) : Option Instr :=
  decode (BitVec.ofNat 16 (leNat (memory.view address) 2))

/-- One instruction, unless control is back where the code was called from. -/
def step (back : Word) (cpu : Cpu) : Option Cpu :=
  if cpu.pc = back then none else (fetch cpu.memory cpu.pc).bind (exec · cpu)

/-- The state in which control is back, if the fuel is enough for all instructions. -/
def call (back : Word) : Nat → Cpu → Option Cpu
  | 0, _ => none
  | fuel + 1, cpu => if cpu.pc = back then some cpu else (step back cpu).bind (call back fuel)

section
variable {back : Word} {cpu after : Cpu}

theorem step_fetched (away : cpu.pc ≠ back) (fetched : fetch cpu.memory cpu.pc = some instruction)
    (ran : exec instruction cpu = some after) : after ∈ step back cpu := by
  rw [step, if_neg away, fetched]
  exact ran

/-- What is reached is what a call with enough fuel ends in. -/
theorem call_reaches (path : Reaches (step back) cpu after) (returned : after.pc = back) :
    ∃ enough, ∀ fuel ≥ enough, call back fuel cpu = some after := by
  induction path using Relation.ReflTransGen.head_induction_on with
  | refl =>
    refine ⟨1, fun fuel enough => ?_⟩
    obtain ⟨fuel, rfl⟩ := Nat.exists_eq_add_of_le' enough
    rw [call, if_pos returned]
  | head stepped _ ih =>
    obtain ⟨enough, ends⟩ := ih
    refine ⟨enough + 1, fun fuel more => ?_⟩
    obtain ⟨fuel, rfl⟩ := Nat.exists_eq_add_of_le' (Nat.le_of_add_left_le more)
    have away : ¬_ = back := fun same => by rw [step, if_pos same] at stepped; cases stepped
    rw [call, if_neg away, Option.mem_def.mp stepped]
    exact ends fuel (by omega)

end
end Flipper.Assembly.Thumb
