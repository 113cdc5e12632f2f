import Flipper.Assembly.Text
import Flipper.Binary.AddressSpace

/-! The part of x86-64 that straight integer code with calls through memory needs. Operands
stand in the order of the AT&T syntax, source first. Of the flags only ZF is kept, and only
what the instructions here do to it. -/
namespace Flipper.Assembly.X64
open Binary

inductive Reg where
  | rax | rcx | rdx | rsi | rdi | rbp | rsp | r8 | r9 | r10 | r11 | r12 | r13 | r14
  deriving DecidableEq

inductive Width where
  | b | w | l | q
  deriving DecidableEq

def Width.bytes : Width → Nat
  | .b => 1
  | .w => 2
  | .l => 4
  | .q => 8

inductive Instr (ℓ : Type) where
  | push (source : Reg)
  | pop (target : Reg)
  | mov (source target : Reg)
  | movImm (value : BitVec 64) (target : Reg)
  /-- `movq source, offset(base)` -/
  | store (source : Reg) (offset : BitVec 64) (base : Reg)
  /-- `mov (base), target`, into the low bytes of the target -/
  | load (width : Width) (base target : Reg)
  | add (value : BitVec 64) (target : Reg)
  | sub (value : BitVec 64) (target : Reg)
  | and (value : BitVec 64) (target : Reg)
  | shr (count : Nat) (target : Reg)
  | cmp (value : BitVec 64) (target : Reg)
  | je (target : ℓ)
  | jmp (target : ℓ)
  /-- `callq *offset(base)` -/
  | call (offset : BitVec 64) (base : Reg)
  | ret

structure Call where
  target : BitVec 64
  reg : Reg → BitVec 64
  memory : AddressSpace 64

structure Cpu where
  reg : Reg → BitVec 64
  memory : AddressSpace 64
  zf : Bool
  /-- Where `ret` went. -/
  rip : BitVec 64
  calls : List Call

/-- What the code at an address makes of the registers, the memory and ZF before it returns. -/
abbrev Callee :=
  BitVec 64 → (Reg → BitVec 64) → AddressSpace 64 → (Reg → BitVec 64) × AddressSpace 64 × Bool

/-- A register after a load: the narrow ones keep the bytes above, the one of four bytes
clears them. -/
def Width.write (old : BitVec 64) (number : Nat) : Width → BitVec 64
  | .b => BitVec.ofNat 64 (number + 256 * (old.toNat / 256))
  | .w => BitVec.ofNat 64 (number + 256 ^ 2 * (old.toNat / 256 ^ 2))
  | .l | .q => BitVec.ofNat 64 number

namespace Cpu

def set (cpu : Cpu) (target : Reg) (value : BitVec 64) : Cpu :=
  { cpu with reg := Function.update cpu.reg target value }

/-- The result of an operation goes to the target and tells ZF. -/
def result (cpu : Cpu) (target : Reg) (value : BitVec 64) : Cpu :=
  { cpu.set target value with zf := value == 0 }

def push (cpu : Cpu) (value : BitVec 64) : Cpu :=
  let top := cpu.reg .rsp - 8
  { cpu.set .rsp top with memory := cpu.memory.storeQuad top value }

def pop (cpu : Cpu) (target : Reg) : Cpu :=
  (cpu.set .rsp (cpu.reg .rsp + 8)).set target (cpu.memory.quad (cpu.reg .rsp))

def load (cpu : Cpu) (width : Width) (base target : Reg) : Cpu :=
  cpu.set target (width.write (cpu.reg target) (leNat (cpu.memory.view (cpu.reg base)) width.bytes))

section
variable (cpu : Cpu) (target : Reg) (value : BitVec 64) (width : Width) (base r : Reg)

@[simp] theorem set_reg : (cpu.set target value).reg r = if r = target then value else cpu.reg r :=
  Function.update_apply ..

@[simp] theorem set_memory : (cpu.set target value).memory = cpu.memory := rfl

@[simp] theorem result_reg : (cpu.result target value).reg r = if r =
    target then value else cpu.reg r :=
  set_reg ..

@[simp] theorem load_reg : (cpu.load width base target).reg r =
    if r = target then
      width.write (cpu.reg target) (leNat (cpu.memory.view (cpu.reg base)) width.bytes)
    else cpu.reg r :=
  set_reg ..

theorem set_result : (cpu.set target value).result target value' = cpu.result target value' := by
  simp only [result, set, Function.update_idem]

end
end Cpu

def exec (callee : Callee) : Instr ℓ → Cpu → Flow ℓ Cpu
  | .push source, cpu => .next (cpu.push (cpu.reg source))
  | .pop target, cpu => .next (cpu.pop target)
  | .mov source target, cpu => .next (cpu.set target (cpu.reg source))
  | .movImm value target, cpu => .next (cpu.set target value)
  | .store source offset base, cpu =>
    .next { cpu with memory := cpu.memory.storeQuad (cpu.reg base + offset) (cpu.reg source) }
  | .load width base target, cpu => .next (cpu.load width base target)
  | .add value target, cpu => .next (cpu.result target (cpu.reg target + value))
  | .sub value target, cpu => .next (cpu.result target (cpu.reg target - value))
  | .and value target, cpu => .next (cpu.result target (cpu.reg target &&& value))
  | .shr count target, cpu => .next (cpu.result target (cpu.reg target >>> count))
  | .cmp value target, cpu => .next { cpu with zf := cpu.reg target == value }
  | .je target, cpu => if cpu.zf then .jump target cpu else .next cpu
  | .jmp target, cpu => .jump target cpu
  | .call offset base, cpu =>
    let target := cpu.memory.quad (cpu.reg base + offset)
    let (reg, memory, zf) := callee target cpu.reg cpu.memory
    .next { cpu with reg, memory, zf, calls := cpu.calls ++ [⟨target, cpu.reg, cpu.memory⟩] }
  | .ret, cpu =>
    let top := cpu.reg .rsp
    .leave { cpu.set .rsp (top + 8) with rip := cpu.memory.quad top }

def compareJump (target : Reg) (value : BitVec 64) (label : ℓ) : List (Instr ℓ) :=
  [.cmp value target, .je label]

section Compare
variable (callee : Callee) (target : Reg) {table : List (BitVec 64 × ℓ)} (rest : List (Instr ℓ))

theorem comparison : Comparison (exec callee) (compareJump (ℓ := ℓ) target) (·.reg target)
    (fun cpu => { cpu with zf := true }) fun _ cpu => { cpu with zf := false } where
  runs value label rest cpu := by
    by_cases same : cpu.reg target = value
    · simp [compareJump, runBlock, exec, same]
    · simp [compareJump, runBlock, exec, same, beq_eq_false_iff_ne.mpr same]
  key_miss _ _ := rfl
  hit_miss _ _ := rfl

theorem select_missed (cpu : Cpu) (unlisted : table.lookup (cpu.reg target) = none) :
    ∃ zf, runBlock (exec callee) (select (compareJump target) table ++ rest) cpu =
      runBlock (exec callee) rest { cpu with zf } := by
  obtain ⟨_, ⟨zf, rfl⟩, ran⟩ := (comparison callee target).missed rest
    (fun after => ∃ zf, after = { cpu with zf }) (fun _ _ ⟨_, same⟩ =>
      by subst same; exact ⟨_, rfl⟩) cpu ⟨cpu.zf, rfl⟩ unlisted
  exact ⟨zf, ran⟩

end Compare

/-- The loaded number is in the low bytes, whatever is above it. -/
theorem write_mod (width : Width) (old : BitVec 64) {number : Nat}
    (fits : number < 256 ^ width.bytes) :
    (width.write old number).toNat % 256 ^ width.bytes = number := by
  have power : 256 ^ width.bytes ∣ 2 ^ 64 := by cases width <;> decide
  cases width with
  | b =>
    rw [Width.write, BitVec.toNat_ofNat, Nat.mod_mod_of_dvd _ power]
    exact (Nat.add_mul_mod_self_left ..).trans (Nat.mod_eq_of_lt fits)
  | w =>
    rw [Width.write, BitVec.toNat_ofNat, Nat.mod_mod_of_dvd _ power]
    exact (Nat.add_mul_mod_self_left ..).trans (Nat.mod_eq_of_lt fits)
  | l | q =>
    rw [Width.write, BitVec.toNat_ofNat, Nat.mod_mod_of_dvd _ power, Nat.mod_eq_of_lt fits]

end Flipper.Assembly.X64
