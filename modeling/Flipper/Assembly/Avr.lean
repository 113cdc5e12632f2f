import Flipper.Assembly.Text
import Flipper.Binary.AddressSpace
import Mathlib.Tactic.IntervalCases

/-! The part of the AVR instruction set that byte-wise code with indirect stores needs. The
register file is the bottom of the data space, so a store through a pointer can reach a
register. Of the status register Z and C are kept. -/
namespace Flipper.Assembly.Avr
open Binary

inductive Instr (ℓ : Type) where
  | push (source : Nat)
  | pop (target : Nat)
  | mov (target source : Nat)
  /-- A pair of registers from a pair. -/
  | movw (target source : Nat)
  | clr (target : Nat)
  | ser (target : Nat)
  | com (target : Nat)
  | ldi (target : Nat) (value : Byte)
  | tst (target : Nat)
  | andi (target : Nat) (value : Byte)
  | sbr (target : Nat) (value : Byte)
  | cpi (target : Nat) (value : Byte)
  | subi (target : Nat) (value : Byte)
  | dec (target : Nat)
  | adiw (target : Nat) (value : BitVec 16)
  | asr (target : Nat)
  | ror (target : Nat)
  | lsl (target : Nat)
  /-- `ld target, Z+` -/
  | ldZ (target : Nat)
  /-- `st -X, source` -/
  | stDecX (source : Nat)
  /-- `st X+, source` -/
  | stXInc (source : Nat)
  /-- `st X, source` -/
  | stX (source : Nat)
  | out (port : Nat) (source : Nat)
  | nop
  /-- `rjmp .+0`, two cycles that change nothing -/
  | delay
  /-- `brcs .+2`, over the next instruction -/
  | brcsOver
  | sbrs (target bit : Nat)
  | breq (target : ℓ)
  | brne (target : ℓ)
  | rjmp (target : ℓ)
  | icall
  | ret

structure Call where
  target : BitVec 16
  reg : Nat → Byte
  ram : AddressSpace 16

structure Cpu where
  reg : Nat → Byte
  ram : AddressSpace 16
  sp : BitVec 16
  z : Bool
  c : Bool
  cycle : Nat
  /-- What was written to the ports, and when. -/
  ports : List (Nat × Nat × Byte)
  /-- Where `ret` went. -/
  pc : BitVec 16
  calls : List Call

/-- What the code at an address makes of the registers and the memory before it returns. -/
abbrev Callee := BitVec 16 → (Nat → Byte) → AddressSpace 16 →
    (Nat → Byte) × AddressSpace 16 × Bool × Bool

namespace Cpu
variable (cpu : Cpu)

def set (target : Nat) (value : Byte) : Cpu :=
  { cpu with reg := Function.update cpu.reg target value }

def result (target : Nat) (value : Byte) : Cpu := { cpu.set target value with z := value == 0 }

/-- Two registers as one word, the even one below. -/
def pair (low : Nat) : BitVec 16 := cpu.reg (low + 1) ++ cpu.reg low

def setPair (low : Nat) (value : BitVec 16) : Cpu :=
  (cpu.set low (value.setWidth 8)).set (low + 1) (value.extractLsb' 8 8)

def read (address : BitVec 16) : Byte :=
  if address.toNat < 32 then cpu.reg address.toNat else cpu.ram address

def write (address : BitVec 16) (value : Byte) : Cpu :=
  if address.toNat < 32 then cpu.set address.toNat value
  else { cpu with ram := Function.update cpu.ram address value }

def push (value : Byte) : Cpu := { cpu.write cpu.sp value with sp := cpu.sp - 1 }

def pop (target : Nat) : Cpu := { cpu.set target (cpu.read (cpu.sp + 1)) with sp := cpu.sp + 1 }

section Fields
variable (target low r : Nat) (value : Byte) (word : BitVec 16)

@[simp] theorem set_reg : (cpu.set target value).reg r = if r = target then value else cpu.reg r :=
  Function.update_apply ..

@[simp] theorem set_ram : (cpu.set target value).ram = cpu.ram := rfl

@[simp] theorem result_reg : (cpu.result target value).reg r = if r =
    target then value else cpu.reg r :=
  set_reg ..

@[simp] theorem setPair_reg : (cpu.setPair low word).reg r =
    if r = low + 1 then word.extractLsb' 8 8 else if r =
      low then word.setWidth 8 else cpu.reg r := by
  simp [setPair]

@[simp] theorem pair_setPair : (cpu.setPair low word).pair low = word := by
  have halves : word.extractLsb' 8 8 ++ word.setWidth 8 = word := by
    apply BitVec.eq_of_getLsbD_eq
    intro i inside
    rw [BitVec.getLsbD_append]
    by_cases lower : i < 8
    · simp [lower]
    · simp [lower, Nat.add_sub_cancel' (Nat.le_of_not_lt lower), show i - 8 < 8 by omega]
  simpa [pair] using halves

theorem setWidth_pair : (cpu.pair low).setWidth 8 = cpu.reg low := by
  apply BitVec.eq_of_getLsbD_eq
  intro i inside
  rw [BitVec.getLsbD_setWidth, decide_eq_true inside, Bool.true_and, pair, BitVec.getLsbD_append,
    if_pos inside]

theorem pair_congr (cpu' : Cpu) (same : cpu.reg low = cpu'.reg low)
    (same' : cpu.reg (low + 1) = cpu'.reg (low + 1)) : cpu.pair low = cpu'.pair low := by
  rw [pair, pair, same, same']

end Fields

theorem read_ram {address : BitVec 16} (above : 32 ≤ address.toNat) :
    cpu.read address = cpu.ram address :=
  if_neg (Nat.not_lt.mpr above)

theorem write_ram {address : BitVec 16} (above : 32 ≤ address.toNat) (value : Byte) :
    cpu.write address value = { cpu with ram := Function.update cpu.ram address value } :=
  if_neg (Nat.not_lt.mpr above)

/-- A store through a pointer into the register file. -/
theorem write_register {i : Nat} (register : i < 32) (value : Byte) :
    cpu.write (BitVec.ofNat 16 i) value = cpu.set i value := by
  have index : (BitVec.ofNat 16 i).toNat = i := by
    rw [BitVec.toNat_ofNat, Nat.mod_eq_of_lt (by omega)]
  rw [write, index, if_pos register]

end Cpu

def exec (callee : Callee) : Instr ℓ → Cpu → Flow ℓ Cpu
  | .push source, cpu => .next (cpu.push (cpu.reg source))
  | .pop target, cpu => .next (cpu.pop target)
  | .mov target source, cpu => .next (cpu.set target (cpu.reg source))
  | .movw target source, cpu => .next (cpu.setPair target (cpu.pair source))
  | .clr target, cpu => .next (cpu.result target 0)
  | .ser target, cpu => .next (cpu.set target 0xFF)
  | .com target, cpu => .next { cpu.result target (~~~cpu.reg target) with c := true }
  | .ldi target value, cpu => .next (cpu.set target value)
  | .tst target, cpu => .next { cpu with z := cpu.reg target == 0 }
  | .andi target value, cpu => .next (cpu.result target (cpu.reg target &&& value))
  | .sbr target value, cpu => .next (cpu.result target (cpu.reg target ||| value))
  | .cpi target value, cpu =>
    .next { cpu with z := cpu.reg target == value, c := (cpu.reg target).ult value }
  | .subi target value, cpu =>
    .next { cpu.result target (cpu.reg target - value) with c := (cpu.reg target).ult value }
  | .dec target, cpu => .next (cpu.result target (cpu.reg target - 1))
  | .adiw target value, cpu =>
    let sum := cpu.pair target + value
    .next { cpu.setPair target sum with z := sum == 0, c := sum.ult value }
  | .asr target, cpu =>
    .next { cpu.result target ((cpu.reg target).sshiftRight 1) with
            c := (cpu.reg target).getLsbD 0 }
  | .ror target, cpu =>
    .next { cpu.result target (cpu.reg target >>> 1 ||| (BitVec.ofBool cpu.c).setWidth 8 <<< 7) with
            c := (cpu.reg target).getLsbD 0 }
  | .lsl target, cpu =>
    .next { cpu.result target (cpu.reg target <<< 1) with c := (cpu.reg target).getLsbD 7 }
  | .ldZ target, cpu =>
    .next ((cpu.setPair 30 (cpu.pair 30 + 1)).set target (cpu.read (cpu.pair 30)))
  | .stDecX source, cpu =>
    .next ((cpu.setPair 26 (cpu.pair 26 - 1)).write (cpu.pair 26 - 1) (cpu.reg source))
  | .stXInc source, cpu =>
    .next ((cpu.write (cpu.pair 26) (cpu.reg source)).setPair 26 (cpu.pair 26 + 1))
  | .stX source, cpu => .next (cpu.write (cpu.pair 26) (cpu.reg source))
  | .out port source, cpu =>
    .next { cpu with ports := cpu.ports ++ [(cpu.cycle, port, cpu.reg source)] }
  | .nop, cpu | .delay, cpu => .next cpu
  | .brcsOver, cpu => if cpu.c then .skip cpu else .next cpu
  | .sbrs target bit, cpu => if (cpu.reg target).getLsbD bit then .skip cpu else .next cpu
  | .breq target, cpu => if cpu.z then .jump target cpu else .next cpu
  | .brne target, cpu => if cpu.z then .next cpu else .jump target cpu
  | .rjmp target, cpu => .jump target cpu
  | .icall, cpu =>
    let (reg, ram, z, c) := callee (cpu.pair 30) cpu.reg cpu.ram
    .next { cpu with reg, ram, z, c, calls := cpu.calls ++ [⟨cpu.pair 30, cpu.reg, cpu.ram⟩] }
  | .ret, cpu =>
    -- The high byte of the address is the one on top.
    .leave { cpu with sp := cpu.sp + 2, pc := cpu.read (cpu.sp + 1) ++ cpu.read (cpu.sp + 2) }

/-- How many cycles an instruction takes; a branch or a skip takes one more when it is taken. -/
def cycles : Instr ℓ → Cpu → Nat
  | .push _, _ | .pop _, _ | .adiw _ _, _ | .ldZ _, _ | .stDecX _, _ | .stXInc _, _ | .stX _, _ => 2
  | .delay, _ | .rjmp _, _ => 2
  | .icall, _ => 3
  | .ret, _ => 4
  | .brcsOver, cpu => if cpu.c then 2 else 1
  | .sbrs target bit, cpu => if (cpu.reg target).getLsbD bit then 2 else 1
  | .breq _, cpu => if cpu.z then 2 else 1
  | .brne _, cpu => if cpu.z then 1 else 2
  | _, _ => 1

/-- An instruction with the time it takes, counted before what it does. -/
def timed (callee : Callee) (instruction : Instr ℓ) (cpu : Cpu) : Flow ℓ Cpu :=
  exec callee instruction { cpu with cycle := cpu.cycle + cycles instruction cpu }

/-! What single instructions do to X, to Z and to the rest. -/

/-- All but the registers of the list is as it was. -/
structure Keeps (changed : List Nat) (cpu after : Cpu) : Prop where
  reg : ∀ r ∉ changed, after.reg r = cpu.reg r
  ram : after.ram = cpu.ram
  sp : after.sp = cpu.sp
  calls : after.calls = cpu.calls

theorem Keeps.trans (first : Keeps changed cpu middle) (second : Keeps changed' middle after) :
    Keeps (changed ++ changed') cpu after where
  reg r outside := by
    rw [List.mem_append, not_or] at outside
    rw [second.reg r outside.2, first.reg r outside.1]
  ram := second.ram.trans first.ram
  sp := second.sp.trans first.sp
  calls := second.calls.trans first.calls

/-- X is the register of that number, Z an address. -/
structure Pointed (x : Nat) (z : BitVec 16) (cpu : Cpu) : Prop where
  low : cpu.reg 26 = BitVec.ofNat 8 x
  high : cpu.reg 27 = 0
  source : cpu.pair 30 = z

theorem Pointed.pair_x (pointed : Pointed x z cpu) (register : x < 32) :
    cpu.pair 26 = BitVec.ofNat 16 x := by
  apply BitVec.eq_of_toNat_eq
  rw [Cpu.pair, pointed.low, pointed.high, BitVec.toNat_append]
  simp only [BitVec.toNat_ofNat]
  rw [Nat.mod_eq_of_lt (by omega), Nat.mod_eq_of_lt (by omega)]
  exact Nat.zero_or x

section Steps
variable {x : Nat} {z : BitVec 16} {cpu : Cpu} (callee : Callee)

theorem ldZ_next (pointed : Pointed x z cpu) (above : 32 ≤ z.toNat) :
    ∃ after, exec (ℓ := ℓ) callee (.ldZ 0) cpu = .next after ∧ Pointed x (z + 1) after ∧
      after.reg 0 = cpu.ram z ∧ Keeps [0, 30, 31] cpu after := by
  refine ⟨_, rfl, ⟨?_, ?_, ?_⟩, ?_, ⟨?_, rfl, rfl, rfl⟩⟩
  · simpa using pointed.low
  · simpa using pointed.high
  · rw [pointed.source, Cpu.pair_congr _ 30 (cpu.setPair 30 (z + 1)) (by simp) (by simp),
      Cpu.pair_setPair]
  · simp [pointed.source, cpu.read_ram above]
  · intro r outside
    simp only [List.mem_cons, List.not_mem_nil, or_false, not_or] at outside
    simp [outside]

theorem pointed_setPair (pointed : Pointed x z cpu) (register : y < 32) :
    Pointed y z (cpu.setPair 26 (BitVec.ofNat 16 y)) where
  low := by
    simp only [Cpu.setPair_reg, Nat.reduceAdd, Nat.reduceEqDiff, if_true, if_false]
    apply BitVec.eq_of_toNat_eq
    simp
  high := by
    simp only [Cpu.setPair_reg, Nat.reduceAdd, if_true]
    apply BitVec.eq_of_toNat_eq
    simp [Nat.shiftRight_eq_div_pow]
    omega
  source := (Cpu.pair_congr _ 30 cpu (by simp) (by simp)).trans pointed.source

theorem pointed_set (pointed : Pointed x z cpu) (register : y < 26) (value : Byte) :
    Pointed x z (cpu.set y value) where
  low := by simpa [show 26 ≠ y by omega] using pointed.low
  high := by simpa [show 27 ≠ y by omega] using pointed.high
  source := (Cpu.pair_congr _ 30 cpu (by simp; omega) (by simp; omega)).trans pointed.source

theorem stXInc_next (pointed : Pointed x z cpu) (register : x < 26) :
    ∃ after, exec (ℓ := ℓ) callee (.stXInc 0) cpu = .next after ∧ Pointed (x + 1) z after ∧
      after.reg x = cpu.reg 0 ∧ Keeps [x, 26, 27] cpu after := by
  have ran : exec (ℓ := ℓ) callee (.stXInc 0) cpu =
      .next ((cpu.set x (cpu.reg 0)).setPair 26 (BitVec.ofNat 16 (x + 1))) := by
    simp only [exec, pointed.pair_x (by omega), cpu.write_register (by omega : x < 32),
      BitVec.ofNat_add]
    rfl
  refine ⟨_, ran, pointed_setPair (pointed_set pointed register _) (by omega), ?_,
    ⟨?_, rfl, rfl, rfl⟩⟩
  · simp [show x ≠ 27 by omega, show x ≠ 26 by omega]
  · intro r outside
    simp only [List.mem_cons, List.not_mem_nil, or_false, not_or] at outside
    simp [outside]

theorem stX_next (pointed : Pointed x z cpu) (register : x < 26) :
    ∃ after, exec (ℓ := ℓ) callee (.stX 0) cpu = .next after ∧ Pointed x z after ∧
      after.reg x = cpu.reg 0 ∧ Keeps [x] cpu after := by
  have ran : exec (ℓ := ℓ) callee (.stX 0) cpu = .next (cpu.set x (cpu.reg 0)) := by
    simp only [exec, pointed.pair_x (by omega), cpu.write_register (by omega : x < 32)]
  refine ⟨_, ran, pointed_set pointed register _, by simp, ⟨?_, rfl, rfl, rfl⟩⟩
  intro r outside
  simp [List.ne_of_not_mem_cons outside]

theorem stDecX_next (pointed : Pointed (x + 1) z cpu) (register : x < 26) :
    ∃ after, exec (ℓ := ℓ) callee (.stDecX 0) cpu = .next after ∧ Pointed x z after ∧
      after.reg x = cpu.reg 0 ∧ Keeps [x, 26, 27] cpu after := by
  have down : BitVec.ofNat 16 (x + 1) - 1 = BitVec.ofNat 16 x := by
    rw [BitVec.ofNat_add]
    exact BitVec.add_sub_cancel _ _
  have ran : exec (ℓ := ℓ) callee (.stDecX 0) cpu =
      .next ((cpu.setPair 26 (BitVec.ofNat 16 x)).set x (cpu.reg 0)) := by
    simp only [exec, pointed.pair_x (by omega), down, Cpu.write_register _ (by omega : x < 32)]
  refine ⟨_, ran, pointed_set (pointed_setPair pointed (by omega)) register _, by simp,
    ⟨?_, rfl, rfl, rfl⟩⟩
  intro r outside
  simp only [List.mem_cons, List.not_mem_nil, or_false, not_or] at outside
  simp [outside]

theorem pointed_result (pointed : Pointed (x + k) z cpu) :
    Pointed x z (cpu.result 26 (cpu.reg 26 - BitVec.ofNat 8 k)) where
  low := by
    rw [Cpu.result_reg, if_pos rfl, pointed.low, BitVec.ofNat_add]
    exact BitVec.add_sub_cancel _ _
  high := by simpa using pointed.high
  source := (Cpu.pair_congr _ 30 cpu (by simp) (by simp)).trans pointed.source

/-- `subi XL, k` and, with one, `dec XL`. -/
theorem subi_next (pointed : Pointed (x + k) z cpu) :
    ∃ after, exec (ℓ := ℓ) callee (.subi 26 (BitVec.ofNat 8 k)) cpu = .next after ∧
      Pointed x z after ∧
      Keeps [26] cpu after := by
  refine ⟨_, rfl, ?_, ⟨fun r outside => ?_, rfl, rfl, rfl⟩⟩
  · have moved := pointed_result pointed
    exact ⟨moved.low, moved.high, moved.source⟩
  · simp [List.ne_of_not_mem_cons outside]

theorem dec_next (pointed : Pointed (x + 1) z cpu) :
    ∃ after, exec (ℓ := ℓ) callee (.dec 26) cpu = .next after ∧ Pointed x z after ∧
      Keeps [26] cpu after := by
  refine ⟨_, rfl, pointed_result pointed, ⟨fun r outside => ?_, rfl, rfl, rfl⟩⟩
  simp [List.ne_of_not_mem_cons outside]

/-- Bytes from Z to the registers from X on; the last store leaves X where it is. -/
def copies : Nat → List (Instr ℓ)
  | 0 => [.ldZ 0, .stX 0]
  | n + 1 => .ldZ 0 :: .stXInc 0 :: copies n

structure Copied (x n : Nat) (z : BitVec 16) (cpu after : Cpu) : Prop where
  pointed : Pointed (x + n) (z + BitVec.ofNat 16 (n + 1)) after
  bytes : ∀ k ≤ n, after.reg (x + k) = cpu.ram (z + BitVec.ofNat 16 k)
  reg : ∀ r, r < x ∨ x + n < r → r ∉ [0, 26, 27, 30, 31] → after.reg r = cpu.reg r
  ram : after.ram = cpu.ram
  sp : after.sp = cpu.sp
  calls : after.calls = cpu.calls

theorem copies_next (n : Nat) (pointed : Pointed x z cpu) (positive : 0 < x)
    (registers : x + n < 26)
    (above : ∀ k ≤ n, 32 ≤ (z + BitVec.ofNat 16 k).toNat) (rest : List (Instr ℓ)) :
    ∃ after, runBlock (exec callee) (copies n ++ rest) cpu = runBlock (exec callee) rest after ∧
      Copied x n z cpu after := by
  induction n generalizing x z cpu with
  | zero =>
    obtain ⟨loaded, ld, aimed, byte, keptLd⟩ :=
      ldZ_next callee pointed (by simpa using above 0 (by omega))
    obtain ⟨after, st, aimed, moved, keptSt⟩ := stX_next callee aimed registers
    have keeps := keptLd.trans keptSt
    refine ⟨after, (runBlock_next _ ld).trans (runBlock_next _ st),
      aimed, ?_, ?_, keeps.ram, keeps.sp, keeps.calls⟩
    · intro k less
      obtain rfl := Nat.le_zero.mp less
      exact moved.trans (byte.trans (congrArg cpu.ram (BitVec.add_zero z).symm))
    · intro r outside other
      refine keeps.reg r ?_
      simp only [List.mem_cons, List.not_mem_nil, or_false, not_or,
        List.mem_append] at outside other ⊢
      omega
  | succ n ih =>
    obtain ⟨loaded, ld, aimed, byte, keptLd⟩ :=
      ldZ_next callee pointed (by simpa using above 0 (by omega))
    obtain ⟨first, st, aimed, moved, keptSt⟩ := stXInc_next callee aimed (by omega)
    have keeps := keptLd.trans keptSt
    have shift : ∀ k, z + 1 + BitVec.ofNat 16 k = z + BitVec.ofNat 16 (k + 1) := by
      intro k
      rw [BitVec.add_assoc, Nat.add_comm, BitVec.ofNat_add]
      rfl
    have later : ∀ k ≤ n, 32 ≤ (z + 1 + BitVec.ofNat 16 k).toNat := by
      intro k less
      rw [shift]
      exact above (k + 1) (by omega)
    obtain ⟨after, ran, copied⟩ := ih aimed (by omega) (by omega) later
    refine ⟨after, (runBlock_next _ ld).trans ((runBlock_next _ st).trans ran), ?_, ?_, ?_,
      copied.ram.trans keeps.ram, copied.sp.trans keeps.sp, copied.calls.trans keeps.calls⟩
    · have pointed := copied.pointed
      rwa [shift, Nat.add_right_comm x 1 n] at pointed
    · intro k less
      cases k with
      | zero =>
        rw [copied.reg _ (by omega) (by simp; omega), Nat.add_zero, moved, byte]
        exact congrArg cpu.ram (BitVec.add_zero z).symm
      | succ k =>
        rw [show x + (k + 1) = x + 1 + k by omega, copied.bytes k (by omega), keeps.ram, shift]
    · intro r outside other
      rw [copied.reg r (by omega) other]
      refine keeps.reg r ?_
      simp only [List.mem_cons, List.not_mem_nil, or_false, not_or,
        List.mem_append] at outside other ⊢
      omega

/-- An arithmetic shift of a pair, the high register first. -/
theorem shift_pair (high low : Byte) :
    high.sshiftRight 1 ++ (low >>> 1 ||| (BitVec.ofBool (high.getLsbD 0)).setWidth 8 <<< 7) =
      ((high ++ low).sshiftRight 1 : BitVec 16) := by
  apply BitVec.eq_of_getLsbD_eq
  intro i inside
  simp only [BitVec.getLsbD_append, BitVec.getLsbD_sshiftRight, BitVec.getLsbD_or,
    BitVec.getLsbD_ushiftRight, BitVec.getLsbD_shiftLeft, BitVec.getLsbD_setWidth,
    BitVec.getLsbD_ofBool, BitVec.msb_eq_getLsbD_last]
  interval_cases i <;> simp

theorem shift_next (low : Nat) (cpu : Cpu) (rest : List (Instr ℓ)) :
    ∃ after, runBlock (exec callee) (.asr (low + 1) :: .ror low :: rest) cpu =
      runBlock (exec callee) rest after ∧
      after.pair low = (cpu.pair low).sshiftRight 1 ∧ Keeps [low + 1, low] cpu after := by
  have high : exec (ℓ := ℓ) callee (.asr (low + 1)) cpu = .next _ := rfl
  refine ⟨_, (runBlock_next _ high).trans (runBlock_next _ rfl), ?_,
    ⟨fun r outside => ?_, rfl, rfl, rfl⟩⟩
  · rw [Cpu.pair, Cpu.pair, ← shift_pair]
    simp
  · simp only [List.mem_cons, List.not_mem_nil, or_false, not_or] at outside
    simp [outside]

/-- Registers pushed one after the other onto a stack in memory. -/
def Cpu.pushed (cpu : Cpu) : List Nat → Cpu
  | [] => cpu
  | source :: rest =>
    Cpu.pushed { cpu with ram := Function.update cpu.ram cpu.sp (cpu.reg source), sp := cpu.sp - 1 }
      rest

theorem pushes_next (cpu : Cpu) (sources : List Nat) (room : 32 + sources.length ≤ cpu.sp.toNat + 1)
    (rest : List (Instr ℓ)) :
    runBlock (exec callee) (sources.map .push ++ rest) cpu = runBlock (exec callee) rest
      (cpu.pushed sources) := by
  induction sources generalizing cpu with
  | nil => rfl
  | cons source sources ih =>
    rw [List.length_cons] at room
    have pushed : exec (ℓ := ℓ) callee (.push source) cpu =
        .next { cpu with
          ram := Function.update cpu.ram cpu.sp (cpu.reg source), sp := cpu.sp - 1 } := by
      rw [exec, Cpu.push, cpu.write_ram (by omega)]
    have down : (cpu.sp - 1).toNat = cpu.sp.toNat - 1 :=
      BitVec.toNat_sub_of_le (BitVec.le_def.mpr (by change 1 ≤ _; omega))
    rw [List.map_cons, List.cons_append, runBlock_next _ pushed]
    exact ih _ (by rw [down]; omega)

/-- Registers popped one after the other from a stack in memory. -/
def Cpu.popped (cpu : Cpu) : List Nat → Cpu
  | [] => cpu
  | target :: rest =>
    Cpu.popped { cpu.set target (cpu.ram (cpu.sp + 1)) with sp := cpu.sp + 1 } rest

theorem pops_next (cpu : Cpu) (targets : List Nat) (above : 31 ≤ cpu.sp.toNat)
    (room : cpu.sp.toNat + targets.length < 2 ^ 16) (rest : List (Instr ℓ)) :
    runBlock (exec callee) (targets.map .pop ++ rest) cpu = runBlock (exec callee) rest
      (cpu.popped targets) := by
  induction targets generalizing cpu with
  | nil => rfl
  | cons target targets ih =>
    rw [List.length_cons] at room
    have up : (cpu.sp + 1).toNat = cpu.sp.toNat + 1 := by
      rw [BitVec.toNat_add]
      exact Nat.mod_eq_of_lt (by change cpu.sp.toNat + 1 < _; omega)
    have popped : exec (ℓ := ℓ) callee (.pop target) cpu =
        .next { cpu.set target (cpu.ram (cpu.sp + 1)) with sp := cpu.sp + 1 } := by
      rw [exec, Cpu.pop, cpu.read_ram (by omega)]
    rw [List.map_cons, List.cons_append, runBlock_next _ popped]
    exact ih _ (by change 31 ≤ (cpu.sp + 1).toNat; omega)
      (by change (cpu.sp + 1).toNat + _ < _; omega)

end Steps

def compareJump (target : Nat) (value : Byte) (label : ℓ) : List (Instr ℓ) :=
  [.cpi target value, .breq label]

section Compare
variable (callee : Callee) (target : Nat) {table : List (Byte × ℓ)} (rest : List (Instr ℓ))

theorem comparison : Comparison (exec callee) (compareJump (ℓ := ℓ) target) (·.reg target)
    (fun cpu => { cpu with z := true, c := false })
    (fun value cpu => { cpu with z := false, c := (cpu.reg target).ult value }) where
  runs value label rest cpu := by
    by_cases same : cpu.reg target = value
    · simp [compareJump, runBlock, exec, same, BitVec.ult]
    · simp [compareJump, runBlock, exec, same, beq_eq_false_iff_ne.mpr same]
  key_miss _ _ := rfl
  hit_miss _ _ := rfl

theorem select_missed (cpu : Cpu) (unlisted : table.lookup (cpu.reg target) = none) :
    ∃ z c, runBlock (exec callee) (select (compareJump target) table ++ rest) cpu =
      runBlock (exec callee) rest { cpu with z, c } := by
  obtain ⟨_, ⟨z, c, rfl⟩, ran⟩ := (comparison callee target).missed rest
    (fun after => ∃ z c, after = { cpu with z, c })
    (fun _ _ ⟨_, _, same⟩ => by subst same; exact ⟨_, _, rfl⟩) cpu ⟨cpu.z, cpu.c, rfl⟩ unlisted
  exact ⟨z, c, ran⟩

theorem runBlock_unless (value : Byte) (label : ℓ) (cpu : Cpu) :
    runBlock (exec callee) (.cpi target value :: .brne label :: rest) cpu =
      if cpu.reg target = value then runBlock (exec callee) rest { cpu with z := true, c := false }
      else .jump label { cpu with z := false, c := (cpu.reg target).ult value } := by
  by_cases same : cpu.reg target = value
  · simp [runBlock, exec, same, BitVec.ult]
  · simp [runBlock, exec, same, beq_eq_false_iff_ne.mpr same]

end Compare

end Flipper.Assembly.Avr
