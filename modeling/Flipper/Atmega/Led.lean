import Flipper.Assembly.Avr

/-! The light on the board: `led_rgb` shifts three bytes out of one pin by hand, and the light
tells the bits by how long the pin stays high. -/
namespace Flipper.Atmega.Led
open Binary Assembly Assembly.Avr StateTransition

def ledDi : Nat := 5

/-- `_SFR_IO_ADDR(LED_PORT)`, port C. -/
def ledPort : Nat := 0x08

inductive Label where
  | start | loop | stop
  deriving DecidableEq

/-- The registers that stand for the operands of the assembly, no two of them the same. -/
structure Operands where
  dummy : Nat
  byte : Nat
  high : Nat
  low : Nat
  distinct : [dummy, byte, high, low].Nodup

def text (op : Operands) : Text Label (Instr Label) := [
  (.start, [.ldi op.dummy 8]),
  (.loop, [.out ledPort op.high, .lsl op.byte, .dec op.dummy, .delay, .brcsOver,
    .out ledPort op.low, .delay, .nop, .out ledPort op.low, .breq .stop, .delay, .delay, .delay,
    .rjmp .loop]),
  (.stop, [])]

def noCallee : Callee := fun _ reg ram => (reg, ram, false, false)

def latch (initial : Byte) (ports : List (Nat × Nat × Byte)) : Byte :=
  (ports.getLast?.map fun write => write.2.2).getD initial

/-- One turn of the loop in C. The compiler's own instructions take some cycles. -/
def sendByte (op : Operands) (portB initial : Byte) (wait : Nat) (byte : Byte) (cpu : Cpu) :
    Option Cpu :=
  let cpu := { cpu with cycle := cpu.cycle + wait }
  let cpu := cpu.set op.byte byte
  let cpu := cpu.set op.high (portB ||| (1 : Byte) <<< ledDi)
  let cpu := cpu.set op.low (~~~((1 : Byte) <<< ledDi) &&& latch initial cpu.ports)
  -- A start, eight turns and the end.
  run (timed noCallee) (text op) 10 (.start, cpu)

/-- `led_rgb`. Port B is read anew for every byte. -/
def ledRgb (op : Operands) (initial : Byte) (turns : Fin 3 → Byte × Nat) (r g b : Byte)
    (cpu : Cpu) : Option Cpu := do
  let cpu ← sendByte op (turns 0).1 initial (turns 0).2 g cpu
  let cpu ← sendByte op (turns 1).1 initial (turns 1).2 r cpu
  sendByte op (turns 2).1 initial (turns 2).2 b cpu

/-- What the light takes from the pin: a bit at every fall, set if the pin was high for long. It
goes by the cycle in which the pin rose, or none while the pin is low. -/
def receive (threshold : Nat) : Option Nat → List (Nat × Nat × Byte) → List Bool
  | _, [] => []
  | none, (cycle, _, value) :: rest =>
    receive threshold (if value.getLsbD ledDi then some cycle else none) rest
  | some rise, (cycle, _, value) :: rest =>
    if value.getLsbD ledDi then receive threshold (some rise) rest
    else decide (threshold ≤ cycle - rise) :: receive threshold none rest

def bits (byte : Byte) : List Bool := (List.range 8).map byte.getMsbD

variable (op : Operands)

def pulse (high low : Byte) (cycle : Nat) (bit : Bool) : List (Nat × Nat × Byte) :=
  if bit then [(cycle + 1, ledPort, high), (cycle + 11, ledPort, low)]
  else [(cycle + 1, ledPort, high), (cycle + 7, ledPort, low), (cycle + 11, ledPort, low)]

/-- The waveform of some bits, one every twenty cycles. -/
def pulses (high low : Byte) : Nat → List Bool → List (Nat × Nat × Byte)
  | _, [] => []
  | cycle, bit :: rest => pulse high low cycle bit ++ pulses high low (cycle + 20) rest

def shifted (cpu : Cpu) : Cpu :=
  { (cpu.set op.byte (cpu.reg op.byte <<< 1)).set op.dummy (cpu.reg op.dummy - 1) with
    z := cpu.reg op.dummy - 1 == 0, c := (cpu.reg op.byte).getLsbD 7 }

/-- From the rise to the branch on the bit. -/
theorem rise_next (cpu : Cpu) (rest : List (Instr Label)) :
    runBlock (timed noCallee)
        (.out ledPort op.high :: .lsl op.byte :: .dec op.dummy :: .delay :: rest) cpu =
      runBlock (timed noCallee) rest
        { shifted op cpu with
          cycle := cpu.cycle + 5, ports :=
            cpu.ports ++ [(cpu.cycle + 1, ledPort, cpu.reg op.high)] } := by
  have distinct := op.distinct
  simp only [List.nodup_cons, List.mem_cons, List.not_mem_nil, or_false, not_or] at distinct
  rw [runBlock_next _ rfl, runBlock_next _ rfl, runBlock_next _ rfl, runBlock_next _ rfl]
  simp [shifted, Cpu.result, Cpu.set, cycles, distinct]

/-- From the last write to the end of the turn. -/
theorem fall_jump (cpu : Cpu) :
    runBlock (timed noCallee)
        [.out ledPort op.low, .breq .stop, .delay, .delay, .delay, .rjmp Label.loop] cpu =
      let after := { cpu with ports := cpu.ports ++ [(cpu.cycle + 1, ledPort, cpu.reg op.low)] }
      if cpu.z then .jump .stop { after with cycle := cpu.cycle + 3 }
      else .jump .loop { after with cycle := cpu.cycle + 10 } := by
  obtain ⟨reg, ram, sp, z, c, cycle, ports, pc, calls⟩ := cpu
  cases z <;> rfl

/-- The branch on the bit: a set one skips the early fall and takes as long. -/
theorem branch_next (cpu : Cpu) (rest : List (Instr Label)) :
    runBlock (timed noCallee) (.brcsOver :: .out ledPort op.low :: .delay :: .nop :: rest) cpu =
      runBlock (timed noCallee) rest
        { cpu with
          cycle := cpu.cycle + 5
          ports := if cpu.c then cpu.ports else cpu.ports ++
            [(cpu.cycle + 2, ledPort, cpu.reg op.low)] } := by
  obtain ⟨reg, ram, sp, z, c, cycle, ports, pc, calls⟩ := cpu
  cases c <;> rfl

theorem shifted_reg (cpu : Cpu) :
    (shifted op cpu).reg op.dummy = cpu.reg op.dummy - 1 ∧
    (shifted op cpu).reg op.byte = cpu.reg op.byte <<< 1 ∧
      (shifted op cpu).reg op.high = cpu.reg op.high ∧
      (shifted op cpu).reg op.low = cpu.reg op.low := by
  have distinct := op.distinct
  simp only [List.nodup_cons, List.mem_cons, List.not_mem_nil, or_false, not_or] at distinct
  obtain ⟨⟨byte, high, low⟩, ⟨high', low'⟩, -⟩ := distinct
  simp [shifted, Ne.symm byte, Ne.symm high, Ne.symm low, Ne.symm high', Ne.symm low']

def turned (cpu : Cpu) (count : Nat) : Cpu :=
  { shifted op cpu with
    cycle := cpu.cycle + count
    ports := cpu.ports ++
      pulse (cpu.reg op.high) (cpu.reg op.low) cpu.cycle ((cpu.reg op.byte).getLsbD 7) }

theorem loop_block (cpu : Cpu) :
    runBlock (timed noCallee) ((text op).body .loop) cpu =
      if cpu.reg op.dummy - 1 = 0 then .jump .stop (turned op cpu 13) else .jump .loop
        (turned op cpu 20) := by
  have body : (text op).body .loop = .out ledPort op.high :: .lsl op.byte :: .dec op.dummy ::
      .delay ::
    .brcsOver :: .out ledPort op.low :: .delay :: .nop ::
    [.out ledPort op.low, .breq .stop, .delay, .delay, .delay, .rjmp .loop] := rfl
  rw [body, rise_next, branch_next, fall_jump]
  have bit : (shifted op cpu).c = (cpu.reg op.byte).getLsbD 7 := rfl
  have last : (shifted op cpu).z = true ↔ cpu.reg op.dummy - 1 = 0 := beq_iff_eq
  simp only [bit, last, shifted_reg, turned]
  cases (cpu.reg op.byte).getLsbD 7 <;> simp [pulse]

theorem bits_shift (byte : Byte) (n : Nat) :
    (List.range (n + 1)).map byte.getMsbD = byte.getLsbD 7 :: (List.range n).map
    (byte <<< 1).getMsbD := by
  rw [List.range_succ_eq_map, List.map_cons, List.map_map]
  congr 1
  refine List.map_congr_left fun i _ => ?_
  simp [BitVec.getMsbD_shiftLeft]

/-- The turns that are left, by induction on their number. -/
theorem turns_run (cpu : Cpu) (few : n < 8) (left : cpu.reg op.dummy = BitVec.ofNat 8 (n + 1)) :
    ∃ after, run (timed noCallee) (text op) (n + 2) (.loop, cpu) = some after ∧
      after.cycle = cpu.cycle + 20 * n + 13 ∧
      after.ports = cpu.ports ++ pulses (cpu.reg op.high) (cpu.reg op.low) cpu.cycle
        ((List.range (n + 1)).map (cpu.reg op.byte).getMsbD) := by
  induction n generalizing cpu with
  | zero =>
    have block := loop_block op cpu
    rw [if_pos (by rw [left]; rfl)] at block
    refine ⟨_, (run_enter 1 (enter_jump block)).trans rfl, rfl, ?_⟩
    rw [bits_shift]
    simp [pulses, turned]
  | succ n ih =>
    have counted : cpu.reg op.dummy - 1 = BitVec.ofNat 8 (n + 1) := by
      rw [left, BitVec.ofNat_add]
      exact BitVec.add_sub_cancel _ _
    have block := loop_block op cpu
    rw [if_neg (by rw [counted]; bv_omega)] at block
    obtain ⟨dummy, byte, high, low⟩ := shifted_reg op cpu
    obtain ⟨after, ran, cycle, ports⟩ := ih (turned op cpu 20) (by omega) (dummy.trans counted)
    refine ⟨after, (run_enter (n + 2) (enter_jump block)).trans ran, ?_, ?_⟩
    · rw [cycle]
      change cpu.cycle + 20 + 20 * n + 13 = _
      omega
    rw [ports, bits_shift (cpu.reg op.byte)]
    change (cpu.ports ++ _) ++ pulses ((shifted op cpu).reg op.high) ((shifted op cpu).reg op.low)
      (cpu.cycle + 20)
      ((List.range (n + 1)).map ((shifted op cpu).reg op.byte).getMsbD) = _
    rw [high, low, byte, pulses, List.append_assoc]

theorem sendByte_ports (portB initial : Byte) (wait : Nat) (byte : Byte) (cpu : Cpu) :
    ∃ after, sendByte op portB initial wait byte cpu = some after ∧
      after.cycle = cpu.cycle + wait + 154 ∧
      after.ports = cpu.ports ++ pulses (portB ||| (1 : Byte) <<< ledDi)
        (~~~((1 : Byte) <<< ledDi) &&& latch initial cpu.ports) (cpu.cycle + wait + 1)
        (bits byte) := by
  have distinct := op.distinct
  simp only [List.nodup_cons, List.mem_cons, List.not_mem_nil, or_false, not_or] at distinct
  obtain ⟨⟨dummyByte, dummyHigh, dummyLow⟩, ⟨byteHigh, byteLow⟩, highLow, -⟩ := distinct
  let given := ((({ cpu with cycle := cpu.cycle + wait }.set op.byte byte).set op.high
    (portB ||| (1 : Byte) <<< ledDi)).set op.low
      (~~~((1 : Byte) <<< ledDi) &&& latch initial cpu.ports))
  have starts : (.loop, { given.set op.dummy 8 with cycle := given.cycle + 1 }) ∈
      enter (timed noCallee) (text op) (.start, given) := enter_next rfl rfl
  obtain ⟨after, ran, cycle, ports⟩ :=
    turns_run op { given.set op.dummy 8 with cycle := given.cycle + 1 }
    (by decide : 7 < 8) (by simp)
  refine ⟨after, (run_enter 9 starts).trans ran, cycle, ?_⟩
  rw [ports]
  change cpu.ports ++ pulses _ _ (cpu.cycle + wait + 1) _ = _
  simp [given, bits, Ne.symm dummyByte, Ne.symm dummyHigh, Ne.symm dummyLow, byteHigh, byteLow,
    highLow]

/-! ## What the light sees -/

section Receive
variable {high low : Byte} {threshold : Nat}

theorem receive_pulse (set : high.getLsbD ledDi = true) (clear : low.getLsbD ledDi = false)
    (above : 6 < threshold) (below : threshold ≤ 10) (cycle : Nat) (bit : Bool)
    (rest : List (Nat × Nat × Byte)) :
    receive threshold none (pulse high low cycle bit ++ rest) =
      bit :: receive threshold none rest := by
  cases bit with
  | true => simpa [pulse, receive, set, clear] using below
  | false => simpa [pulse, receive, set, clear] using above

/-- On a pin that is high already there is no rise, and the bit is longer than it was meant. -/
theorem receive_held (set : high.getLsbD ledDi = true) (clear : low.getLsbD ledDi = false)
    (rise cycle : Nat) (bit : Bool) (rest : List (Nat × Nat × Byte)) :
    receive threshold (some rise) (pulse high low cycle bit ++ rest) =
      decide (threshold ≤ cycle + (if bit then 11 else 7) - rise) ::
        receive threshold none rest := by
  cases bit <;> simp [pulse, receive, set, clear]

theorem receive_pulses (set : high.getLsbD ledDi = true) (clear : low.getLsbD ledDi = false)
    (above : 6 < threshold) (below : threshold ≤ 10) (cycle : Nat) (sent : List Bool)
    (rest : List (Nat × Nat × Byte)) :
    receive threshold none (pulses high low cycle sent ++ rest) =
      sent ++ receive threshold none rest := by
  induction sent generalizing cycle with
  | nil => rfl
  | cons bit sent ih =>
    rw [pulses, List.append_assoc, receive_pulse set clear above below, ih, List.cons_append]

end Receive

theorem latch_pulses (initial high low : Byte) (ports : List (Nat × Nat × Byte)) (cycle : Nat)
    (bit : Bool) (sent : List Bool) :
    latch initial (ports ++ pulses high low cycle (bit :: sent)) = low := by
  induction sent generalizing ports cycle bit with
  | nil => cases bit <;> simp [pulses, pulse, latch]
  | cons next sent ih =>
    rw [pulses, ← List.append_assoc]
    exact ih _ _ _

/-- What port C holds while its pin of the light is low. -/
def dark (initial : Byte) : Byte := ~~~((1 : Byte) <<< ledDi) &&& initial

/-- What is written for a high pin: all of port B. -/
def bright (portB : Byte) : Byte := portB ||| (1 : Byte) <<< ledDi

theorem sendByte_dark (portB initial : Byte) (wait : Nat) (byte : Byte) (cpu : Cpu)
    (quiet : latch initial cpu.ports = initial ∨ latch initial cpu.ports = dark initial) :
    ∃ after, sendByte op portB initial wait byte cpu = some after ∧
      after.cycle = cpu.cycle + wait + 154 ∧
      after.ports = cpu.ports ++
        pulses (bright portB) (dark initial) (cpu.cycle + wait + 1) (bits byte) ∧
      latch initial after.ports = dark initial := by
  obtain ⟨after, sent, cycle, ports⟩ := sendByte_ports op portB initial wait byte cpu
  have low : ~~~((1 : Byte) <<< ledDi) &&& latch initial cpu.ports = dark initial := by
    rcases quiet with same | same
    · rw [same, dark]
    · rw [same, dark, ← BitVec.and_assoc, BitVec.and_self]
  rw [low] at ports
  exact ⟨after, sent, cycle, ports, ports ▸ latch_pulses ..⟩

/-- The cycle in which the first bit of each byte begins: a byte takes 154 cycles with its `ldi`. -/
def begins (cycle : Nat) (turns : Fin 3 → Byte × Nat) : Fin 3 → Nat
  | 0 => cycle + (turns 0).2 + 1
  | 1 => cycle + (turns 0).2 + 154 + (turns 1).2 + 1
  | 2 => cycle + (turns 0).2 + 154 + (turns 1).2 + 154 + (turns 2).2 + 1

theorem ledRgb_received (initial : Byte) (turns : Fin 3 → Byte × Nat) (r g b : Byte) (cpu : Cpu)
    (unused : cpu.ports = []) (above : 6 < threshold) (below : threshold ≤ 10) :
    ∃ after, ledRgb op initial turns r g b cpu = some after ∧
      after.ports =
        pulses (bright (turns 0).1) (dark initial) (begins cpu.cycle turns 0) (bits g) ++
        pulses (bright (turns 1).1) (dark initial) (begins cpu.cycle turns 1) (bits r) ++
        pulses (bright (turns 2).1) (dark initial) (begins cpu.cycle turns 2) (bits b) ∧
      (initial.getLsbD ledDi = false →
        receive threshold none after.ports = bits g ++ bits r ++ bits b) ∧
      (initial.getLsbD ledDi = true → ∀ rise,
        receive threshold (some rise) after.ports =
          decide (threshold ≤ begins cpu.cycle turns 0 + (if g.getMsbD 0 then 11 else 7) - rise) ::
            (bits g).tail ++ bits r ++ bits b) ∧
      latch initial after.ports = dark initial := by
  have quiet : latch initial cpu.ports = initial := by rw [unused]; rfl
  obtain ⟨green, sent, cycle, ports, low⟩ :=
    sendByte_dark op (turns 0).1 initial (turns 0).2 g cpu (.inl quiet)
  obtain ⟨red, sent', cycle', ports', low'⟩ :=
    sendByte_dark op (turns 1).1 initial (turns 1).2 r green (.inr low)
  obtain ⟨blue, sent'', -, ports'', dim⟩ :=
    sendByte_dark op (turns 2).1 initial (turns 2).2 b red (.inr low')
  rw [ports', ports, unused, List.nil_append, cycle', cycle] at ports''
  have set : ∀ portB, (bright portB).getLsbD ledDi = true := fun portB => by simp [bright, ledDi]
  have clear : (dark initial).getLsbD ledDi = false := by simp [dark, ledDi]
  have shown := fun portB => receive_pulses (set portB) clear above below
  have last : ∀ cycle, receive threshold none
      (pulses (bright (turns 2).1) (dark initial) cycle (bits b)) = bits b := by
    intro cycle
    have alone := shown (turns 2).1 cycle (bits b) []
    rwa [List.append_nil, receive, List.append_nil] at alone
  refine ⟨blue, ?_, ports'', fun _ => ?_, fun _ rise => ?_, dim⟩
  · simp only [ledRgb, sent, sent', sent'', Option.bind_eq_bind, Option.bind_some]
  · rw [ports'', List.append_assoc, shown, shown, last, List.append_assoc]
  · have split : bits g = g.getMsbD 0 :: (bits g).tail := rfl
    rw [ports'', split, pulses, List.append_assoc, List.append_assoc, receive_held (set _) clear,
      shown, shown, last]
    exact congrArg (_ :: ·) (List.append_assoc ..).symm

def operands : Operands := ⟨16, 24, 18, 19, by decide⟩

def idle : Cpu where
  reg _ := 0
  ram _ := 0
  sp := 0x400
  z := false
  c := false
  cycle := 0
  ports := []
  pc := 0
  calls := []

theorem ledRgb_received_red : ∃ after,
    ledRgb operands 0x41 (fun _ => (0x86, 5)) 0xFF 0 0 idle = some after ∧
      receive 8 none after.ports =
        List.replicate 8 false ++ List.replicate 8 true ++ List.replicate 8 false := by
  obtain ⟨after, ran, -, received, -⟩ :=
    ledRgb_received operands 0x41 (fun _ => (0x86, 5)) 0xFF 0 0 idle rfl (by decide : 6 < 8)
      (by decide)
  exact ⟨after, ran, received (by decide)⟩

end Flipper.Atmega.Led
