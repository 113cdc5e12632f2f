import Flipper.Assembly.Avr
import Mathlib.Tactic.IntervalCases

/-! `fmr_call` of `os/arch/avr8/fmr.S`: packed arguments into the register file through X, the
call, and the result widened to eight bytes. -/
namespace Flipper.Arch.Avr
open Binary Assembly Assembly.Avr StateTransition

inductive Label where
  | fmrCall
  | load | load8 | load16 | load32 | load64 | loadInt | loadPtr | loadDone
  | call
  | ret8 | ret16 | ret16Begin | retVoid | ret32 | retInt | retPtr | ret64
  | fail | done
  deriving DecidableEq

/-! The names of `fmr.S` for registers; X and Z are those of the architecture. -/

abbrev retv := 2
abbrev argc := 3
abbrev argtL := 4
abbrev argtH := 5
abbrev paramArgvL := 16
abbrev paramArgtL := 18
abbrev paramArgcL := 20
abbrev paramRetvL := 22
abbrev paramFunctionL := 24
abbrev paramFunctionH := 25
abbrev XL := 26
abbrev XH := 27
abbrev ZL := 30
abbrev ZH := 31

def text : Text Label (Instr Label) := [
  (.fmrCall, [.push argc, .push argtL, .push argtH, .push paramFunctionH, .push paramFunctionL,
    .mov retv paramRetvL, .mov argc paramArgcL, .movw argtL paramArgtL, .movw ZL paramArgvL,
    .clr XH, .ldi XL 25]),
  (.load, [.tst argc, .breq .call, .mov 16 argtL, .andi 16 7,
    .cpi 16 0, .breq .load8, .cpi 16 1, .breq .load16, .cpi 16 3, .breq .load32,
    .cpi 16 4, .breq .loadInt, .cpi 16 6, .breq .loadPtr, .cpi 16 7, .breq .load64, .rjmp .fail]),
  (.load8, [.ldZ 0, .stDecX 0, .dec XL, .rjmp .loadDone]),
  (.load16, [.dec XL, .ldZ 0, .stXInc 0, .ldZ 0, .stX 0, .subi XL 2, .rjmp .loadDone]),
  (.load32, [.subi XL 3, .ldZ 0, .stXInc 0, .ldZ 0, .stXInc 0, .ldZ 0, .stXInc 0, .ldZ 0, .stX 0,
    .subi XL 4, .rjmp .loadDone]),
  (.load64, [.rjmp .fail]),
  (.loadInt, []),
  (.loadPtr, [.dec XL, .ldZ 0, .stXInc 0, .ldZ 0, .stX 0, .subi XL 2, .adiw ZL 6, .rjmp .loadDone]),
  (.loadDone, [.asr argtH, .ror argtL, .asr argtH, .ror argtL, .asr argtH, .ror argtL,
    .asr argtH, .ror argtL, .dec argc, .rjmp .load]),
  (.call, [.pop ZL, .pop ZH, .icall, .mov 16 retv, .andi 16 7]),
  (.ret8, [.cpi 16 0, .brne .ret16,
    .clr 25, .mov 18 24, .clr 24, .clr 23, .clr 22, .clr 21, .clr 20, .clr 19,
    .sbrs 16 4, .rjmp .done, .sbrs 18 7, .rjmp .done,
    .com 25, .com 24, .com 23, .com 22, .com 21, .com 20, .com 19, .rjmp .done]),
  (.ret16, [.cpi 16 1, .brne .retVoid]),
  (.ret16Begin, [.mov 19 25, .clr 25, .mov 18 24, .clr 24, .clr 23, .clr 22, .clr 21, .clr 20,
    .sbrs 16 4, .rjmp .done, .sbrs 19 7, .rjmp .done,
    .com 25, .com 24, .com 23, .com 22, .com 21, .com 20, .rjmp .done]),
  (.retVoid, [.cpi 16 2, .brne .ret32,
    .clr 25, .clr 24, .clr 23, .clr 22, .clr 21, .clr 20, .clr 19, .clr 18, .rjmp .done]),
  (.ret32, [.cpi 16 3, .brne .retInt,
    -- `r22` is copied and, unlike the others, not cleared.
    .mov 21 25, .clr 25, .mov 20 24, .clr 24, .mov 19 23, .clr 23, .mov 18 22,
    .sbrs 16 4, .rjmp .done, .sbrs 21 7, .rjmp .done,
    .com 25, .com 24, .com 23, .com 22, .rjmp .done]),
  (.retInt, [.cpi 16 4, .brne .retPtr, .sbr 16 4, .rjmp .ret16Begin]),
  (.retPtr, [.cpi 16 6, .brne .ret64, .rjmp .ret16Begin]),
  (.ret64, [.cpi 16 7, .brne .fail, .rjmp .done]),
  (.fail, [.ser 25, .ser 24, .ser 23, .ser 22, .ser 21, .ser 20, .ser 19, .ser 18]),
  (.done, [.pop argtH, .pop argtL, .pop argc, .ret])]

variable (callee : Callee)

def loads : List (Byte × Label) :=
  [(0, .load8), (1, .load16), (3, .load32), (4, .loadInt), (6, .loadPtr), (7, .load64)]

/-- How an argument is taken: bytes copied, registers it takes up, bytes it has in the block. -/
structure Shape where
  bytes : Nat
  registers : Nat
  size : Nat
  deriving DecidableEq

def shapeOf (type : Byte) : Option Shape :=
  if type = 0 then some ⟨1, 2, 1⟩ else if type = 1 then some ⟨2, 2, 2⟩
  else if type = 3 then some ⟨4, 4, 4⟩ else if type = 4 ∨ type = 6 then some ⟨2, 2, 8⟩ else none

/-- The type of an argument: the shifts keep the sign, and the code reads three bits. -/
def typeOf (types : BitVec 16) (i : Nat) : Byte := (types.sshiftRight (4 * i)).setWidth 8 &&& 7

/-- One argument in its registers, the lowest of which is the one after `y`. -/
structure Took (shape : Shape) (y : Nat) (z : BitVec 16) (cpu after : Cpu) : Prop where
  pointed : Pointed y (z + BitVec.ofNat 16 shape.size) after
  bytes : ∀ k < shape.bytes, after.reg (y + 1 + k) = cpu.ram (z + BitVec.ofNat 16 k)
  reg : ∀ r, r ≤ y ∨ y + shape.registers < r → r ∉ [0, 26, 27, 30, 31] → after.reg r = cpu.reg r
  ram : after.ram = cpu.ram
  sp : after.sp = cpu.sp
  calls : after.calls = cpu.calls

section Blocks
variable {y : Nat} {z : BitVec 16} {cpu : Cpu}

theorem load8_block (pointed : Pointed (y + 2) z cpu) (register : y + 2 < 26)
    (above : ∀ k < 1, 32 ≤ (z + BitVec.ofNat 16 k).toNat) :
    ∃ after, runBlock (exec callee) (text.body .load8) cpu = .jump .loadDone after ∧
      Took ⟨1, 2, 1⟩ y z cpu after := by
  obtain ⟨loaded, ld, pointed, byte, keptLd⟩ :=
    ldZ_next callee pointed (by simpa using above 0 (by decide))
  obtain ⟨stored, st, pointed, moved, keptSt⟩ := stDecX_next callee pointed (by omega)
  obtain ⟨after, dec, pointed, keptDec⟩ := dec_next callee pointed
  have keeps := (keptLd.trans keptSt).trans keptDec
  refine ⟨after, ?_, ⟨pointed, ?_, ?_, keeps.ram, keeps.sp, keeps.calls⟩⟩
  · exact (runBlock_next _ ld).trans ((runBlock_next _ st).trans (runBlock_next _ dec))
  · intro k less
    obtain rfl : k = 0 := Nat.lt_one_iff.mp less
    rw [Nat.add_zero, keptDec.reg _ (by simp; omega), moved, byte]
    exact congrArg cpu.ram (BitVec.add_zero z).symm
  · intro r outside other
    refine keeps.reg r ?_
    simp only [List.mem_cons, List.not_mem_nil, or_false, not_or,
      List.mem_append] at outside other ⊢
    omega

/-- X back over an argument, its bytes up to where X was, and X below it. -/
theorem copied_took {lowered copied after : Cpu} (keptDown : Keeps [26] cpu lowered)
    (copy : Copied (y + 1) n z lowered copied) (keptBack : Keeps [26] copied after)
    (pointed : Pointed y (z + BitVec.ofNat 16 (n + 1)) after) (register : y + 1 + n < 26) :
    Took ⟨n + 1, n + 1, n + 1⟩ y z cpu after where
  pointed := pointed
  bytes k less := by
    change k < n + 1 at less
    rw [keptBack.reg _ (by simp; omega), copy.bytes k (by omega), keptDown.ram]
  reg r outside other := by
    change r ≤ y ∨ y + (n + 1) < r at outside
    have notX : r ∉ [26] := fun member => other (by simp_all)
    rw [keptBack.reg r notX, copy.reg r (by omega) other, keptDown.reg r notX]
  ram := keptBack.ram.trans (copy.ram.trans keptDown.ram)
  sp := keptBack.sp.trans (copy.sp.trans keptDown.sp)
  calls := keptBack.calls.trans (copy.calls.trans keptDown.calls)

/-- The common part of the loads of two bytes. -/
theorem copyPair_next (pointed : Pointed (y + 2) z cpu) (register : y + 2 < 26)
    (above : ∀ k < 2, 32 ≤ (z + BitVec.ofNat 16 k).toNat) (rest : List (Instr Label)) :
    ∃ after, runBlock (exec callee) (.dec XL :: (copies 1 ++ .subi XL 2 :: rest)) cpu =
        runBlock (exec callee) rest after ∧ Took ⟨2, 2, 2⟩ y z cpu after := by
  obtain ⟨lowered, dec, pointed, keptDec⟩ := dec_next callee pointed
  obtain ⟨copied, copies, copy⟩ := copies_next callee 1 pointed (by omega) (by omega)
    (fun k less => above k (by omega)) (.subi XL 2 :: rest)
  obtain ⟨after, sub, pointed, keptSub⟩ := subi_next callee (x := y) (k := 2) copy.pointed
  exact ⟨after, (runBlock_next _ dec).trans (copies.trans (runBlock_next _ sub)),
    copied_took keptDec copy keptSub pointed (by omega)⟩

theorem load16_block (pointed : Pointed (y + 2) z cpu) (register : y + 2 < 26)
    (above : ∀ k < 2, 32 ≤ (z + BitVec.ofNat 16 k).toNat) :
    ∃ after, runBlock (exec callee) (text.body .load16) cpu = .jump .loadDone after ∧
      Took ⟨2, 2, 2⟩ y z cpu after :=
  copyPair_next callee pointed register above [.rjmp .loadDone]

/-- An `int` and a pointer have eight bytes in the block, of which two are taken. -/
theorem loadPtr_block (pointed : Pointed (y + 2) z cpu) (register : y + 2 < 26)
    (above : ∀ k < 2, 32 ≤ (z + BitVec.ofNat 16 k).toNat) :
    ∃ after, runBlock (exec callee) (text.body .loadPtr) cpu = .jump .loadDone after ∧
      Took ⟨2, 2, 8⟩ y z cpu after := by
  obtain ⟨copied, ran, took⟩ :=
    copyPair_next callee pointed register above [.adiw ZL 6, .rjmp .loadDone]
  refine ⟨_, ran, ⟨⟨?_, ?_, ?_⟩, ?_, ?_, took.ram, took.sp, took.calls⟩⟩
  · exact took.pointed.low
  · exact took.pointed.high
  · change (copied.setPair 30 (copied.pair 30 + 6)).pair 30 = _
    rw [Cpu.pair_setPair, took.pointed.source, BitVec.add_assoc]
    rfl
  · intro k less
    change k < 2 at less
    rw [← took.bytes k less]
    change (copied.setPair 30 _).reg _ = _
    simp [show y + 1 + k ≠ 31 by omega, show y + 1 + k ≠ 30 by omega]
  · intro r outside other
    rw [← took.reg r outside other]
    simp only [List.mem_cons, List.not_mem_nil, or_false, not_or] at other
    change (copied.setPair 30 _).reg _ = _
    simp [other]

theorem load32_block (pointed : Pointed (y + 4) z cpu) (register : y + 4 < 26)
    (above : ∀ k < 4, 32 ≤ (z + BitVec.ofNat 16 k).toNat) :
    ∃ after, runBlock (exec callee) (text.body .load32) cpu = .jump .loadDone after ∧
      Took ⟨4, 4, 4⟩ y z cpu after := by
  obtain ⟨lowered, down, pointed, keptDown⟩ := subi_next callee (x := y + 1) (k := 3) pointed
  obtain ⟨copied, copies, copy⟩ := copies_next callee 3 pointed (by omega) (by omega)
    (fun k less => above k (by omega)) [.subi XL 4, .rjmp Label.loadDone]
  obtain ⟨after, back, pointed, keptBack⟩ := subi_next callee (x := y) (k := 4) copy.pointed
  exact ⟨after, (runBlock_next _ down).trans (copies.trans (runBlock_next _ back)),
    copied_took keptDown copy keptBack pointed (by omega)⟩

end Blocks

/-! ## The loop -/

theorem body_load : text.body .load = .tst argc :: .breq .call :: .mov 16 argtL :: .andi 16 7 ::
    (select (compareJump 16) loads ++ [.rjmp .fail]) := rfl

theorem load_select (cpu : Cpu) (more : cpu.reg argc ≠ 0) :
    ∃ z, runBlock (exec callee) (text.body .load) cpu =
      runBlock (exec callee) (select (compareJump 16) loads ++ [.rjmp .fail])
        { cpu.set 16 (cpu.reg argtL &&& 7) with z } := by
  have goes : exec callee (.breq Label.call) { cpu with z := cpu.reg argc == 0 } =
      .next { cpu with z := false } := by
    simp only [exec, beq_eq_false_iff_ne.mpr more]
    rfl
  rw [body_load, runBlock_next _ rfl, runBlock_next _ goes, runBlock_next _ rfl,
    runBlock_next _ rfl]
  refine ⟨cpu.reg argtL &&& 7 == 0, congrArg (runBlock _ _) ?_⟩
  simp [Cpu.set, Cpu.result]

theorem shapeOf_cases (valid : shapeOf type = some shape) :
    type = 0 ∧ shape = ⟨1, 2, 1⟩ ∨ type = 1 ∧ shape = ⟨2, 2, 2⟩ ∨ type = 3 ∧ shape = ⟨4, 4, 4⟩ ∨
      (type = 4 ∨ type = 6) ∧ shape = ⟨2, 2, 8⟩ := by
  unfold shapeOf at valid
  split_ifs at valid <;> simp_all

theorem shape_fits (valid : shapeOf type = some shape) :
    shape.bytes ≤ shape.registers ∧ shape.registers ≤ 4 ∧ shape.bytes ≤ shape.size := by
  obtain ⟨-, rfl⟩ | ⟨-, rfl⟩ | ⟨-, rfl⟩ | ⟨-, rfl⟩ := shapeOf_cases valid <;> decide

theorem fetch {y : Nat} {shape : Shape} {z : BitVec 16} {cpu : Cpu}
    (pointed : Pointed (y + shape.registers) z cpu) (register : y + shape.registers < 26)
    (above : ∀ k < shape.bytes, 32 ≤ (z + BitVec.ofNat 16 k).toNat) (more : cpu.reg argc ≠ 0)
    (valid : shapeOf (cpu.reg argtL &&& 7) = some shape) :
    ∃ after, Reaches (enter (exec callee) text) (.load, cpu) (.loadDone, after) ∧
      Took shape y z (cpu.set 16 (cpu.reg argtL &&& 7)) after := by
  obtain ⟨flag, selects⟩ := load_select callee cpu more
  let chosen : Cpu := { cpu.set 16 (cpu.reg argtL &&& 7) with z := true, c := false }
  have jumps : ∀ label, loads.lookup (cpu.reg argtL &&& 7) = some label →
      (label, chosen) ∈ enter (exec callee) text (.load, cpu) := fun label found =>
    enter_jump (selects.trans ((comparison callee 16).found _ _ (by simpa using found)))
  have aimed : Pointed (y + shape.registers) z chosen := by
    have moved := pointed_set pointed (by decide : 16 < 26) (cpu.reg argtL &&& 7)
    exact ⟨moved.low, moved.high, moved.source⟩
  -- The flags that the selection leaves do not show in what is taken.
  have flags : ∀ {after}, Took shape y z chosen after →
      Took shape y z (cpu.set 16 (cpu.reg argtL &&& 7)) after :=
    fun took => ⟨took.pointed, took.bytes, took.reg, took.ram, took.sp, took.calls⟩
  obtain ⟨type, rfl⟩ | ⟨type, rfl⟩ | ⟨type, rfl⟩ | ⟨type | type, rfl⟩ := shapeOf_cases valid
  · obtain ⟨after, ran, took⟩ := load8_block callee aimed register above
    exact ⟨after, .head (jumps .load8 (by rw [type]; rfl)) (.single (enter_jump ran)), flags took⟩
  · obtain ⟨after, ran, took⟩ := load16_block callee aimed register above
    exact ⟨after, .head (jumps .load16 (by rw [type]; rfl)) (.single (enter_jump ran)), flags took⟩
  · obtain ⟨after, ran, took⟩ := load32_block callee aimed register above
    exact ⟨after, .head (jumps .load32 (by rw [type]; rfl)) (.single (enter_jump ran)), flags took⟩
  · obtain ⟨after, ran, took⟩ := loadPtr_block callee aimed register above
    exact ⟨after, .head (jumps .loadInt (by rw [type]; rfl))
      (.head (enter_next rfl rfl) (.single (enter_jump ran))), flags took⟩
  · obtain ⟨after, ran, took⟩ := loadPtr_block callee aimed register above
    exact ⟨after, .head (jumps .loadPtr (by rw [type]; rfl)) (.single (enter_jump ran)), flags took⟩

theorem loadDone_block (cpu : Cpu) :
    ∃ after, runBlock (exec callee) (text.body .loadDone) cpu = .jump .load after ∧
      after.pair argtL = (cpu.pair argtL).sshiftRight 4 ∧ after.reg argc = cpu.reg argc - 1 ∧
      Keeps [argc, argtL, argtH] cpu after := by
  obtain ⟨first, ran, pair, kept⟩ := shift_next callee argtL cpu
    (.asr argtH :: .ror argtL :: .asr argtH :: .ror argtL :: .asr argtH :: .ror argtL :: [.dec argc,
      .rjmp Label.load])
  obtain ⟨second, ran₂, pair₂, kept₂⟩ := shift_next callee argtL first
    (.asr argtH :: .ror argtL :: .asr argtH :: .ror argtL :: [.dec argc, .rjmp Label.load])
  obtain ⟨third, ran₃, pair₃, kept₃⟩ := shift_next callee argtL second
    (.asr argtH :: .ror argtL :: [.dec argc, .rjmp Label.load])
  obtain ⟨fourth, ran₄, pair₄, kept₄⟩ := shift_next callee argtL third [.dec argc, .rjmp Label.load]
  have keeps := (kept.trans kept₂).trans (kept₃.trans kept₄)
  refine ⟨fourth.result argc (fourth.reg argc - 1),
    ran.trans (ran₂.trans (ran₃.trans ran₄)), ?_, ?_,
    ⟨fun r outside => ?_, keeps.ram, keeps.sp, keeps.calls⟩⟩
  · change fourth.pair argtL = _
    rw [pair₄, pair₃, pair₂, pair]
    simp only [← BitVec.sshiftRight_add]
  · simp [keeps.reg argc (by decide)]
  · rw [Cpu.result_reg, if_neg (by simp_all), keeps.reg r (by simp_all)]

/-! ## The frame -/

/-- Room in the memory for what `fmr_call` pushes, above the register file, and for the
return address on the other side. -/
structure Stacked (caller : Cpu) : Prop where
  below : 36 ≤ caller.sp.toNat
  above : caller.sp.toNat + 2 < 2 ^ 16

def framed (caller : Cpu) : AddressSpace 16 :=
  let pushed := Function.update caller.ram caller.sp (caller.reg argc)
  let pushed := Function.update pushed (caller.sp - 1) (caller.reg argtL)
  let pushed := Function.update pushed (caller.sp - 2) (caller.reg argtH)
  let pushed := Function.update pushed (caller.sp - 3) (caller.reg paramFunctionH)
  Function.update pushed (caller.sp - 4) (caller.reg paramFunctionL)

theorem framed_slots (caller : Cpu) :
    framed caller caller.sp = caller.reg argc ∧ framed caller (caller.sp - 1) = caller.reg argtL ∧
      framed caller (caller.sp - 2) = caller.reg argtH ∧
      framed caller (caller.sp - 3) = caller.reg paramFunctionH ∧
      framed caller (caller.sp - 4) = caller.reg paramFunctionL := by
  have top : ∀ offset : BitVec 16, offset ≠ 0 → caller.sp ≠ caller.sp - offset := by
    intro offset positive same
    exact positive (sub_eq_self.mp same.symm)
  simp [framed, top]

theorem framed_outside (caller : Cpu) (outside : 5 ≤ (caller.sp - cell).toNat) :
    framed caller cell = caller.ram cell := by
  have apart : ∀ offset : BitVec 16, offset.toNat < 5 → cell ≠ caller.sp - offset := by
    rintro offset small rfl
    rw [sub_sub_cancel] at outside
    omega
  have top : cell ≠ caller.sp := by simpa using apart 0 (by decide)
  simp [framed, top, apart]

def entered (caller : Cpu) : Cpu :=
  let pushed := { caller with ram := framed caller, sp := caller.sp - 5 }
  ((((((pushed.set retv (caller.reg paramRetvL)).set argc (caller.reg paramArgcL)).setPair argtL
    (caller.pair paramArgtL)).setPair ZL (caller.pair paramArgvL)).result XH 0).set XL 25)

theorem entry_block (stacked : Stacked caller) :
    runBlock (exec callee) (text.body .fmrCall) caller = .next (entered caller) := by
  have pushes := pushes_next callee caller [argc, argtL, argtH, paramFunctionH, paramFunctionL]
    (by simpa using stacked.below) [.mov retv paramRetvL, .mov argc paramArgcL,
      .movw argtL paramArgtL, .movw ZL paramArgvL, .clr XH, (.ldi XL 25 : Instr Label)]
  have pushed : caller.pushed [argc, argtL, argtH, paramFunctionH, paramFunctionL] =
      { caller with ram := framed caller, sp := caller.sp - 5 } := by
    have down : ∀ k : BitVec 16, caller.sp - k - 1 = caller.sp - (k + 1) := fun k => sub_sub _ _ _
    simp only [Cpu.pushed, down]
    rfl
  rw [pushed] at pushes
  exact pushes

/-! ## All arguments -/

def used (types : BitVec 16) : Nat → Nat
  | 0 => 0
  | i + 1 => used types i + ((shapeOf (typeOf types i)).map Shape.registers).getD 0

/-- Where an argument starts in the packed block. -/
def offset (types : BitVec 16) : Nat → Nat
  | 0 => 0
  | i + 1 => offset types i + ((shapeOf (typeOf types i)).map Shape.size).getD 0

theorem used_succ (valid : shapeOf (typeOf types i) = some shape) :
    used types (i + 1) = used types i + shape.registers := by
  rw [used, valid]
  rfl

theorem offset_succ (valid : shapeOf (typeOf types i) = some shape) :
    offset types (i + 1) = offset types i + shape.size := by
  rw [offset, valid]
  rfl

theorem used_mono (types : BitVec 16) : Monotone (used types) :=
  monotone_nat_of_le_succ fun _ => Nat.le_add_right _ _

theorem offset_mono (types : BitVec 16) : Monotone (offset types) :=
  monotone_nat_of_le_succ fun _ => Nat.le_add_right _ _

/-- The bytes of an argument lie in the block before the arguments that come after it. -/
theorem offset_inside (inside : i < n) (valid : shapeOf (typeOf types i) = some shape)
    (small : k < shape.bytes) : offset types i + k < offset types n := by
  obtain ⟨-, -, sized⟩ := shape_fits valid
  have through := offset_mono types (show i + 1 ≤ n from inside)
  rw [offset_succ valid] at through
  omega

/-- With `n` arguments taken, this one is in the registers that end where the one before it
began, its first byte in the lowest. Only `r16`, in which the loop looks at a type, holds the
last type if another argument came after. -/
def Carries (ram : AddressSpace 16) (block types : BitVec 16) (n i : Nat) (reg : Nat → Byte) :
    Prop :=
  ∀ shape, shapeOf (typeOf types i) = some shape → ∀ k < shape.bytes,
    reg (26 - used types (i + 1) + k) =
      if 26 - used types (i + 1) + k = 16 ∧ i + 1 < n then typeOf types (n - 1)
      else ram (block + BitVec.ofNat 16 (offset types i + k))

/-- What the loop leaves alone until the call. -/
structure Framed (caller cpu : Cpu) : Prop where
  kept : cpu.reg retv = caller.reg paramRetvL
  sp : cpu.sp = caller.sp - 5
  ram : cpu.ram = framed caller
  calls : cpu.calls = caller.calls

/-- At `_load` with the first arguments taken. -/
structure Loading (caller : Cpu) (i : Nat) (cpu : Cpu) : Prop extends Framed caller cpu where
  count : cpu.reg argc = caller.reg paramArgcL - BitVec.ofNat 8 i
  types : cpu.pair argtL = (caller.pair paramArgtL).sshiftRight (4 * i)
  pointed : Pointed (25 - used (caller.pair paramArgtL) i)
    (caller.pair paramArgvL + BitVec.ofNat 16 (offset (caller.pair paramArgtL) i)) cpu
  delivered : ∀ j < i, Carries (framed caller) (caller.pair paramArgvL) (caller.pair paramArgtL) i
    j cpu.reg

theorem entry (stacked : Stacked caller) :
    (.load, entered caller) ∈ enter (exec callee) text (.fmrCall, caller) ∧
    Loading caller 0 (entered caller) := by
  refine ⟨enter_next (entry_block callee stacked) rfl, ?_⟩
  exact
    { kept := rfl
      sp := rfl
      ram := rfl
      calls := rfl
      count := (BitVec.sub_zero _).symm
      types := by
        rw [Nat.mul_zero, BitVec.sshiftRight_zero]
        exact Cpu.pair_setPair caller argtL _
      pointed := ⟨rfl, rfl, (Cpu.pair_setPair caller ZL _).trans (BitVec.add_zero _).symm⟩
      delivered := fun _ less => absurd less (Nat.not_lt_zero _) }

theorem loading_step (loading : Loading caller i cpu)
    (room : used (caller.pair paramArgtL) (i + 1) ≤ 18)
    (more : caller.reg paramArgcL - BitVec.ofNat 8 i ≠ 0)
    (valid : shapeOf (typeOf (caller.pair paramArgtL) i) = some shape)
    (above : ∀ k < shape.bytes, 32 ≤ (caller.pair paramArgvL +
      BitVec.ofNat 16 (offset (caller.pair paramArgtL) i + k)).toNat) :
    ∃ next, Reaches (enter (exec callee) text) (.load, cpu) (.load, next) ∧
      Loading caller (i + 1) next := by
  have type : cpu.reg argtL &&& 7 = typeOf (caller.pair paramArgtL) i := by
    rw [← Cpu.setWidth_pair, loading.types, typeOf]
  obtain ⟨-, few, -⟩ := shape_fits valid
  have total := used_succ valid
  have length := offset_succ valid
  obtain ⟨y, aim⟩ : ∃ y, y + shape.registers = 25 - used (caller.pair paramArgtL) i :=
    ⟨25 - used (caller.pair paramArgtL) (i + 1), by omega⟩
  have pointed := loading.pointed
  rw [← aim] at pointed
  obtain ⟨taken, path, took⟩ := fetch callee pointed (by omega)
    (fun k less => by simpa [BitVec.ofNat_add, BitVec.add_assoc] using above k less)
    (loading.count ▸ more) (type ▸ valid)
  obtain ⟨next, ran, pair, count, keeps⟩ := loadDone_block callee taken
  have kept : ∀ r, r ≤ y ∨ y + shape.registers < r → r ∉ [0, 16, 26, 27, 30, 31] →
      taken.reg r = cpu.reg r := by
    intro r outside other
    simp only [List.mem_cons, List.not_mem_nil, or_false, not_or] at other
    rw [took.reg r outside (by simp [other]), Cpu.set_reg, if_neg other.2.1]
  have state : ∀ r ≤ 5, r ≠ 0 → taken.reg r = cpu.reg r :=
    fun r small positive => kept r (.inl (by omega)) (by simp; omega)
  refine ⟨next, path.tail (enter_jump ran), ?_⟩
  exact
    { kept := by rw [keeps.reg _ (by decide), state _ (by decide) (by decide), loading.kept]
      sp := keeps.sp.trans (took.sp.trans loading.sp)
      ram := keeps.ram.trans (took.ram.trans loading.ram)
      calls := keeps.calls.trans (took.calls.trans loading.calls)
      count := by
        rw [count, state _ (by decide) (by decide), loading.count, BitVec.ofNat_add, ← sub_sub]
        rfl
      types := by
        rw [pair, Cpu.pair_congr _ argtL cpu (state _ (by decide) (by decide))
          (state _ (by decide) (by decide)), loading.types, ← BitVec.sshiftRight_add, Nat.mul_add]
      pointed := by
        have after := took.pointed
        rw [BitVec.add_assoc, ← BitVec.ofNat_add, ← length,
          show y = 25 - used (caller.pair paramArgtL) (i + 1) by omega]
          at after
        exact ⟨(keeps.reg _ (by decide)).trans after.low,
          (keeps.reg _ (by decide)).trans after.high,
          (Cpu.pair_congr _ _ _ (keeps.reg _ (by decide)) (keeps.reg _ (by decide))).trans
            after.source⟩
      delivered := by
        intro j less shape' valid' k small
        obtain ⟨narrow, -, -⟩ := shape_fits valid'
        have total' := used_succ valid'
        rcases Nat.lt_succ_iff_lt_or_eq.mp less with before | rfl
        · have lower := used_mono (caller.pair paramArgtL) (show j + 1 ≤ i from before)
          rw [keeps.reg _ (by simp [argc, argtL, argtH]; omega)]
          by_cases scratch : 26 - used (caller.pair paramArgtL) (j + 1) + k = 16
          · rw [if_pos ⟨scratch, by omega⟩, scratch, took.reg 16 (by omega) (by decide),
              Cpu.set_reg, if_pos rfl, type]
            rfl
          · have earlier := loading.delivered j before shape' valid' k small
            rw [if_neg fun both => scratch both.1] at earlier ⊢
            rw [kept _ (by omega) (by simp; omega), earlier]
        · obtain rfl := Option.some.inj (valid.symm.trans valid')
          rw [keeps.reg _ (by simp [argc, argtL, argtH]; omega),
            if_neg fun both => Nat.lt_irrefl _ both.2,
            show 26 - used (caller.pair paramArgtL) (j + 1) = y + 1 by omega,
            took.bytes k small, Cpu.set_ram, loading.ram, BitVec.add_assoc, ← BitVec.ofNat_add] }

/-! ## The way back -/

theorem done_run (cpu : Cpu) (above : 31 ≤ cpu.sp.toNat) (room : cpu.sp.toNat + 5 < 2 ^ 16) :
    ∃ after, run (exec callee) text 1 (.done, cpu) = some after ∧
      after.pc = cpu.ram (cpu.sp + 4) ++ cpu.ram (cpu.sp + 5) ∧ after.sp = cpu.sp + 5 ∧
      after.reg argtH = cpu.ram (cpu.sp + 1) ∧ after.reg argtL = cpu.ram (cpu.sp + 2) ∧
      after.reg argc = cpu.ram (cpu.sp + 3) ∧
      (∀ r ∉ [argc, argtL, argtH], after.reg r = cpu.reg r) ∧
      after.ram = cpu.ram ∧ after.calls = cpu.calls := by
  have up : ∀ k l : BitVec 16, cpu.sp + k + l = cpu.sp + (k + l) := fun k l => add_assoc _ _ _
  have pops := pops_next callee cpu [argtH, argtL, argc] above (by simp; omega)
    [(.ret : Instr Label)]
  have reads : ∀ k : BitVec 16, 1 ≤ k.toNat → k.toNat ≤ 5 →
      (cpu.popped [argtH, argtL, argc]).read (cpu.sp + k) = cpu.ram (cpu.sp + k) := by
    intro k low high
    refine Cpu.read_ram _ ?_
    rw [BitVec.toNat_add]
    omega
  refine ⟨_, run_leave pops, ?_, ?_, ?_, ?_, ?_, ?_, rfl, rfl⟩
  · have high := reads 4 (by decide) (by decide)
    have low := reads 5 (by decide) (by decide)
    rw [show cpu.sp + 4 = cpu.sp + 1 + 1 + 1 + 1 by simp only [up]; rfl] at high ⊢
    rw [show cpu.sp + 5 = cpu.sp + 1 + 1 + 1 + 2 by simp only [up]; rfl] at low ⊢
    exact congrArg₂ (fun high low : Byte => (high ++ low : BitVec 16)) high low
  · change cpu.sp + 1 + 1 + 1 + 2 = _
    simp only [up]
    rfl
  · rfl
  · change cpu.ram (cpu.sp + 1 + 1) = _
    rw [up]
    rfl
  · change cpu.ram (cpu.sp + 1 + 1 + 1) = _
    rw [up, up]
    rfl
  · intro r outside
    simp only [List.mem_cons, List.not_mem_nil, or_false, not_or] at outside
    simp [Cpu.popped, outside]

def resultBytes (reg : Nat → Byte) : List Byte := (List.range 8).map fun k => reg (18 + k)

/-- What `fmr_call` makes of a result by its type. It never extends a sign, and the low byte of
a result of four bytes appears again above it. -/
def widened (type : Byte) (reg : Nat → Byte) : List Byte :=
  if type = 0 then [reg 24, 0, 0, 0, 0, 0, 0, 0]
  else if type = 1 ∨ type = 4 ∨ type = 6 then [reg 24, reg 25, 0, 0, 0, 0, 0, 0]
  else if type = 2 then [0, 0, 0, 0, 0, 0, 0, 0]
  else if type = 3 then [reg 22, reg 23, reg 24, reg 25, reg 22, 0, 0, 0]
  else if type = 7 then resultBytes reg
  else [0xFF, 0xFF, 0xFF, 0xFF, 0xFF, 0xFF, 0xFF, 0xFF]

/-- The blocks that look for the type of the result, each with the type it is for. -/
def returns : List (Byte × Label) :=
  [(0, .ret8), (1, .ret16), (2, .retVoid), (3, .ret32), (4, .retInt), (6, .retPtr), (7, .ret64)]

/-- Each block passes what is not its own on to the next, and the last to `_fail`. -/
def Linked : List (Byte × Label) → Prop
  | [] => True
  | (value, label) :: table =>
    (∃ rest, text.body label = .cpi 16 value :: .brne ((table.map Prod.snd).headD .fail) :: rest) ∧
    Linked table

theorem returns_linked : Linked returns :=
  ⟨⟨_, rfl⟩, ⟨_, rfl⟩, ⟨_, rfl⟩, ⟨_, rfl⟩, ⟨_, rfl⟩, ⟨_, rfl⟩, ⟨_, rfl⟩, trivial⟩

theorem walk (table : List (Byte × Label)) (linked : Linked table) (cpu : Cpu) :
    ∃ z c, Reaches (enter (exec callee) text) ((table.map Prod.snd).headD .fail, cpu)
      ((table.lookup (cpu.reg 16)).getD .fail, { cpu with z, c }) := by
  induction table generalizing cpu with
  | nil => exact ⟨cpu.z, cpu.c, .refl⟩
  | cons entry table ih =>
    obtain ⟨value, label⟩ := entry
    obtain ⟨⟨rest, body⟩, linked⟩ := linked
    by_cases same : cpu.reg 16 = value
    · rw [List.lookup_cons, beq_iff_eq.mpr same]
      exact ⟨cpu.z, cpu.c, .refl⟩
    · rw [List.lookup_cons, beq_eq_false_iff_ne.mpr same]
      have passes := runBlock_unless callee 16 rest value ((table.map Prod.snd).headD .fail) cpu
      rw [if_neg same, ← body] at passes
      obtain ⟨z, c, path⟩ := ih linked { cpu with z := false, c := (cpu.reg 16).ult value }
      exact ⟨z, c, .head (enter_jump passes) path⟩

/-- The result widened, and nothing else changed but the register of the type. -/
structure Widens (type : Byte) (cpu after : Cpu) : Prop where
  bytes : resultBytes after.reg = widened type cpu.reg
  reg : ∀ r, r < 18 ∨ 25 < r → after.reg r = cpu.reg r
  ram : after.ram = cpu.ram
  sp : after.sp = cpu.sp
  calls : after.calls = cpu.calls

section Tails

theorem matched (cpu : Cpu) (body : text.body label = .cpi 16 value :: .brne next :: rest)
    (type : cpu.reg 16 = value) :
    runBlock (exec callee) (text.body label) cpu =
      runBlock (exec callee) rest { cpu with z := true, c := false } := by
  rw [body, runBlock_unless, if_pos type]

/-- The bit that asks for a sign is one that `andi` has cleared. -/
theorem unsigned_done {straight : List (Instr Label)} (more : List (Instr Label))
    (ran : runBlock (exec callee) straight cpu = .next after)
    (clear : (after.reg 16).getLsbD 4 = false) :
    runBlock (exec callee) (straight ++ .sbrs 16 4 :: .rjmp .done :: more) cpu =
      .jump .done after := by
  have goes : exec callee (.sbrs 16 4 : Instr Label) after = .next after := by
    rw [exec, clear]
    rfl
  rw [runBlock_append _ ran, runBlock_next _ goes]
  rfl

theorem ret8_widens (cpu : Cpu) (type : cpu.reg 16 = 0) :
    ∃ after, Reaches (enter (exec callee) text) (.ret8, cpu) (.done, after) ∧
      Widens 0 cpu after := by
  have straight : runBlock (exec callee) [.clr 25, .mov 18 24, .clr 24, .clr 23, .clr 22, .clr 21,
      .clr 20, (.clr 19 : Instr Label)] { cpu with z := true, c := false } = .next _ := rfl
  refine ⟨_, .single (enter_jump
    ((matched callee cpu rfl type).trans (unsigned_done callee _ straight ?_))), rfl,
    fun r outside => ?_, rfl, rfl, rfl⟩
  · simp [type]
  · have apart : ∀ k, 18 ≤ k → k ≤ 25 → r ≠ k := by omega
    simp [apart]

theorem ret16Begin_widens (cpu : Cpu) (type : (cpu.reg 16).getLsbD 4 = false) :
    ∃ after, (.done, after) ∈ enter (exec callee) text (.ret16Begin, cpu) ∧ Widens 1 cpu after := by
  have straight : runBlock (exec callee) [.mov 19 25, .clr 25, .mov 18 24, .clr 24, .clr 23,
      .clr 22, .clr 21, (.clr 20 : Instr Label)] cpu = .next _ := rfl
  refine ⟨_, enter_jump (unsigned_done callee _ straight ?_), rfl, fun r outside => ?_, rfl,
    rfl, rfl⟩
  · simpa using type
  · have apart : ∀ k, 18 ≤ k → k ≤ 25 → r ≠ k := by omega
    simp [apart]

theorem ret16_widens (cpu : Cpu) (type : cpu.reg 16 = 1) :
    ∃ after, Reaches (enter (exec callee) text) (.ret16, cpu) (.done, after) ∧
      Widens 1 cpu after := by
  obtain ⟨after, last, widens⟩ :=
    ret16Begin_widens callee { cpu with z := true, c := false } (by simp [type])
  have falls : (.ret16Begin, _) ∈ enter (exec callee) text (.ret16, cpu) :=
    enter_next ((matched callee cpu rfl type).trans rfl) rfl
  exact ⟨after, .head falls (.single last), widens.bytes, widens.reg, widens.ram, widens.sp,
    widens.calls⟩

theorem retVoid_widens (cpu : Cpu) (type : cpu.reg 16 = 2) :
    ∃ after, Reaches (enter (exec callee) text) (.retVoid, cpu) (.done, after) ∧
      Widens 2 cpu after := by
  have straight : runBlock (exec callee) [.clr 25, .clr 24, .clr 23, .clr 22, .clr 21, .clr 20,
      .clr 19, .clr 18, (.rjmp .done : Instr Label)] { cpu with z := true, c := false } =
        .jump .done _ := rfl
  refine ⟨_, .single (enter_jump ((matched callee cpu rfl type).trans straight)), rfl,
    fun r outside => ?_, rfl, rfl, rfl⟩
  have apart : ∀ k, 18 ≤ k → k ≤ 25 → r ≠ k := by omega
  simp [apart]

theorem ret32_widens (cpu : Cpu) (type : cpu.reg 16 = 3) :
    ∃ after, Reaches (enter (exec callee) text) (.ret32, cpu) (.done, after) ∧
      Widens 3 cpu after := by
  have straight : runBlock (exec callee) [.mov 21 25, .clr 25, .mov 20 24, .clr 24, .mov 19 23,
      .clr 23, (.mov 18 22 : Instr Label)] { cpu with z := true, c := false } = .next _ := rfl
  refine ⟨_, .single (enter_jump
    ((matched callee cpu rfl type).trans (unsigned_done callee _ straight ?_))), rfl,
    fun r outside => ?_, rfl, rfl, rfl⟩
  · simp [type]
  · have apart : ∀ k, 18 ≤ k → k ≤ 25 → r ≠ k := by omega
    simp [apart]

/-- `sbr` takes a mask: it sets bit 2, which an `int` has, and not the bit that is tested. -/
theorem retInt_widens (cpu : Cpu) (type : cpu.reg 16 = 4) :
    ∃ after, Reaches (enter (exec callee) text) (.retInt, cpu) (.done, after) ∧
      Widens 4 cpu after := by
  let masked : Cpu := { cpu with z := true, c := false }.result 16 (cpu.reg 16 ||| 4)
  have jumps : (.ret16Begin, masked) ∈ enter (exec callee) text (.retInt, cpu) :=
    enter_jump ((matched callee cpu rfl type).trans rfl)
  have still : ∀ r, masked.reg r = cpu.reg r := by
    intro r
    simp only [masked, Cpu.result_reg]
    split
    case isTrue same => rw [same, type]; rfl
    case isFalse => rfl
  obtain ⟨after, last, widens⟩ := ret16Begin_widens callee masked (by rw [still, type]; rfl)
  refine ⟨after, .head jumps (.single last), ?_,
    fun r outside => (widens.reg r outside).trans (still r), widens.ram, widens.sp, widens.calls⟩
  rw [widens.bytes, funext still]
  rfl

theorem retPtr_widens (cpu : Cpu) (type : cpu.reg 16 = 6) :
    ∃ after, Reaches (enter (exec callee) text) (.retPtr, cpu) (.done, after) ∧
      Widens 6 cpu after := by
  obtain ⟨after, last, widens⟩ :=
    ret16Begin_widens callee { cpu with z := true, c := false } (by simp [type])
  have jumps : (.ret16Begin, _) ∈ enter (exec callee) text (.retPtr, cpu) :=
    enter_jump ((matched callee cpu rfl type).trans rfl)
  exact ⟨after, .head jumps (.single last), widens.bytes, widens.reg, widens.ram, widens.sp,
    widens.calls⟩

theorem ret64_widens (cpu : Cpu) (type : cpu.reg 16 = 7) :
    ∃ after, Reaches (enter (exec callee) text) (.ret64, cpu) (.done, after) ∧
      Widens 7 cpu after := by
  have jumps : (.done, { cpu with z := true, c := false }) ∈ enter (exec callee) text
    (.ret64, cpu) :=
    enter_jump ((matched callee cpu rfl type).trans rfl)
  exact ⟨_, .single jumps, rfl, fun _ _ => rfl, rfl, rfl, rfl⟩

theorem fail_widens (cpu : Cpu) :
    ∃ after, Reaches (enter (exec callee) text) (.fail, cpu) (.done, after) ∧
      Widens 5 cpu after := by
  refine ⟨_, .single (enter_next rfl rfl), rfl, fun r outside => ?_, rfl, rfl, rfl⟩
  have apart : ∀ k, 18 ≤ k → k ≤ 25 → r ≠ k := by omega
  simp [apart]

end Tails

/-- Every type finds its way from the first block to `_done`. -/
theorem ret_widens (cpu : Cpu) (type : cpu.reg 16 = x &&& 7) :
    ∃ after, Reaches (enter (exec callee) text) (.ret8, cpu) (.done, after) ∧
      Widens (x &&& 7) cpu after := by
  obtain ⟨z, c, path⟩ := walk callee returns returns_linked cpu
  let flagged : Cpu := { cpu with z, c }
  have joins : ∀ {label}, returns.lookup (x &&& 7) = label →
      (∃ after, Reaches (enter (exec callee) text) (label.getD .fail, flagged) (.done, after) ∧
        Widens (x &&& 7) flagged after) →
      ∃ after, Reaches (enter (exec callee) text) (.ret8, cpu) (.done, after) ∧
        Widens (x &&& 7) cpu after := by
    rintro label found ⟨after, rest, widens⟩
    rw [type, found] at path
    exact ⟨after, path.trans rest, widens.bytes, widens.reg, widens.ram, widens.sp, widens.calls⟩
  have known : flagged.reg 16 = x &&& 7 := type
  have small : (x &&& 7).toNat < 8 := by
    rw [BitVec.toNat_and]
    exact Nat.lt_succ_of_le Nat.and_le_right
  have spelled : x &&& 7 = BitVec.ofNat 8 (x &&& 7).toNat := by simp
  generalize (x &&& 7).toNat = i at small spelled
  rw [spelled] at joins known ⊢
  interval_cases i
  · exact joins rfl (ret8_widens callee flagged known)
  · exact joins rfl (ret16_widens callee flagged known)
  · exact joins rfl (retVoid_widens callee flagged known)
  · exact joins rfl (ret32_widens callee flagged known)
  · exact joins rfl (retInt_widens callee flagged known)
  · exact joins rfl (fail_widens callee flagged)
  · exact joins rfl (retPtr_widens callee flagged known)
  · exact joins rfl (ret64_widens callee flagged known)

/-! ## Whole calls -/

theorem widened_congr {reg reg' : Nat → Byte} (type : Byte)
    (same : ∀ r, 18 ≤ r → r ≤ 25 → reg r = reg' r) : widened type reg = widened type reg' := by
  have bytes : resultBytes reg = resultBytes reg' := by
    refine List.map_congr_left fun k inside => same _ (by omega) ?_
    have := List.mem_range.mp inside
    omega
  simp only [widened, bytes, same 22 (by decide) (by decide), same 23 (by decide) (by decide),
    same 24 (by decide) (by decide), same 25 (by decide) (by decide)]

/-- The registers a function has to keep, and the bytes of the frame above its own. -/
structure Conforms (callee : Callee) (caller : Cpu) : Prop where
  saved : ∀ target reg ram r, 2 ≤ r → r ≤ 17 → (callee target reg ram).1 r = reg r
  frame : ∀ target reg ram cell, (caller.sp + 2 - cell).toNat < 5 →
    (callee target reg ram).2.1 cell = ram cell

/-- Back in the caller, with the registers it pushed but not the one of the result's type. -/
structure Returned (caller after : Cpu) : Prop where
  pc : after.pc = caller.ram (caller.sp + 1) ++ caller.ram (caller.sp + 2)
  sp : after.sp = caller.sp + 2
  argc : after.reg argc = caller.reg argc
  argtL : after.reg argtL = caller.reg argtL
  argtH : after.reg argtH = caller.reg argtH
  retv : after.reg retv = caller.reg paramRetvL

theorem return_run (stacked : Stacked caller) (cpu : Cpu) (sp : cpu.sp = caller.sp - 3)
    (kept : ∀ cell, (caller.sp + 2 - cell).toNat < 5 → cpu.ram cell = framed caller cell)
    (type : cpu.reg retv = caller.reg paramRetvL) :
    ∃ after, run (exec callee) text 1 (.done, cpu) = some after ∧ Returned caller after ∧
      (∀ r ∉ [argc, argtL, argtH], after.reg r = cpu.reg r) ∧ after.ram = cpu.ram ∧
      after.calls = cpu.calls := by
  have low := stacked.below
  have high := stacked.above
  have top : cpu.sp.toNat = caller.sp.toNat - 3 := by
    rw [sp]
    exact BitVec.toNat_sub_of_le (BitVec.le_def.mpr (by change 3 ≤ _; omega))
  obtain ⟨after, ran, pc, back, h, l, c, regs, ram, calls⟩ :=
    done_run callee cpu (by omega) (by omega)
  obtain ⟨argcSlot, argtLSlot, argtHSlot, -⟩ := framed_slots caller
  -- The five bytes above the function's address, counted down from the return address.
  have reads : ∀ k : BitVec 16, k.toNat < 5 →
      cpu.ram (caller.sp + 2 - k) = framed caller (caller.sp + 2 - k) :=
    fun k small => kept _ (by rwa [sub_sub_cancel])
  have address : ∀ k : BitVec 16, k.toNat < 2 →
      cpu.ram (caller.sp + 2 - k) = caller.ram (caller.sp + 2 - k) := by
    intro k small
    rw [reads k (by omega)]
    refine framed_outside caller ?_
    have distance : caller.sp - (caller.sp + 2 - k) = k - 2 := by ring
    rw [distance]
    bv_omega
  refine ⟨after, ran, ?_, regs, ram, calls⟩
  rw [sp] at pc back h l c
  exact
    { pc := by
        rw [pc, show caller.sp - 3 + 4 = caller.sp + 2 - 1 by bv_omega,
          show caller.sp - 3 + 5 = caller.sp + 2 - 0 by bv_omega, address 1 (by decide),
            address 0 (by decide),
          show caller.sp + 2 - 1 = caller.sp + 1 by bv_omega,
            show caller.sp + 2 - 0 = caller.sp + 2 by bv_omega]
      sp := by
        rw [back]
        bv_omega
      argc := by
        rw [c, show caller.sp - 3 + 3 = caller.sp + 2 - 2 by bv_omega, reads 2 (by decide),
          show caller.sp + 2 - 2 = caller.sp by bv_omega, argcSlot]
      argtL := by
        rw [l, show caller.sp - 3 + 2 = caller.sp + 2 - 3 by bv_omega, reads 3 (by decide),
          show caller.sp + 2 - 3 = caller.sp - 1 by bv_omega, argtLSlot]
      argtH := by
        rw [h, show caller.sp - 3 + 1 = caller.sp + 2 - 4 by bv_omega, reads 4 (by decide),
          show caller.sp + 2 - 4 = caller.sp - 2 by bv_omega, argtHSlot]
      retv := (regs _ (by decide)).trans type }

/-- The packed arguments lie in memory and outside the frame that `fmr_call` writes. -/
structure Packed (caller : Cpu) (n : Nat) : Prop where
  above : ∀ k < offset (caller.pair paramArgtL) n,
    32 ≤ (caller.pair paramArgvL + BitVec.ofNat 16 k).toNat
  apart : ∀ k < offset (caller.pair paramArgtL) n,
    5 ≤ (caller.sp - (caller.pair paramArgvL + BitVec.ofNat 16 k)).toNat

theorem count_left {caller : Cpu} (count : (caller.reg paramArgcL).toNat = n) :
    ∀ i < n, caller.reg paramArgcL - BitVec.ofNat 8 i ≠ 0 := by
  intro i less
  bv_omega

theorem loading_all (stacked : Stacked caller)
    (above : ∀ k < offset (caller.pair paramArgtL) n,
      32 ≤ (caller.pair paramArgvL + BitVec.ofNat 16 k).toNat)
    (room : used (caller.pair paramArgtL) n ≤ 18)
    (more : ∀ i < n, caller.reg paramArgcL - BitVec.ofNat 8 i ≠ 0)
    (valid : ∀ i < n, (shapeOf (typeOf (caller.pair paramArgtL) i)).isSome) :
    ∃ cpu, Reaches (enter (exec callee) text) (.fmrCall, caller) (.load, cpu) ∧
      Loading caller n cpu := by
  induction n with
  | zero =>
    obtain ⟨entered, loading⟩ := entry callee stacked
    exact ⟨_, .single entered, loading⟩
  | succ n ih =>
    have shorter := used_mono (caller.pair paramArgtL) (show n ≤ n + 1 by omega)
    have before := offset_mono (caller.pair paramArgtL) (show n ≤ n + 1 by omega)
    obtain ⟨cpu, path, loading⟩ := ih (fun k less => above k (by omega)) (by omega)
      (fun i less => more i (by omega)) fun i less => valid i (by omega)
    obtain ⟨shape, known⟩ := Option.isSome_iff_exists.mp (valid n (by omega))
    obtain ⟨next, round, loaded⟩ := loading_step callee loading room (more n (by omega)) known
      fun k small => above _ (offset_inside (by omega) known small)
    exact ⟨next, path.trans round, loaded⟩

theorem call_run (conforms : Conforms callee caller) (stacked : Stacked caller)
    (holds : Framed caller cpu) (counted : cpu.reg argc = 0) :
    ∃ fuel after reg, run (exec callee) text fuel (.load, cpu) = some after ∧
      Returned caller after ∧
      after.calls = caller.calls ++ [⟨caller.pair paramFunctionL, reg, framed caller⟩] ∧
      (∀ r, r ≠ ZL → r ≠ ZH → reg r = cpu.reg r) ∧
      after.ram = (callee (caller.pair paramFunctionL) reg (framed caller)).2.1 ∧
      resultBytes after.reg = widened (caller.reg paramRetvL &&& 7)
        (callee (caller.pair paramFunctionL) reg (framed caller)).1 := by
  have low := stacked.below
  have high := stacked.above
  have leaves : (.call, { cpu with z := true }) ∈ enter (exec callee) text (.load, cpu) := by
    refine enter_jump ?_
    have jumps : exec callee (.breq Label.call) { cpu with z := cpu.reg argc == 0 } =
        .jump .call { cpu with z := true } := by
      simp only [exec, counted]
      rfl
    rw [body_load, runBlock_next _ rfl, runBlock.eq_def]
    simp only [jumps]
  have top : cpu.sp.toNat = caller.sp.toNat - 5 := by
    rw [holds.sp]
    exact BitVec.toNat_sub_of_le (BitVec.le_def.mpr (by change 5 ≤ _; omega))
  -- The address read back for the call is the one that was pushed.
  let popped := { cpu with z := true }.popped [ZL, ZH]
  have pops := pops_next callee { cpu with z := true } [ZL, ZH] (by change 31 ≤ cpu.sp.toNat; omega)
    (by change cpu.sp.toNat + 2 < _; omega) [.icall, .mov 16 retv, (.andi 16 7 : Instr Label)]
  have target : popped.pair ZL = caller.pair paramFunctionL := by
    have slots := framed_slots caller
    have first : popped.reg ZL = caller.reg paramFunctionL := by
      change cpu.ram (cpu.sp + 1) = _
      rw [holds.ram, holds.sp, show caller.sp - 5 + 1 = caller.sp - 4 by bv_omega, slots.2.2.2.2]
    have second : popped.reg ZH = caller.reg paramFunctionH := by
      change cpu.ram (cpu.sp + 1 + 1) = _
      rw [holds.ram, holds.sp, show caller.sp - 5 + 1 + 1 = caller.sp - 3 by bv_omega,
        slots.2.2.2.1]
    exact congrArg₂ (fun high low : Byte => (high ++ low : BitVec 16)) second first
  let called := callee (caller.pair paramFunctionL) popped.reg (framed caller)
  let back : Cpu :=
    { popped with
      reg := called.1, ram := called.2.1, z := called.2.2.1, c := called.2.2.2
      calls := caller.calls ++ [⟨caller.pair paramFunctionL, popped.reg, framed caller⟩] }
  have calls : exec callee (.icall : Instr Label) popped = .next back := by
    rw [exec, target, show popped.ram = framed caller from holds.ram,
      show popped.calls = caller.calls from holds.calls]
  let typed := (back.set 16 (back.reg retv)).result 16 (back.reg retv &&& 7)
  have falls : (.ret8, typed) ∈ enter (exec callee) text (.call, { cpu with z := true }) := by
    refine enter_next (pops.trans ((runBlock_next _ calls).trans ?_)) rfl
    rfl
  have type : back.reg retv = caller.reg paramRetvL :=
    (conforms.saved _ _ _ _ (by decide) (by decide)).trans holds.kept
  obtain ⟨wide, path, widens⟩ := ret_widens callee typed (x := back.reg retv) (by simp [typed])
  have sp : wide.sp = caller.sp - 3 := by
    rw [widens.sp]
    change cpu.sp + 1 + 1 = _
    rw [holds.sp]
    bv_omega
  obtain ⟨after, ran, returned, regs, ram, made⟩ := return_run callee stacked wide sp
    (fun cell inside => by rw [widens.ram]; exact conforms.frame _ _ _ _ inside)
    ((widens.reg _ (by decide)).trans type)
  obtain ⟨fuel, ran⟩ := run_reaches (.head leaves (.head falls path)) ⟨1, ran⟩
  refine ⟨fuel, after, popped.reg, ran, returned, made.trans widens.calls, ?_,
    ram.trans widens.ram, ?_⟩
  · intro r low high
    simp [popped, Cpu.popped, low, high]
  · have same : resultBytes after.reg = resultBytes wide.reg := by
      refine List.map_congr_left fun k inside => regs _ ?_
      simp [argc, argtL, argtH]
      omega
    rw [same, widens.bytes, type]
    refine widened_congr _ fun r low high => ?_
    simp [typed, back, show r ≠ 16 by omega]
    rfl

theorem fmrCall_delivers (conforms : Conforms callee caller) (stacked : Stacked caller)
    (packed : Packed caller n)
    (count : (caller.reg paramArgcL).toNat = n) (room : used (caller.pair paramArgtL) n ≤ 18)
    (valid : ∀ i < n, (shapeOf (typeOf (caller.pair paramArgtL) i)).isSome) :
    ∃ fuel after, run (exec callee) text fuel (.fmrCall, caller) = some after ∧
      Returned caller after ∧
      ∃ call, after.calls = caller.calls ++ [call] ∧ call.target = caller.pair paramFunctionL ∧
        (∀ i < n, Carries caller.ram (caller.pair paramArgvL) (caller.pair paramArgtL) n i
          call.reg) ∧
        (∀ cell, 5 ≤ (caller.sp - cell).toNat → call.ram cell = caller.ram cell) ∧
        after.ram = (callee call.target call.reg call.ram).2.1 ∧
        resultBytes after.reg =
          widened (caller.reg paramRetvL &&& 7) (callee call.target call.reg call.ram).1 := by
  obtain ⟨cpu, path, loading⟩ :=
    loading_all callee stacked packed.above room (count_left count) valid
  have counted : cpu.reg argc = 0 := by
    rw [loading.count, ← count, BitVec.ofNat_toNat, BitVec.setWidth_eq]
    exact BitVec.sub_self _
  obtain ⟨fuel, after, reg, ran, returned, calls, regs, ram, result⟩ :=
    call_run callee conforms stacked loading.toFramed counted
  obtain ⟨fuel, ran⟩ := run_reaches path ⟨fuel, ran⟩
  refine ⟨fuel, after, ran, returned, _, calls, rfl, ?_, fun cell => framed_outside caller,
    ram, result⟩
  intro i inside shape known k small
  obtain ⟨narrow, few, -⟩ := shape_fits known
  have total := used_succ known
  change reg _ = _
  rw [regs _ (by simp only [ZL]; omega) (by simp only [ZH]; omega),
    loading.delivered i inside shape known k small,
    framed_outside caller (packed.apart _ (offset_inside inside known small))]

/-- A function that returns with everything as it is. -/
def still : Callee := fun _ reg ram => (reg, ram, false, false)

/-- A caller of `fmr_call` with bytes 1, 2, 3, … packed at 0x200. -/
def packedCaller (count : Byte) (types : BitVec 16) : Cpu where
  reg
    | 25 => 0x12
    | 24 => 0x34
    | 20 => count
    | 19 => types.extractLsb' 8 8
    | 18 => types.setWidth 8
    | 17 => 0x02
    | _ => 0
  ram cell := cell.setWidth 8 + 1
  sp := 0x400
  z := false
  c := false
  cycle := 0
  ports := []
  pc := 0
  calls := []

/-- Three arguments of four bytes and one of one byte: the eleventh byte of the block does not
arrive in `r16`. -/
theorem fmrCall_delivers_scratch : ∃ fuel after,
    run (exec still) text fuel (.fmrCall, packedCaller 4 0x0333) = some after ∧
      ∃ call, after.calls = [call] ∧ call.target = 0x1234 ∧ call.reg 22 = 1 ∧ call.reg 15 = 10 ∧
        call.reg 16 = 0 := by
  have conforms : Conforms still (packedCaller 4 0x0333) :=
    ⟨fun _ _ _ _ _ _ => rfl, fun _ _ _ _ _ => rfl⟩
  obtain ⟨fuel, after, ran, -, call, calls, target, carries, -⟩ :=
    fmrCall_delivers (n := 4) still conforms
    ⟨by decide, by decide⟩ ⟨by decide, by decide⟩ rfl (by decide) (by decide)
  refine ⟨fuel, after, ran, call, calls, target, ?_, ?_, ?_⟩
  · exact (carries 0 (by decide) _ rfl 0 (by decide)).trans (by decide)
  · exact (carries 2 (by decide) _ rfl 1 (by decide)).trans (by decide)
  · exact (carries 2 (by decide) _ rfl 2 (by decide)).trans (by decide)

theorem shapeOf_none (invalid : shapeOf type = none) :
    type = 7 ∨ loads.lookup type = none := by
  unfold shapeOf at invalid
  split_ifs at invalid with zero one three pointer
  by_cases seven : type = 7
  · exact .inl seven
  · refine .inr (List.lookup_eq_none_iff.mpr ?_)
    simp only [not_or] at pointer
    simpa [loads] using ⟨zero, one, three, pointer.1, pointer.2, seven⟩

theorem reject_reaches (cpu : Cpu) (more : cpu.reg argc ≠ 0)
    (invalid : shapeOf (cpu.reg argtL &&& 7) = none) :
    ∃ z c, Reaches (enter (exec callee) text) (.load, cpu)
      (.fail, { cpu.set 16 (cpu.reg argtL &&& 7) with z, c }) := by
  obtain ⟨z, selects⟩ := load_select callee cpu more
  rcases shapeOf_none invalid with seven | missing
  · have found := (comparison callee 16).found [.rjmp Label.fail]
      { cpu.set 16 (cpu.reg argtL &&& 7) with z }
      (by rw [Cpu.set_reg, if_pos rfl, seven]; rfl : loads.lookup _ = some .load64)
    exact ⟨true, false, .head (enter_jump (selects.trans found)) (.single (enter_jump rfl))⟩
  · obtain ⟨z', c, missed⟩ := select_missed callee 16 [.rjmp Label.fail]
      { cpu.set 16 (cpu.reg argtL &&& 7) with z } (by simpa using missing)
    exact ⟨z', c, .single (enter_jump (selects.trans missed))⟩

/-- The shifts keep the sign: from the fifth argument on all have one type. -/
theorem typeOf_sign (types : BitVec 16) (beyond : 4 ≤ i) : typeOf types i = typeOf types 4 := by
  have shifted : types.sshiftRight (4 * i) = types.sshiftRight (4 * 4) := by
    ext k inside
    simp only [BitVec.getElem_sshiftRight]
    rw [dif_neg (by omega), dif_neg (by omega)]
  rw [typeOf, typeOf, shifted]

theorem used_le (types : BitVec 16) (n : Nat) : used types n ≤ 4 * n := by
  induction n with
  | zero => exact Nat.le_refl 0
  | succ n ih =>
    rw [used]
    cases known : shapeOf (typeOf types n) with
    | none =>
      change used types n + 0 ≤ _
      omega
    | some shape =>
      obtain ⟨-, few, -⟩ := shape_fits known
      change used types n + shape.registers ≤ _
      omega

/-- An unknown type comes early or not at all. -/
theorem first_unknown (known : ∀ j < i, (shapeOf (typeOf types j)).isSome)
    (unknown : shapeOf (typeOf types i) = none) : i ≤ 4 := by
  by_contra late
  have fifth := known 4 (by omega)
  rw [← typeOf_sign types (by omega : 4 ≤ i), unknown] at fifth
  cases fifth

/-- A type the loop does not know ends it with the function's address still on the stack, so
that the three registers popped are the wrong ones and so is the address returned to. -/
theorem fmrCall_rejects (stacked : Stacked caller)
    (inside : i < (caller.reg paramArgcL).toNat)
    (known : ∀ j < i, (shapeOf (typeOf (caller.pair paramArgtL) j)).isSome)
    (unknown : shapeOf (typeOf (caller.pair paramArgtL) i) = none)
    (above : ∀ k < offset (caller.pair paramArgtL) i,
      32 ≤ (caller.pair paramArgvL + BitVec.ofNat 16 k).toNat) :
    ∃ fuel after, run (exec callee) text fuel (.fmrCall, caller) = some after ∧
      after.calls = caller.calls ∧
      after.pc = caller.reg argtL ++ caller.reg argc ∧ after.sp = caller.sp ∧
      after.reg argc = caller.reg argtH ∧ after.reg argtL = caller.reg paramFunctionH ∧
      after.reg argtH = caller.reg paramFunctionL ∧
      resultBytes after.reg = List.replicate 8 0xFF := by
  have room : used (caller.pair paramArgtL) i ≤ 18 := by
    have early := first_unknown known unknown
    have few := used_le (caller.pair paramArgtL) i
    omega
  have more : ∀ j < (caller.reg paramArgcL).toNat, caller.reg paramArgcL - BitVec.ofNat 8 j ≠ 0 :=
    count_left rfl
  obtain ⟨cpu, path, loading⟩ := loading_all callee stacked above room
    (fun j less => more j (less.trans inside)) known
  have type : cpu.reg argtL &&& 7 = typeOf (caller.pair paramArgtL) i := by
    rw [← Cpu.setWidth_pair, loading.types, typeOf]
  obtain ⟨z, c, rejected⟩ := reject_reaches callee cpu (loading.count ▸ more i inside)
    (type ▸ unknown)
  obtain ⟨failed, fails, widens⟩ :=
    fail_widens callee { cpu.set 16 (cpu.reg argtL &&& 7) with z, c }
  have sp : failed.sp = caller.sp - 5 := widens.sp.trans loading.sp
  have ram : failed.ram = framed caller := widens.ram.trans loading.ram
  have low := stacked.below
  have high := stacked.above
  have top : failed.sp.toNat = caller.sp.toNat - 5 := by
    rw [sp]
    exact BitVec.toNat_sub_of_le (BitVec.le_def.mpr (by change 5 ≤ _; omega))
  obtain ⟨after, ran, pc, back, h, l, count', regs, -, calls⟩ :=
    done_run callee failed (by omega) (by omega)
  obtain ⟨fuel, ran⟩ := run_reaches (path.trans (rejected.trans fails)) ⟨1, ran⟩
  obtain ⟨slot, slot₁, slot₂, slot₃, slot₄⟩ := framed_slots caller
  rw [ram, sp] at pc h l count'
  refine ⟨fuel, after, ran, calls.trans (widens.calls.trans loading.calls), ?_, ?_, ?_, ?_, ?_, ?_⟩
  · rw [pc, show caller.sp - 5 + 4 = caller.sp - 1 by bv_omega,
      show caller.sp - 5 + 5 = caller.sp by bv_omega, slot, slot₁]
  · rw [back, sp]
    exact sub_add_cancel _ _
  · rw [count', show caller.sp - 5 + 3 = caller.sp - 2 by bv_omega, slot₂]
  · rw [l, show caller.sp - 5 + 2 = caller.sp - 3 by bv_omega, slot₃]
  · rw [h, show caller.sp - 5 + 1 = caller.sp - 4 by bv_omega, slot₄]
  · have same : resultBytes after.reg = resultBytes failed.reg := by
      refine List.map_congr_left fun k _ => regs _ ?_
      simp [argc, argtL, argtH]
      omega
    rw [same, widens.bytes]
    rfl

/-- Five arguments, of which the fourth has the sign: the fifth is taken for eight bytes. -/
theorem fmrCall_rejects_double : ∃ fuel after,
    run (exec still) text fuel (.fmrCall, packedCaller 5 0x8333) = some after ∧ after.calls = [] ∧
      after.pc = 0 ∧ after.reg argtL = 0x12 ∧ after.reg argtH = 0x34 := by
  have stacked : Stacked (packedCaller 5 0x8333) := ⟨by decide, by decide⟩
  obtain ⟨fuel, after, ran, calls, pc, -, -, low, high, -⟩ :=
    fmrCall_rejects (i := 4) still stacked (by decide) (by decide) (by decide) (by decide)
  exact ⟨fuel, after, ran, calls, pc, low, high⟩

end Flipper.Arch.Avr
