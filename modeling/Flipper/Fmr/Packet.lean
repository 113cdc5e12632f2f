import Flipper.Fmr.Error

/-! Wire layout of `lib/fmr.h`. All structures are packed and little-endian; a
packet is the first 64 bytes of a memory that goes on after it. -/
namespace Flipper.Fmr
open Binary

def fmrPacketSize : Nat := 64

def fmrMagicNumber : Byte := 0xFE

def fmrMaxArgc : Nat := 16

/-- Packet classes, in the order of the enumeration. -/
inductive FmrClass where
  | rpc | push | pull | dyld | malloc | free
  deriving DecidableEq, Repr

def FmrClass.code (cls : FmrClass) : Byte := BitVec.ofNat 8 cls.ctorIdx

def fmrClassCount : Byte := 6

abbrev LfType := Byte

def lfUintT : LfType := 0
def lfPtrT : LfType := 2
def lfUint64T : LfType := 3
def lfIntT : LfType := 4
def lfVoidT : LfType := 6
def lfUint8T : LfType := 16
def lfUint16T : LfType := 17
def lfUint32T : LfType := 19
def lfInt8T : LfType := 24
def lfInt16T : LfType := 25
def lfInt32T : LfType := 27
def lfInt64T : LfType := 31

/-- The width in bytes of a value of the type. Every code the switch does not
list, `lfUintT` and `lfVoidT` included, has width zero. -/
def lfSizeof (type : LfType) : Nat :=
  if type = lfUint8T ∨ type = lfInt8T then 1
  else if type = lfUint16T ∨ type = lfInt16T then 2
  else if type = lfUint32T ∨ type = lfIntT ∨ type = lfInt32T then 4
  else if type = lfUint64T ∨ type = lfInt64T ∨ type = lfPtrT then 8
  else 0

theorem lfSizeof_le (type : LfType) : lfSizeof type ≤ 8 := by
  unfold lfSizeof
  split_ifs <;> decide

structure LfArg where
  type : LfType
  value : BitVec 64
  deriving DecidableEq

def argsSize (args : List LfArg) : Nat := (args.map fun arg => lfSizeof arg.type).sum

@[simp] theorem argsSize_nil : argsSize [] = 0 := rfl

@[simp] theorem argsSize_cons (arg : LfArg) (args : List LfArg) :
    argsSize (arg :: args) = lfSizeof arg.type + argsSize args := by
  simp [argsSize]

theorem argsSize_le (args : List LfArg) : argsSize args ≤ 8 * args.length := by
  induction args with
  | nil => rfl
  | cons arg args ih =>
    have narrow := lfSizeof_le arg.type
    rw [argsSize_cons, List.length_cons]
    omega

/-! `struct _fmr_header`: magic, crc, len and type in six bytes. -/

def headerSize : Nat := 6

def hdrMagic (m : Mem) : Byte := m 0

def hdrCrc (m : Mem) : BitVec 16 := m 2 ++ m 1

def hdrLen (m : Mem) : BitVec 16 := m 4 ++ m 3

def hdrType (m : Mem) : Byte := m 5

def setMagic (m : Mem) (magic : Byte) : Mem := m.set 0 magic

def setCrc (m : Mem) (crc : BitVec 16) : Mem := m.copy 1 2 (byteOf crc)

def setLen (m : Mem) (len : BitVec 16) : Mem := m.copy 3 2 (byteOf len)

def setType (m : Mem) (type : Byte) : Mem := m.set 5 type

/-! `struct _fmr_call`, after the header: module, function, ret, argc, sixteen
argument types and the argument values. -/

def callSize : Nat := 20

def callModule (m : Mem) : Byte := m 6

def callFunction (m : Mem) : Byte := m 7

def callRet (m : Mem) : Byte := m 8

def callArgc (m : Mem) : Byte := m 9

def argTypesOffset : Nat := 10

def argvOffset : Nat := 26

/-- `call->arg_types[index]`, whatever the index. -/
def argType (m : Mem) (index : Nat) : LfType := m (argTypesOffset + index)

structure FmrResult where
  value : BitVec 64
  error : Byte
  deriving DecidableEq

def resultSize : Nat := 9

def FmrResult.mem (result : FmrResult) : Mem :=
  fun i => if i < 8 then byteOf result.value i else result.error

def FmrResult.bytes (result : FmrResult) : List Byte := Mem.slice result.mem 0 resultSize

def FmrResult.ofMem (m : Mem) : FmrResult := ⟨word64 m, m 8⟩

/-- What the device writes is what the host reads. -/
theorem FmrResult.ofMem_overlay (m : Mem) (result : FmrResult) :
    FmrResult.ofMem (m.overlay result.bytes) = result := by
  have bytes : ∀ i < resultSize, m.overlay result.bytes i = result.mem i :=
    fun i inside => Mem.overlay_slice m result.mem inside
  have value : word64 (m.overlay result.bytes) = result.value := by
    have same : ∀ i < 8, m.overlay result.bytes i = byteOf result.value i := by
      intro i inside
      rw [bytes i (by unfold resultSize; omega)]
      exact if_pos inside
    rw [word64_congr same, word64_byteOf]
  rw [FmrResult.ofMem, value, bytes 8 (by decide)]
  rfl

theorem FmrResult.bytes_injective : Function.Injective FmrResult.bytes := by
  intro first second same
  have read := FmrResult.ofMem_overlay (fun _ => 0) first
  rw [same, FmrResult.ofMem_overlay] at read
  exact read.symm

theorem header_congr {m m' : Mem} (same : ∀ i < headerSize, m i = m' i) :
    hdrMagic m = hdrMagic m' ∧ hdrCrc m = hdrCrc m' ∧ hdrLen m = hdrLen m' ∧
    hdrType m = hdrType m' := by
  unfold hdrMagic hdrCrc hdrLen hdrType
  rw [same 0 (by decide), same 1 (by decide), same 2 (by decide), same 3 (by decide),
    same 4 (by decide), same 5 (by decide)]
  exact ⟨rfl, rfl, rfl, rfl⟩

section Header
variable (m : Mem)

theorem byteOf_append (word : BitVec 16) : (byteOf word 1 ++ byteOf word 0 : BitVec 16) = word := by
  apply BitVec.eq_of_getLsbD_eq
  intro i inside
  rw [BitVec.getLsbD_append]
  by_cases low : i < 8
  · simp [byteOf, low]
  · have high : i - 8 < 8 := by omega
    simp [byteOf, low, high, show 8 + (i - 8) = i by omega]

@[simp] theorem hdrCrc_setCrc (crc : BitVec 16) : hdrCrc (setCrc m crc) = crc := byteOf_append crc

@[simp] theorem hdrLen_setLen (len : BitVec 16) : hdrLen (setLen m len) = len := byteOf_append len

@[simp] theorem hdrLen_setType (type : Byte) : hdrLen (setType m type) = hdrLen m := rfl

theorem hdrLen_copy (src : Mem) (beyond : headerSize ≤ offset) :
    hdrLen (m.copy offset count src) = hdrLen m :=
  (header_congr fun _ inside =>
    Mem.copy_outside _ _ _ _ (Or.inl (Nat.lt_of_lt_of_le inside beyond))).2.2.1

theorem hdrLen_set (byte : Byte) (beyond : headerSize ≤ offset) :
    hdrLen (m.set offset byte) = hdrLen m :=
  (header_congr fun _ inside =>
    Mem.set_other _ _ (Nat.ne_of_lt (Nat.lt_of_lt_of_le inside beyond))).2.2.1

@[simp] theorem hdrLen_setCrc (crc : BitVec 16) : hdrLen (setCrc m crc) = hdrLen m := rfl

@[simp] theorem hdrType_setCrc (crc : BitVec 16) : hdrType (setCrc m crc) = hdrType m := rfl

theorem setCrc_at (crc : BitVec 16) (other : i ≠ 1 ∧ i ≠ 2) : setCrc m crc i = m i :=
  Mem.copy_outside _ _ _ _ (by omega)

theorem setCrc_hdrCrc : setCrc m (hdrCrc m) = m := by
  funext i
  by_cases field : i ≠ 1 ∧ i ≠ 2
  · exact setCrc_at m _ field
  · have low : byteOf (m 2 ++ m 1) 0 = m 1 := by
      apply BitVec.eq_of_getLsbD_eq
      intro k inside
      rw [byteOf, BitVec.getLsbD_setWidth, BitVec.getLsbD_ushiftRight, BitVec.getLsbD_append]
      simp [inside]
    have high : byteOf (m 2 ++ m 1) 1 = m 2 := by
      apply BitVec.eq_of_getLsbD_eq
      intro k inside
      rw [byteOf, BitVec.getLsbD_setWidth, BitVec.getLsbD_ushiftRight, BitVec.getLsbD_append]
      simp [inside]
    rcases (by omega : i = 1 ∨ i = 2) with rfl | rfl
    · exact low
    · exact high

/-- Clearing the field forgets what it held. -/
@[simp] theorem setCrc_setCrc (first second : BitVec 16) :
    setCrc (setCrc m first) second = setCrc m second := by
  funext i
  unfold setCrc Mem.copy
  split <;> rfl

end Header
end Flipper.Fmr
