import Flipper.Binary.AddressSpace
import Flipper.Fmr.Perform

/-! Where the operands of a push, a pull, an allocation and a release come from. The
handlers take them from behind the packet buffer, so two runs on one packet agree
exactly when the memories behind it name the same operands. -/
namespace Flipper.Fmr
open Binary Effect

section World
variable {σ : Type}

/-- State pointers lead into real memory; everything else is up to `far`. -/
def onMemory (far : World fmr (AddressSpace 64 × σ)) : World fmr (AddressSpace 64 × σ) where
  answer op s := match op with
    | .load address length => (s.1.load address length, s)
    | .store address bytes => ((), s.1.store address bytes, s.2)
    | op => far.answer op s

/-- What is written to the transport and the state that is left. -/
def effects (world : World fmr σ) (s : σ) (program : FmrProg α) : List (List Byte) × σ :=
  let outcome := program.run world s
  (sent outcome.trace, outcome.state)

end World

/-- One packet in front of two memories has the same effects, whatever the module
state holds and however the environment answers. -/
def SameEffects (registry : Registry) (device : LfDevice) (packet rest rest' : Mem) : Prop :=
  ∀ (σ : Type) (far : World fmr (AddressSpace 64 × σ)) (s : AddressSpace 64 × σ),
    effects (onMemory far) s (fmrPerform (fmrInit registry) device (delivered packet rest)) =
      effects (onMemory far) s (fmrPerform (fmrInit registry) device (delivered packet rest'))

/-- The bytes a push copies and where to, when it finds state and copies any. -/
def pushed (device : LfDevice) (m : Mem) : Option (BitVec 64 × List Byte) := do
  let state ← operandState device m
  if operands m 2 = 0 then none
  else some (state + (operands m 1).setWidth 64, Mem.slice (operands m) 3 (operands m 2).toNat)

/-- The cells a pull sends, when it finds state. -/
def pulled (device : LfDevice) (m : Mem) : Option (List (BitVec 64)) :=
  (operandState device m).map fun state =>
    cells (state + (operands m 1).setWidth 64) (operands m 2).toNat

/-- The classes whose operands are neither a call nor a name. -/
inductive OperandClass where
  | push | pull | malloc | free

def OperandClass.toClass : OperandClass → FmrClass
  | .push => .push
  | .pull => .pull
  | .malloc => .malloc
  | .free => .free

/-- Two memories give the handler the same operands. -/
def OperandClass.SameOperands (device : LfDevice) (m m' : Mem) : OperandClass → Prop
  | .push => pushed device m = pushed device m'
  | .pull => pulled device m = pulled device m'
  | .malloc | .free => word64 (operands m) = word64 (operands m')

section Operands
variable (device : LfDevice) (packet rest : Mem)

@[simp] theorem operands_cleared : operands (setCrc (delivered packet rest) 0) = operands rest := by
  rw [operands_setCrc, operands_delivered]

@[simp] theorem operandState_cleared :
    operandState device (setCrc (delivered packet rest) 0) = operandState device rest := by
  simp only [operandState, operands_cleared]

theorem pushed_some {m : Mem} (found : pushed device m = some (address, bytes)) :
    bytes ≠ [] ∧ bytes.length < 256 := by
  obtain ⟨state, _, copied⟩ := Option.bind_eq_some_iff.mp found
  split at copied
  · cases copied
  · rename_i positive
    cases copied
    constructor
    · intro empty
      have length := congrArg List.length empty
      rw [Mem.slice_length, List.length_nil] at length
      exact positive (BitVec.eq_of_toNat_eq length)
    · rw [Mem.slice_length]
      exact (operands m 2).isLt

end Operands

/-- What a handler leaves for `fmr_perform`: value and error, bytes sent, state. -/
def handled (world : World fmr σ) (s : σ) (program : FmrProg HandlerReturn) :
    FmrResult × List (List Byte) × σ :=
  let returned := program.run world s
  (⟨returned.value.retval, returned.value.err⟩, sent returned.trace, returned.state)

/-- The result is written after whatever the handler sent. -/
def finish (world : World fmr σ) (after : FmrResult × List (List Byte) × σ) :
    List (List Byte) × σ :=
  (after.2.1 ++ [after.1.bytes], (world.answer (Op.write after.1.bytes) after.2.2).2)

theorem effects_perform (registry : Registry) {device : LfDevice} (world : World fmr σ) (s : σ)
    {m : Mem} {cls : FmrClass} (accepted : Accepted m) (loaded : device.modules ≠ [])
    (typed : hdrType m = cls.code) :
    effects world s (fmrPerform (fmrInit registry) device m) =
      finish world (handled world s (cls.handler device (setCrc m 0) 0 LfErr.eOk.code)) := by
  rw [effects, run_dispatched _ _ _ _ accepted loaded typed]
  simp only [sent_noted, sent_append]
  rfl

theorem effects_unloaded (registry : Registry) {device : LfDevice} (world : World fmr σ) (s : σ)
    {m : Mem} (accepted : Accepted m) (unloaded : device.modules = []) :
    effects world s (fmrPerform (fmrInit registry) device m) =
      finish world (⟨0, LfErr.eNull.code⟩, [], s) := by
  rw [effects, run_unloaded _ _ _ _ accepted unloaded]
  rfl

/-! Each handler in terms of its operands. -/

section Handled
variable {σ : Type} (far : World fmr (AddressSpace 64 × σ)) (s : AddressSpace 64 × σ)
variable (device : LfDevice) (m : Mem)

theorem handled_push :
    handled (onMemory far) s (fmrPush device m 0 LfErr.eOk.code) =
      (⟨0, LfErr.eOk.code⟩, [],
        ((pushed device m).elim s.1 fun (address, bytes) => s.1.store address bytes), s.2) := by
  cases found : operandState device m with
  | none => simp [handled, fmrPush, pushed, found]
  | some state =>
    have run : handled (onMemory far) s (fmrPush device m 0 LfErr.eOk.code) =
        (⟨0, LfErr.eOk.code⟩, [], s.1.store (state + (operands m 1).setWidth 64)
          (Mem.slice (operands m) 3 (operands m 2).toNat), s.2) := by
      rw [handled, fmrPush, found]
      rfl
    by_cases empty : operands m 2 = 0
    · rw [run, pushed, found, Option.bind_eq_bind, Option.bind_some, if_pos empty, empty]
      rfl
    · rw [run, pushed, found, Option.bind_eq_bind, Option.bind_some, if_neg empty]
      rfl

/-- `fmr_pull` after it wrote the bytes. -/
def pullAnswer (bytes : List Byte) : FmrResult × List (List Byte) × AddressSpace 64 × σ :=
  let reply := far.answer (Op.write bytes) s
  (⟨if reply.1.status = lfSuccess then 0 else -1, reply.1.err.getD LfErr.eOk.code⟩, [bytes],
    reply.2)

theorem handled_pull :
    handled (onMemory far) s (fmrPull device m 0 LfErr.eOk.code) =
      (pulled device m).elim (⟨0, LfErr.eOk.code⟩, [], s) fun read =>
        pullAnswer far s (read.map s.1) := by
  cases found : operandState device m with
  | none => simp [handled, fmrPull, pulled, found]
  | some state =>
    rw [handled, fmrPull, pulled, found]
    rfl

/-- The operands are all that a handler takes from behind the packet. -/
theorem OperandClass.handled_congr {m m' : Mem} {kind : OperandClass}
    (same : kind.SameOperands device m m') :
    handled (onMemory far) s (kind.toClass.handler device m 0 LfErr.eOk.code) =
      handled (onMemory far) s (kind.toClass.handler device m' 0 LfErr.eOk.code) := by
  cases kind with
  | push =>
    have same : pushed device m = pushed device m' := same
    simp only [toClass, FmrClass.handler, handled_push, same]
  | pull =>
    have same : pulled device m = pulled device m' := same
    simp only [toClass, FmrClass.handler, handled_pull, same]
  | malloc =>
    have same : word64 (operands m) = word64 (operands m') := same
    simp only [toClass, FmrClass.handler, fmrMalloc, same]
  | free =>
    have same : word64 (operands m) = word64 (operands m') := same
    simp only [toClass, FmrClass.handler, fmrFree, same]

end Handled

/-! The operands show in the effects. -/

/-- An environment that remembers the last size or pointer the allocator was given. -/
def recording : World fmr (AddressSpace 64 × Nat) where
  answer op s := match op with
    | .malloc size => (none, s.1, size)
    | .free ptr => ((), s.1, ptr.toNat)
    | op => ((obliging.answer op ()).1, s)

section Shown
variable {device : LfDevice} {m m' : Mem}

theorem pushed_shown
    (same : ∀ memory : AddressSpace 64,
      ((pushed device m).elim memory fun (address, bytes) => memory.store address bytes) =
        (pushed device m').elim memory fun (address, bytes) => memory.store address bytes) :
    pushed device m = pushed device m' := by
  cases first : pushed device m with
  | none =>
    cases second : pushed device m' with
    | none => rfl
    | some target =>
      simp only [first, second, Option.elim] at same
      exact absurd (AddressSpace.nil_of_store fun memory => (same memory).symm)
        (pushed_some device second).1
  | some target =>
    cases second : pushed device m' with
    | none =>
      simp only [first, second, Option.elim] at same
      exact absurd (AddressSpace.nil_of_store same) (pushed_some device first).1
    | some target' =>
      obtain ⟨nonempty, short⟩ := pushed_some device first
      obtain ⟨nonempty', short'⟩ := pushed_some device second
      simp only [first, second, Option.elim] at same
      obtain ⟨address, bytes⟩ := AddressSpace.store_injective nonempty nonempty' (by omega) same
      exact congrArg some (Prod.ext address bytes)

theorem pulled_shown
    (same : ∀ s : AddressSpace 64 × Nat,
      (handled (onMemory recording) s (fmrPull device m 0 LfErr.eOk.code)).2.1 =
        (handled (onMemory recording) s (fmrPull device m' 0 LfErr.eOk.code)).2.1) :
    pulled device m = pulled device m' := by
  simp only [handled_pull] at same
  cases first : pulled device m with
  | none =>
    cases second : pulled device m' with
    | none => rfl
    | some read =>
      have lengths := same (fun _ => 0, 0)
      rw [first, second] at lengths
      cases lengths
  | some read =>
    cases second : pulled device m' with
    | none =>
      have lengths := same (fun _ => 0, 0)
      rw [first, second] at lengths
      cases lengths
    | some read' =>
      simp only [first, second, Option.elim, pullAnswer, List.cons.injEq, and_true] at same
      exact congrArg some (AddressSpace.cells_of_loads fun memory => same (memory, 0))

/-- Runs that end alike in the recording environment had the same operands. -/
theorem OperandClass.operands_shown {kind : OperandClass}
    (same : ∀ s, finish (onMemory recording)
        (handled (onMemory recording) s (kind.toClass.handler device m 0 LfErr.eOk.code)) =
      finish (onMemory recording)
        (handled (onMemory recording) s (kind.toClass.handler device m' 0 LfErr.eOk.code))) :
    kind.SameOperands device m m' := by
  cases kind with
  | push =>
    apply pushed_shown
    intro memory
    have states := congrArg (fun effect => effect.2.1) (same (memory, 0))
    change (handled (onMemory recording) (memory, 0) (fmrPush device m 0 LfErr.eOk.code)).2.2.1 =
      (handled (onMemory recording) (memory, 0)
        (fmrPush device m' 0 LfErr.eOk.code)).2.2.1 at states
    rwa [handled_push, handled_push] at states
  | pull =>
    apply pulled_shown
    intro s
    exact List.append_inj_left' (congrArg Prod.fst (same s)) rfl
  | malloc =>
    exact BitVec.eq_of_toNat_eq (congrArg (fun effect => effect.2.2) (same (fun _ => 0, 0)))
  | free => exact BitVec.eq_of_toNat_eq (congrArg (fun effect => effect.2.2) (same (fun _ => 0, 0)))

end Shown

/-- An accepted packet has the same effects in front of two memories exactly when the
device has no modules or the memories behind the packet name the same operands. -/
theorem operands_from_packet_iff (registry : Registry) (device : LfDevice) (packet rest rest' : Mem)
    (kind : OperandClass) (typed : hdrType packet = kind.toClass.code)
    (accepted : Accepted (delivered packet rest)) (accepted' : Accepted (delivered packet rest')) :
    SameEffects registry device packet rest rest' ↔
      device.modules = [] ∨ kind.SameOperands device rest rest' := by
  have header : ∀ rest, hdrType (delivered packet rest) = kind.toClass.code := fun rest =>
    (delivered_inside packet rest (by decide)).trans typed
  have cleared : kind.SameOperands device (setCrc (delivered packet rest) 0)
      (setCrc (delivered packet rest') 0) ↔ kind.SameOperands device rest rest' := by
    cases kind <;>
      simp only [OperandClass.SameOperands, pushed, pulled, operands_cleared, operandState_cleared]
  by_cases loaded : device.modules = []
  case pos =>
    refine ⟨fun _ => Or.inl loaded, fun _ σ far s => ?_⟩
    rw [effects_unloaded _ _ _ accepted loaded, effects_unloaded _ _ _ accepted' loaded]
  constructor
  · intro same
    refine Or.inr (cleared.mp (OperandClass.operands_shown fun s => ?_))
    rw [← effects_perform registry _ _ accepted loaded (header rest),
      ← effects_perform registry _ _ accepted' loaded (header rest')]
    exact same Nat recording s
  · rintro (unloaded | same) σ far s
    · exact absurd unloaded loaded
    · rw [effects_perform _ _ _ accepted loaded (header rest),
        effects_perform _ _ _ accepted' loaded (header rest'),
        OperandClass.handled_congr far s device (cleared.mpr same)]

/-- A request for 32 bytes laid out as `struct _fmr_memory_packet`. -/
def mallocPacket : Mem := storeCrc (Mem.overlay (fun _ => 0) [fmrMagicNumber, 0, 0, 18, 0, 4, 32])

def zeroTail : Mem := fun _ => 0

/-- A 16 in one byte, counted from the end of the packet. -/
def sixteenAt (offset : Nat) : Mem := Mem.set zeroTail (fmrPacketSize + offset) 16

theorem zeroTail_accepted : Accepted (delivered mallocPacket zeroTail) :=
  ⟨by decide +kernel, by decide +kernel, by decide +kernel⟩

/-- Memories that differ only after the eight operand bytes make no difference. -/
theorem malloc_packet_repeats :
    hdrType mallocPacket = OperandClass.malloc.toClass.code ∧
      Accepted (delivered mallocPacket zeroTail) ∧ Accepted (delivered mallocPacket (sixteenAt 8)) ∧
      SameEffects (fun _ => none) ⟨fvmModules⟩ mallocPacket zeroTail (sixteenAt 8) := by
  have typed : hdrType mallocPacket = OperandClass.malloc.toClass.code := by decide +kernel
  have accepted : Accepted (delivered mallocPacket (sixteenAt 8)) :=
    ⟨by decide +kernel, by decide +kernel, by decide +kernel⟩
  have same : word64 (operands zeroTail) = word64 (operands (sixteenAt 8)) := by decide +kernel
  refine ⟨typed, zeroTail_accepted, accepted, ?_⟩
  exact (operands_from_packet_iff _ _ _ _ _ .malloc typed zeroTail_accepted accepted).mpr
    (Or.inr same)

/-- The same request for 32 bytes allocates 0 or 16 bytes, after what follows it. -/
theorem malloc_size_from_tail :
    Accepted (delivered mallocPacket zeroTail) ∧ Accepted (delivered mallocPacket (sixteenAt 0)) ∧
      ¬ SameEffects (fun _ => none) ⟨fvmModules⟩ mallocPacket zeroTail (sixteenAt 0) := by
  refine ⟨zeroTail_accepted, ⟨by decide +kernel, by decide +kernel, by decide +kernel⟩,
    fun same => ?_⟩
  have sizes := congrArg (fun effect => effect.2.2) (same Nat recording (fun _ => 0, 0))
  exact absurd sizes (by decide +kernel)

end Flipper.Fmr
