import Flipper.Fmr.Module
import Mathlib.Tactic.IntervalCases

/-! The built-in handlers of `lib/fmr.c` and the table they are registered in.
Diagnostic output is left out. -/
namespace Flipper.Fmr
open Binary Effect

/-- The part of `struct _lf_device` that the runtime reads. -/
structure LfDevice where
  modules : List LfModule

/-- The int a handler returns, `*retval` and `_lf_err` after it. -/
structure HandlerReturn where
  status : Int
  retval : BitVec 64
  err : Byte
  deriving DecidableEq

/-- A handler gets the device, the packet, `*retval` and `_lf_err`. -/
abbrev Handler := LfDevice → Mem → BitVec 64 → Byte → FmrProg HandlerReturn

/-- `sizeof(struct _lf_arg)`: the type, then eight bytes of value. -/
def argRecordSize : Nat := 9

/-- The value field after `size` bytes were copied over what the block held. -/
def argValue (m : Mem) (argv size : Nat) (block : Block) : BitVec 64 :=
  word64 fun k => if k < size then m (argv + k) else block.bytes (1 + k)

/-- The argument loop of `fmr_rpc` with `remaining` turns to go: `index` and
`argv` advance together. A failed exit gives what it leaves in `_lf_err`. -/
def fmrRpcArgs (m : Mem) (err : Byte) (remaining index argv : Nat) (args : List LfArg) :
    FmrProg (Except Byte (List LfArg)) :=
  match remaining with
  | 0 => pure (.ok args)
  | remaining + 1 => do
    Prog.tell (Label.argType index)
    let type := argType m index
    let size := lfSizeof type
    match ← malloc argRecordSize with
    | none => pure (.error (lfErrorSet .eNull))
    | some block => do
      Prog.tell (Label.fetch argv size)
      match ← lfLlAppend args ⟨type, argValue m argv size block⟩ with
      | none => pure (.error err)
      | some args => fmrRpcArgs m err remaining (index + 1) (argv + size) args

/-- The bytes the loop copies in `n` turns from type slot `index` on. -/
def argBytes (m : Mem) (index : Nat) : Nat → Nat
  | 0 => 0
  | n + 1 => lfSizeof (argType m index) + argBytes m (index + 1) n

def fmrRpc : Handler := fun device m retval err =>
  match lfLlItem device.modules (callModule m).toNat err with
  | (none, err) => pure ⟨lfError, retval, err⟩
  | (some module, err) =>
    if inside : (callFunction m).toNat < module.table.length then do
      match ← fmrRpcArgs m err (callArgc m).toNat 0 argvOffset [] with
      | .error err => pure ⟨lfError, retval, err⟩
      | .ok args => do
        let reply ← invoke module.table[(callFunction m).toNat] args
        pure ⟨lfSuccess, reply.value, reply.err.getD err⟩
    else pure ⟨lfError, retval, err⟩

/-- `packet + 1`: the operands of the other handlers start a whole packet after
the packet, not after its header. -/
def operands (m : Mem) : Mem := fun i => m (fmrPacketSize + i)

/-- The state pointer of the module the first operand byte counts to. -/
def operandState (device : LfDevice) (m : Mem) : Option (BitVec 64) := do
  let module ← device.modules[(operands m 0).toNat]?
  module.state

/-- The packet names a module by position and a function that module has. -/
def Callable (device : LfDevice) (m : Mem) : Prop :=
  ∃ module, device.modules[(callModule m).toNat]? = some module ∧
    (callFunction m).toNat < module.table.length

instance (device : LfDevice) (m : Mem) : Decidable (Callable device m) :=
  match found : device.modules[(callModule m).toNat]? with
  | none => isFalse (by simp [Callable, found])
  | some module =>
    decidable_of_iff ((callFunction m).toNat < module.table.length) (by simp [Callable, found])

def fmrPush : Handler := fun device m retval err =>
  match operandState device m with
  | none => pure ⟨lfError, retval, err⟩
  | some state => do
    store (state + (operands m 1).setWidth 64) (Mem.slice (operands m) 3 (operands m 2).toNat)
    pure ⟨lfSuccess, 0, err⟩

def fmrPull : Handler := fun device m retval err =>
  match operandState device m with
  | none => pure ⟨lfError, retval, err⟩
  | some state => do
    let bytes ← load (state + (operands m 1).setWidth 64) (operands m 2).toNat
    let reply ← writeBytes bytes
    pure ⟨reply.status, if reply.status = lfSuccess then 0 else -1, reply.err.getD err⟩

def fmrDyld : Handler := fun device m _ err =>
  match lfModuleGetByName device.modules (operands m) with
  | none => pure ⟨lfError, 0, err⟩
  | some module => pure ⟨lfSuccess, module.idx.setWidth 64, err⟩

def fmrMalloc : Handler := fun _ m retval err => do
  match ← malloc (word64 (operands m)).toNat with
  | none => pure ⟨lfError, retval, err⟩
  | some block => pure ⟨lfSuccess, block.address, err⟩

def fmrFree : Handler := fun _ m _ err => do
  free (word64 (operands m))
  pure ⟨lfSuccess, 0, err⟩

abbrev Registry := Byte → Option Handler

def fmrRegister (registry : Registry) (type : Byte) (handler : Option Handler) : Int × Registry :=
  if fmrClassCount ≤ type ∨ handler.isNone then (lfError, registry)
  else (lfSuccess, Function.update registry type handler)

def FmrClass.handler : FmrClass → Handler
  | .rpc => fmrRpc
  | .push => fmrPush
  | .pull => fmrPull
  | .dyld => fmrDyld
  | .malloc => fmrMalloc
  | .free => fmrFree

def fmrInit (registry : Registry) : Registry :=
  [FmrClass.rpc, .push, .pull, .dyld, .malloc, .free].foldl
    (fun registry cls => (fmrRegister registry cls.code (some cls.handler)).2) registry

section Crc
variable (m : Mem) (crc : BitVec 16)

@[simp] theorem callModule_setCrc : callModule (setCrc m crc) = callModule m := rfl

@[simp] theorem callFunction_setCrc : callFunction (setCrc m crc) = callFunction m := rfl

@[simp] theorem callArgc_setCrc : callArgc (setCrc m crc) = callArgc m := rfl

@[simp] theorem operands_setCrc : operands (setCrc m crc) = operands m := by
  funext i
  exact setCrc_at m crc (by unfold fmrPacketSize; omega)

@[simp] theorem operandState_setCrc (device : LfDevice) :
    operandState device (setCrc m crc) = operandState device m := by
  simp only [operandState, operands_setCrc]

end Crc

/-- The argument loop only allocates. -/
theorem fmrRpcArgs_emits (m : Mem) (err : Byte) (remaining index argv : Nat) (args : List LfArg) :
    (fmrRpcArgs m err remaining index argv args).Emits (fun _ => True) fun op : Op =>
      op.kind = .malloc := by
  induction remaining generalizing index argv args with
  | zero => trivial
  | succ remaining ih =>
    refine ⟨trivial, rfl, fun record => ?_⟩
    cases record with
    | none => trivial
    | some block =>
      refine ⟨trivial, rfl, fun node => ?_⟩
      cases node with
      | none => trivial
      | some next => exact ih _ _ _

theorem fmrRpcArgs_invoked (world : World fmr σ) (s : σ) (m : Mem) (err : Byte)
    (remaining index argv : Nat) (args : List LfArg) :
    invoked ((fmrRpcArgs m err remaining index argv args).run world s).trace = [] := by
  have emits := (fmrRpcArgs_emits m err remaining index argv args).mono
    (fun _ allowed => allowed) fun op (isMalloc : Op.kind op = .malloc) =>
      show Op.kind op ≠ .invoke by rw [isMalloc]; decide
  exact invoked_none (emits.run world s)

section Invokes
variable (world : World fmr σ) (s : σ) {device : LfDevice} {m : Mem}

/-- A call that decodes runs the function it names, and only that one. -/
theorem fmrRpc_invokes (found : device.modules[(callModule m).toNat]? = some module)
    (inside : (callFunction m).toNat < module.table.length)
    (decoded :
      ((fmrRpcArgs m err (callArgc m).toNat 0 argvOffset []).run world s).value = .ok args) :
    invoked ((fmrRpc device m retval err).run world s).trace =
      [(module.table.get ⟨(callFunction m).toNat, inside⟩, args)] := by
  simp only [fmrRpc, lfLlItem, found, inside, dif_pos, Prog.monad_bind, Prog.run_bind, decoded,
    invoked_append, fmrRpcArgs_invoked, List.nil_append]
  rfl

/-- A call whose arguments cannot be allocated runs nothing. -/
theorem fmrRpc_undecoded (found : device.modules[(callModule m).toNat]? = some module)
    (inside : (callFunction m).toNat < module.table.length)
    (failed : ((fmrRpcArgs m err (callArgc m).toNat 0 argvOffset []).run world s).value =
      .error code) :
    invoked ((fmrRpc device m retval err).run world s).trace = [] := by
  simp only [fmrRpc, lfLlItem, found, inside, dif_pos, Prog.monad_bind, Prog.run_bind, failed,
    invoked_append, fmrRpcArgs_invoked, List.nil_append]
  rfl

end Invokes

/-- The store stays near the state of a module in the list. -/
def InState (device : LfDevice) (address : BitVec 64) (bytes : List Byte) : Prop :=
  ∃ module ∈ device.modules, ∃ state, module.state = some state ∧
    ∃ index : Byte, address = state + index.setWidth 64 ∧ bytes.length < 256

def FmrClass.MayAsk (device : LfDevice) : FmrClass → Op → Prop
  | .rpc, .malloc _ | .rpc, .invoke _ _ => True
  | .push, .store address bytes => InState device address bytes
  | .pull, .load _ _ | .pull, .write _ => True
  | .malloc, .malloc _ => True
  | .free, .free _ => True
  | _, _ => False

theorem operandState_listed {device : LfDevice} {m : Mem}
    (found : operandState device m = some state) :
    ∃ module ∈ device.modules, module.state = some state := by
  obtain ⟨module, listed, held⟩ := Option.bind_eq_some_iff.mp found
  exact ⟨module, List.mem_of_getElem? listed, held⟩

theorem handler_emits (cls : FmrClass) (device : LfDevice) (m : Mem) (retval : BitVec 64)
    (err : Byte) :
    (cls.handler device m retval err).Emits (fun _ => True) (cls.MayAsk device) := by
  cases cls with
  | rpc =>
    change (fmrRpc device m retval err).Emits _ _
    unfold fmrRpc
    split
    · trivial
    · split
      · apply Prog.Emits.bind
        · apply (fmrRpcArgs_emits m _ _ _ _ _).mono fun _ allowed => allowed
          intro op allocates
          cases op <;> trivial
        · rintro (failed | args)
          · trivial
          · exact ⟨trivial, fun reply => trivial⟩
      · trivial
  | push =>
    change (fmrPush device m retval err).Emits _ _
    unfold fmrPush
    split
    · trivial
    · rename_i state found
      obtain ⟨module, listed, held⟩ := operandState_listed found
      refine ⟨⟨module, listed, state, held, operands m 1, rfl, ?_⟩, fun _ => trivial⟩
      rw [Mem.slice_length]
      exact (operands m 2).isLt
  | pull =>
    change (fmrPull device m retval err).Emits _ _
    unfold fmrPull
    split
    · trivial
    · exact ⟨trivial, fun _ => ⟨trivial, fun _ => trivial⟩⟩
  | dyld =>
    change (fmrDyld device m retval err).Emits _ _
    unfold fmrDyld
    split <;> trivial
  | malloc =>
    refine ⟨trivial, fun reply => ?_⟩
    cases reply <;> trivial
  | free => exact ⟨trivial, fun _ => trivial⟩

theorem fmrRegister_class (registry : Registry) (cls : FmrClass) (handler : Handler) :
    (fmrRegister registry cls.code (some handler)).2 =
      Function.update registry cls.code (some handler) := by
  cases cls <;> rfl

theorem FmrClass.code_injective : Function.Injective FmrClass.code := by
  intro a b
  cases a <;> cases b <;> decide

/-- After `fmr_init` every class has its own handler. -/
theorem fmrInit_class (registry : Registry) (cls : FmrClass) :
    fmrInit registry cls.code = some cls.handler := by
  simp only [fmrInit, List.foldl_cons, List.foldl_nil, fmrRegister_class]
  cases cls <;> rfl

/-- The class check accepts exactly the codes of the enumeration. -/
theorem class_of_type {type : Byte} (known : type < fmrClassCount) :
    ∃ cls : FmrClass, type = cls.code := by
  have bound : type.toNat < 6 := known
  have cases : ∀ k < 6, ∃ cls : FmrClass, BitVec.ofNat 8 k = cls.code := by
    intro k less
    interval_cases k
    exacts [⟨.rpc, rfl⟩, ⟨.push, rfl⟩, ⟨.pull, rfl⟩, ⟨.dyld, rfl⟩, ⟨.malloc, rfl⟩, ⟨.free, rfl⟩]
  simpa using cases type.toNat bound

end Flipper.Fmr
