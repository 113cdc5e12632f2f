import Flipper.Host.Lookup

/-! The two call paths of `lib/libflipper.c` with their encoders. -/
namespace Flipper.Host
open Binary Effect Fmr

def invokeArgs (argc : Nat) (m : Mem) (i argv : Nat) : List LfArg → Mem
  | [] => m
  | arg :: args =>
    if i < argc then
      let m := m.set (argTypesOffset + i) arg.type
      let size := lfSizeof arg.type
      let m := m.copy argv size (byteOf arg.value)
      let m := setLen m (hdrLen m + BitVec.ofNat 16 size)
      invokeArgs argc m (i + 1) (argv + size) args
    else m

/-- The packet of `lf_invoke_by_index` before the argument loop. The 64 bytes
are cleared; what lies after them on the stack stays. -/
def rpcHeader (stack : Mem) (moduleIdx : BitVec 16) (index : Byte) (ret : LfType) (argc : Byte) :
    Mem :=
  let m := stack.copy 0 fmrPacketSize fun _ => 0
  let m := setMagic m fmrMagicNumber
  let m := setType m FmrClass.rpc.code
  let m := m.set 6 (moduleIdx.setWidth 8)
  let m := m.set 7 index
  let m := m.set 8 ret
  let m := m.set 9 argc
  setLen m (BitVec.ofNat 16 (headerSize + callSize + argc.toNat))

def rpcRequest (stack : Mem) (moduleIdx : BitVec 16) (index : Byte) (ret : LfType)
    (args : List LfArg) : Mem :=
  let argc : Byte := BitVec.ofNat 8 args.length
  invokeArgs argc.toNat (rpcHeader stack moduleIdx index ret argc) 0 argvOffset args

def rpcPacket (stack : Mem) (moduleIdx : BitVec 16) (index : Byte) (ret : LfType)
    (args : List LfArg) : Mem :=
  storeCrc (rpcRequest stack moduleIdx index ret args)

/-- The int returned, `*retval` (nothing for a NULL pointer), the device's list
and `_lf_err` after the call. -/
structure InvokeReturn where
  status : Int
  retval : Option (BitVec 64)
  modules : List LfModule
  err : Byte
  deriving DecidableEq

/-- The module is cached after this, or the `_lf_err` of the failed assertion is given. -/
def ensureModule (modules : List LfModule) (module : CString) (moduleIdx : BitVec 16) (err : Byte) :
    FmrProg (Except Byte Byte × List LfModule) := do
  let found ← dyldModule modules module err
  match found.module with
  | some _ => pure (.ok found.err, found.modules)
  | none =>
    match ← createAndRegister found.modules module moduleIdx found.err with
    | (.error err, modules) => pure (.error err, modules)
    | (.ok (_, err), modules) => pure (.ok err, modules)

def lfInvokeByIndex (stack : Mem) (modules : List LfModule) (module : CString) (index : Byte)
    (ret : LfType) (retval : Option (BitVec 64)) (args : List LfArg) (err : Byte) :
    FmrProg InvokeReturn := do
  let lookup ← lfDyldDynSymLookup module 0 err
  if lookup.status ≠ lfSuccess then pure ⟨lfError, retval, modules, LfErr.eModule.code⟩
  else
    match ← ensureModule modules module lookup.idx lookup.err with
    | (.error err, modules) => pure ⟨lfError, retval, modules, err⟩
    | (.ok err, modules) =>
      match ← exchange (rpcPacket stack lookup.idx index ret args) err with
      | (none, err) => pure ⟨lfError, retval, modules, err⟩
      -- The error of the result is not looked at.
      | (some result, err) => pure ⟨lfSuccess, retval.map fun _ => result.value, modules, err⟩

structure Call where
  stack : Mem
  module : CString
  index : Byte
  ret : LfType
  retval : Option (BitVec 64)
  args : List LfArg

def Call.invoke (c : Call) (modules : List LfModule) (err : Byte) : FmrProg InvokeReturn :=
  lfInvokeByIndex c.stack modules c.module c.index c.ret c.retval c.args err

/-- The argument loop of `lf_create_call`: the payload size, unless an argument
does not fit, and the packet as far as it was written. -/
def createCallArgs (argc : Nat) (m : Mem) (i dst payloadSize : Nat) : List LfArg → Option Nat × Mem
  | [] => (some payloadSize, m)
  | arg :: args =>
    if i < argc then
      let m := m.set (argTypesOffset + i) arg.type
      let argSize := lfSizeof arg.type
      if fmrPacketSize - headerSize < payloadSize + argSize then (none, m)
      else createCallArgs argc (m.copy dst argSize (byteOf arg.value)) (i + 1) (dst + argSize)
        (payloadSize + argSize) args
    else (some payloadSize, m)

/-- `lf_create_call` on a packet, which holds its `header` and its `call`. The
function it is given goes unused. -/
def lfCreateCall (m : Mem) (module : BitVec 32) (_function : LfFunction) (ret : LfType)
    (args : List LfArg) : Int × Mem :=
  let m := m.set 6 (module.setWidth 8)
  let m := m.set 7 0
  let m := m.set 8 ret
  let argc : Byte := BitVec.ofNat 8 args.length
  let m := m.set 9 argc
  match createCallArgs argc.toNat m 0 argvOffset (callSize + argc.toNat) args with
  | (none, m) => (lfError, m)
  | (some payloadSize, m) =>
    (lfSuccess, setLen (setType m FmrClass.rpc.code) (BitVec.ofNat 16 payloadSize))

/-- The packet of `lf_invoke` before `lf_create_call`. -/
def blankCall : Mem :=
  setLen (setMagic (fun _ => 0) fmrMagicNumber) (BitVec.ofNat 16 headerSize)

/-- `lf_invoke`. Its three assertions on `e` pass when `e` is not zero. -/
def lfInvoke (modules : List LfModule) (module : CString) (function : LfFunction) (ret : LfType)
    (retval : BitVec 64) (args : List LfArg) (err : Byte) : FmrProg InvokeReturn := do
  let found ← dyldModule modules module err
  match found.module with
  | none => pure ⟨lfError, some retval, found.modules, LfErr.eModule.code⟩
  | some m =>
    let (e, packet) := lfCreateCall blankCall (m.idx.setWidth 32) function ret args
    if e = 0 then pure ⟨lfError, some retval, found.modules, LfErr.eNull.code⟩
    else do
      let written ← writeBytes (Mem.slice (storeCrc packet) 0 fmrPacketSize)
      if written.status = 0 then pure ⟨lfError, some retval, found.modules, LfErr.eEndpoint.code⟩
      else do
        let received ← readBytes resultSize
        if received.status = 0 then pure ⟨lfError, some retval, found.modules, LfErr.eEndpoint.code⟩
        else
          let result := FmrResult.ofMem received.dst
          if result.error ≠ LfErr.eOk.code then
            pure ⟨lfError, some retval, found.modules, result.error⟩
          else pure ⟨lfSuccess, some result.value, found.modules,
            received.err.getD (written.err.getD found.err)⟩

theorem ensureModule_emits (modules : List LfModule) (module : CString)
    (moduleIdx : BitVec 16) (err : Byte) :
    (ensureModule modules module moduleIdx err).Emits (fun _ => False) (Resolving module) := by
  apply (dyldModule_emits modules module err).bind
  intro found
  split
  · trivial
  · apply (createAndRegister_emits _ module _ _).bind
    rintro ⟨_ | ⟨m, err⟩, modules⟩ <;> trivial

/-- What finding a module writes is its lookup. -/
theorem sent_resolving {trace : List (Event fmr)}
    (allowed : ∀ event ∈ trace, Event.Allowed (fun _ => False) (Resolving module) event)
    (member : bytes ∈ sent trace) : bytes = Mem.slice (lookupPacket module) 0 fmrPacketSize := by
  obtain ⟨reply, inside⟩ := mem_sent member
  rcases allowed _ inside with same | same | ⟨size, same⟩
  · exact Op.write.inj same
  · cases same
  · cases same

/-- `lf_invoke_by_index` writes lookups and its one call packet, nothing else. -/
theorem invokeByIndex_sent (near : World fmr σ) (s : σ) (stack : Mem) (modules : List LfModule)
    (module : CString) (index : Byte) (ret : LfType) (retval : Option (BitVec 64))
    (args : List LfArg) (err : Byte)
    (written : bytes ∈ sent ((lfInvokeByIndex stack modules module index ret retval args err).run
      near s).trace) :
    bytes = Mem.slice (lookupPacket module) 0 fmrPacketSize ∨
      bytes = Mem.slice (rpcPacket stack ((lfDyldDynSymLookup module 0 err).run near s).value.idx
        index ret args) 0 fmrPacketSize := by
  rw [lfInvokeByIndex, Prog.monad_bind, Prog.run_bind, sent_append] at written
  rcases List.mem_append.mp written with first | later
  · exact Or.inl (sent_resolving ((lookup_emits module 0 err).run near s) first)
  split at later
  · cases later
  rw [Prog.monad_bind, Prog.run_bind, sent_append] at later
  rcases List.mem_append.mp later with second | last
  · exact Or.inl (sent_resolving ((ensureModule_emits modules module _ _).run near _) second)
  · right
    split at last
    · cases last
    · obtain ⟨reply, inside⟩ := mem_sent last
      have allowed := ((exchange_emits _ _).bind fun received => by
        split <;> trivial).run near _ _ inside
      rcases allowed with same | same
      · exact Op.write.inj same
      · cases same

end Flipper.Host
