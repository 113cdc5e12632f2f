import Flipper.Fmr.Module
import Flipper.Fmr.Crc

/-! The host's side of `lib/dyld.c`: the lookup request and the module cache. -/
namespace Flipper.Host
open Binary Effect Fmr

def lookupRequest (module : CString) : Mem :=
  let m : Mem := fun _ => 0
  let m := setMagic m fmrMagicNumber
  let m := setLen m (BitVec.ofNat 16 headerSize)
  let m := setType m FmrClass.dyld.code
  let m := m.copy headerSize (module.strlen + 1) module.mem
  setLen m (hdrLen m + BitVec.ofNat 16 (module.strlen + 1))

def lookupPacket (module : CString) : Mem := storeCrc (lookupRequest module)

/-- A packet is written and a result read; either failure raises `E_ENDPOINT`. -/
def exchange (packet : Mem) (err : Byte) : FmrProg (Option FmrResult × Byte) := do
  let written ← writeBytes (Mem.slice packet 0 fmrPacketSize)
  if written.status ≠ lfSuccess then pure (none, LfErr.eEndpoint.code)
  else do
    let received ← readBytes resultSize
    if received.status ≠ lfSuccess then pure (none, LfErr.eEndpoint.code)
    else pure (some (FmrResult.ofMem received.dst), received.err.getD (written.err.getD err))

/-- The int returned, `*idx` and `_lf_err` after the call. -/
structure LookupReturn where
  status : Int
  idx : BitVec 16
  err : Byte
  deriving DecidableEq

def lfDyldDynSymLookup (module : CString) (idx : BitVec 16) (err : Byte) : FmrProg LookupReturn :=
  if lfModuleNameMax ≤ module.strlen then pure ⟨lfError, idx, err⟩
  else do
    match ← exchange (lookupPacket module) err with
    | (none, err) => pure ⟨lfError, idx, err⟩
    | (some result, err) =>
      if result.error ≠ LfErr.eOk.code then pure ⟨lfError, idx, result.error⟩
      else pure ⟨lfSuccess, result.value.setWidth 16, err⟩

/-- The module found or made, the device's list and `_lf_err` after the call. -/
structure ModuleReturn where
  module : Option LfModule
  modules : List LfModule
  err : Byte
  deriving DecidableEq

/-- The module record is made and put in the list, in `dyld_module` and in
`lf_invoke_by_index`, with the same `_lf_err` on either failure. The second asserts `m->name`
where the first asserts `m`, which comes to the same only because `name` is the first field, and
it does not free a record that was not registered. -/
def createAndRegister (modules : List LfModule) (module : CString) (idx : BitVec 16) (err : Byte) :
    FmrProg (Except Byte (LfModule × Byte) × List LfModule) := do
  match ← lfModuleCreate module idx err with
  | (none, _) => pure (.error LfErr.eNull.code, modules)
  | (some m, err) => do
    let registered ← dyldRegister modules m
    if registered.status ≠ lfSuccess then pure (.error (lfErrorSet .eModule), registered.modules)
    else pure (.ok (registered.module, err), registered.modules)

def dyldModule (modules : List LfModule) (module : CString) (err : Byte) : FmrProg ModuleReturn :=
  match lfModuleGetByName modules module.mem with
  | some m => pure ⟨some m, modules, err⟩
  | none => do
    let lookup ← lfDyldDynSymLookup module 0 err
    if lookup.status ≠ lfSuccess then pure ⟨none, modules, lfErrorSet .eModule⟩
    else
      match ← createAndRegister modules module lookup.idx lookup.err with
      | (.error err, modules) => pure ⟨none, modules, err⟩
      | (.ok (m, err), modules) => pure ⟨some m, modules, err⟩

section LookupPacket
variable (module : CString)

@[simp] theorem hdrMagic_lookupPacket : hdrMagic (lookupPacket module) = fmrMagicNumber := rfl

theorem lookupPacket_class :
    (Mem.slice (lookupPacket module) 0 fmrPacketSize)[5]? = some FmrClass.dyld.code := by
  simp [Mem.slice, fmrPacketSize]
  rfl

theorem hdrCrc_lookupRequest : hdrCrc (lookupRequest module) = 0 := by
  change (0 : Byte) ++ (0 : Byte) = (0 : BitVec 16)
  decide

theorem hdrLen_lookupPacket (fits : module.strlen < lfModuleNameMax) :
    (hdrLen (lookupPacket module)).toNat = headerSize + module.strlen + 1 := by
  simp only [lookupPacket, storeCrc, lookupRequest, hdrLen_setCrc, hdrLen_setLen, hdrLen_setType,
    hdrLen_copy _ _ (Nat.le_refl headerSize), BitVec.toNat_add, BitVec.toNat_ofNat]
  simp only [lfModuleNameMax, headerSize] at *
  omega

end LookupPacket

/-- What finding a module may ask of the environment: only its lookup is written. -/
def Resolving (module : CString) (op : Op) : Prop :=
  op = .write (Mem.slice (lookupPacket module) 0 fmrPacketSize) ∨ op = .read resultSize ∨
    ∃ size, op = .malloc size

theorem exchange_emits (packet : Mem) (err : Byte) :
    (exchange packet err).Emits (fun _ => False) fun op : Op =>
      op = .write (Mem.slice packet 0 fmrPacketSize) ∨ op = .read resultSize := by
  refine ⟨Or.inl rfl, fun written => ?_⟩
  change Prog.Emits _ _ (ite _ _ _)
  split
  · trivial
  · refine ⟨Or.inr rfl, fun received => ?_⟩
    change Prog.Emits _ _ (ite _ _ _)
    split <;> trivial

theorem lookup_emits (module : CString) (idx : BitVec 16) (err : Byte) :
    (lfDyldDynSymLookup module idx err).Emits (fun _ => False) (Resolving module) := by
  unfold lfDyldDynSymLookup
  split
  · trivial
  · apply Prog.Emits.bind
    · apply (exchange_emits (lookupPacket module) err).mono fun _ allowed => allowed
      rintro op (written | read)
      · exact Or.inl written
      · exact Or.inr (Or.inl read)
    · rintro ⟨_ | result, err⟩
      · trivial
      · dsimp only
        split <;> trivial

theorem createAndRegister_emits (modules : List LfModule) (module : CString) (idx : BitVec 16)
    (err : Byte) :
    (createAndRegister modules module idx err).Emits (fun _ => False) (Resolving module) := by
  have allocates : ∀ size, Resolving module (.malloc size) :=
    fun size => Or.inr (Or.inr ⟨size, rfl⟩)
  apply Prog.Emits.bind
  · unfold lfModuleCreate
    split
    · exact ⟨allocates _, fun reply => by cases reply <;> trivial⟩
    · trivial
  · rintro ⟨_ | m, err⟩
    · trivial
    · apply Prog.Emits.bind
      · unfold dyldRegister
        split
        · trivial
        · exact ⟨allocates _, fun reply => by cases reply <;> trivial⟩
      · intro registered
        split <;> trivial

theorem dyldModule_emits (modules : List LfModule) (module : CString) (err : Byte) :
    (dyldModule modules module err).Emits (fun _ => False) (Resolving module) := by
  unfold dyldModule
  split
  · trivial
  · apply (lookup_emits module 0 err).bind
    intro lookup
    split
    · trivial
    · apply (createAndRegister_emits modules module _ _).bind
      rintro ⟨_ | ⟨m, err⟩, modules⟩ <;> trivial

end Flipper.Host
