import Flipper.Fmr.Perform
import Flipper.Host.Lookup

/-! Both ends of a module lookup. The host puts the name after the packet header,
`fmr_dyld` looks for it after the packet, and a miss comes back as index 0. -/
namespace Flipper.Host
open Binary Effect Fmr

/-- A device at the other end of a lossless link. A written packet is served at
once over the memory `rest`, which keeps what lies after the packet buffer;
replies queue up. Nothing else the host asks for fails. -/
def link (registry : Registry) (device : LfDevice) (rest junk : Mem) (far : World fmr σ) :
    World fmr (σ × List (List Byte)) where
  answer op s := match op with
    | .write bytes =>
      let served := (fmrPerform (fmrInit registry) device (rest.overlay bytes)).run far s.1
      (⟨lfSuccess, none⟩, (served.state, s.2 ++ sent served.trace))
    | .read _ => match s.2 with
      | [] => (⟨lfError, none, junk⟩, s)
      | reply :: later => (⟨lfSuccess, none, junk.overlay reply⟩, (s.1, later))
    | op => ((obliging.answer op ()).1, s)

def answeredIdx (modules : List LfModule) (rest : Mem) : BitVec 16 :=
  match lfModuleGetByName modules (operands rest) with
  | some module => module.idx
  | none => 0

/-- A lookup finds the module of that name and fails without one. -/
def LookupAgrees (modules : List LfModule) (name : CString) (returned : LookupReturn) : Prop :=
  (∀ module ∈ modules, module.name = name → name.strlen < lfModuleNameMax →
    returned.status = lfSuccess ∧ returned.idx = module.idx) ∧
  ((∀ module ∈ modules, module.name ≠ name ∨ lfModuleNameMax ≤ name.strlen) →
    returned.status = lfError)

section Link
variable (registry : Registry) (device : LfDevice) (rest junk : Mem) (far : World fmr σ) (s : σ)

/-- An exchange over the link returns the result the device sent for the packet. -/
theorem exchange_link (packet : Mem) (err : Byte) {result : FmrResult}
    (answered : sent ((fmrPerform (fmrInit registry) device (delivered packet rest)).run far
      s).trace =
      [result.bytes]) :
    ((exchange packet err).run (link registry device rest junk far) (s, [])).value =
      (some result, err) := by
  have queue : sent ((fmrPerform (fmrInit registry) device
      (rest.overlay (Mem.slice packet 0 fmrPacketSize))).run far s).trace =
        [result.bytes] := answered
  simp [exchange, link, queue, FmrResult.ofMem_overlay]

theorem lookupPacket_delivered (fits : name.strlen < lfModuleNameMax) :
    Accepted (delivered (lookupPacket name) rest) := by
  have known : FmrClass.dyld.code < fmrClassCount := by decide
  have accepted : Accepted (lookupPacket name) :=
    ⟨hdrMagic_lookupPacket name, storeCrc_checksum (hdrCrc_lookupRequest name), known⟩
  apply accepted_congr (fun i => delivered_inside (lookupPacket name) rest) (by decide) _ accepted
  rw [hdrLen_lookupPacket name fits]
  simp only [lfModuleNameMax, headerSize, fmrPacketSize] at *
  omega

/-- A device with modules answers every lookup with `E_OK`. -/
theorem lookup_served (loaded : device.modules ≠ []) (fits : name.strlen < lfModuleNameMax) :
    sent ((fmrPerform (fmrInit registry) device (delivered (lookupPacket name) rest)).run far
      s).trace =
      [FmrResult.bytes ⟨(answeredIdx device.modules rest).setWidth 64, LfErr.eOk.code⟩] := by
  have typed : hdrType (delivered (lookupPacket name) rest) = FmrClass.dyld.code :=
    delivered_inside (lookupPacket name) rest (by decide)
  rw [run_dispatched _ _ _ _ (lookupPacket_delivered rest fits) loaded typed]
  unfold answeredIdx
  cases found : lfModuleGetByName device.modules (operands rest) with
  | none => simp [FmrClass.handler, fmrDyld, operands_delivered, found, run_sendResult]
  | some module => simp [FmrClass.handler, fmrDyld, operands_delivered, found, run_sendResult]

theorem lookup_served_unloaded (unloaded : device.modules = [])
    (fits : name.strlen < lfModuleNameMax) :
    sent ((fmrPerform (fmrInit registry) device (delivered (lookupPacket name) rest)).run far
      s).trace =
      [FmrResult.bytes ⟨0, LfErr.eNull.code⟩] := by
  rw [run_unloaded _ _ _ _ (lookupPacket_delivered rest fits) unloaded]
  simp [run_sendResult]

/-- What the host's lookup returns in each of its three cases. -/
theorem lookup_long (long : lfModuleNameMax ≤ name.strlen) (idx : BitVec 16) (err : Byte) :
    ((lfDyldDynSymLookup name idx err).run (link registry device rest junk far) (s, [])).value =
      ⟨lfError, idx, err⟩ := by
  simp [lfDyldDynSymLookup, long]

theorem lookup_unloaded (unloaded : device.modules = []) (fits : name.strlen < lfModuleNameMax)
    (idx : BitVec 16) (err : Byte) :
    ((lfDyldDynSymLookup name idx err).run (link registry device rest junk far) (s, [])).value =
      ⟨lfError, idx, LfErr.eNull.code⟩ := by
  have received := exchange_link registry device rest junk far s (lookupPacket name) err
    (lookup_served_unloaded registry device rest far s unloaded fits)
  have refused : LfErr.eNull.code ≠ LfErr.eOk.code := by decide
  simp [lfDyldDynSymLookup, Nat.not_le.mpr fits, Prog.run_bind, received, refused]

theorem lookup_loaded (loaded : device.modules ≠ []) (fits : name.strlen < lfModuleNameMax)
    (idx : BitVec 16) (err : Byte) :
    ((lfDyldDynSymLookup name idx err).run (link registry device rest junk far) (s, [])).value =
      ⟨lfSuccess, answeredIdx device.modules rest, err⟩ := by
  have received := exchange_link registry device rest junk far s (lookupPacket name) err
    (lookup_served registry device rest far s loaded fits)
  have narrow : ((answeredIdx device.modules rest).setWidth 64).setWidth 16 =
      answeredIdx device.modules rest := by simp
  simp [lfDyldDynSymLookup, Nat.not_le.mpr fits, Prog.run_bind, received, narrow]

/-- The two ends agree exactly when the index kept after the device's packet
buffer happens to be the right one, or when the host or the device gives up. -/
theorem lookup_agrees_iff (built : Registered modules) (name : CString) (idx : BitVec 16)
    (err : Byte) :
    LookupAgrees modules name
        ((lfDyldDynSymLookup name idx err).run (link registry ⟨modules⟩ rest junk far)
          (s, [])).value ↔
      lfModuleNameMax ≤ name.strlen ∨ modules = [] ∨
        ∃ module ∈ modules, module.name = name ∧ module.idx = answeredIdx modules rest := by
  by_cases long : lfModuleNameMax ≤ name.strlen
  · rw [lookup_long registry ⟨modules⟩ rest junk far s long]
    simp only [LookupAgrees, long, or_true, true_or, iff_true, implies_true, and_true]
    intro module _ _ short
    omega
  have fits : name.strlen < lfModuleNameMax := by omega
  by_cases empty : modules = []
  · rw [lookup_unloaded registry ⟨modules⟩ rest junk far s empty fits]
    simp [LookupAgrees, empty]
  rw [lookup_loaded registry ⟨modules⟩ rest junk far s empty fits]
  simp only [long, empty, false_or]
  constructor
  · rintro ⟨found, missing⟩
    by_cases present : ∃ module ∈ modules, module.name = name
    · obtain ⟨module, member, named⟩ := present
      exact ⟨module, member, named, (found module member named fits).2.symm⟩
    · have failed : lfSuccess = lfError := missing fun module member =>
        Or.inl fun named => present ⟨module, member, named⟩
      exact absurd failed (by decide)
  · rintro ⟨module, member, named, same⟩
    constructor
    · intro other inside othersName _
      -- Registration keeps names apart, so this is the module the index belongs to.
      have one : other = module :=
        List.inj_on_of_nodup_map built.names_nodup inside member (othersName.trans named.symm)
      exact ⟨rfl, by rw [one, same]⟩
    · intro missing
      rcases missing module member with other | toolong
      · exact absurd named other
      · omega

end Link

/-- A second module, registered after `dac_module` under index 1. -/
def adcModule : LfModule where
  name := ⟨[0x61, 0x64, 0x63], by decide⟩
  fits := by decide
  idx := unnumbered
  table := [5]
  state := none

def twoModules : List LfModule :=
  ((dyldRegister fvmModules adcModule).run obliging ()).value.modules

/-- Nothing is registered as `gpio`, and the lookup succeeds; `adc` has index 1,
and the lookup says 0. -/
theorem lookup_disagrees :
    Registered twoModules ∧
      ¬ LookupAgrees twoModules ⟨[0x67, 0x70, 0x69, 0x6F], by decide⟩
        ((lfDyldDynSymLookup ⟨[0x67, 0x70, 0x69, 0x6F], by decide⟩ 0 0).run
          (link (fun _ => none) ⟨twoModules⟩ (fun _ => 0) (fun _ => 0) obliging) ((), [])).value ∧
      ¬ LookupAgrees twoModules adcModule.name
        ((lfDyldDynSymLookup adcModule.name 0 0).run
          (link (fun _ => none) ⟨twoModules⟩ (fun _ => 0) (fun _ => 0) obliging)
          ((), [])).value := by
  refine ⟨.register fvmModules_registered obliging adcModule (), ?_, ?_⟩
  · rintro ⟨_, missing⟩
    exact absurd (missing (by decide +kernel)) (by decide +kernel)
  · rintro ⟨found, _⟩
    have second : twoModules[1]? = some { adcModule with idx := 1 } := by decide +kernel
    have right := found _ (List.mem_of_getElem? second) rfl (by decide)
    exact absurd right.2 (by decide +kernel)

theorem lookup_dac_agrees :
    Registered fvmModules ∧
      (LookupAgrees fvmModules dacModule.name
          ((lfDyldDynSymLookup dacModule.name 0 0).run
            (link (fun _ => none) ⟨fvmModules⟩ (fun _ => 0) (fun _ => 0) obliging) ((), [])).value ↔
        lfModuleNameMax ≤ dacModule.name.strlen ∨ fvmModules = [] ∨
          ∃ module ∈ fvmModules, module.name = dacModule.name ∧
            module.idx = answeredIdx fvmModules fun _ => 0) :=
  ⟨fvmModules_registered,
    lookup_agrees_iff _ _ _ obliging () fvmModules_registered dacModule.name 0 0⟩

end Flipper.Host
