import Flipper.Fmr.Perform

/-! Where `fmr_perform` and `fmr_rpc` read a packet. Neither `len` nor `argc` nor
the widths behind `arg_types` is compared with the size of a packet, so the reads
stay inside it exactly when the packet's own numbers do. -/
namespace Flipper.Fmr
open Binary Effect

/-- The read lies in the 64 bytes of the packet, or in the sixteen type slots. -/
def Label.Inside : Label → Prop
  | .fetch offset length => length = 0 ∨ offset + length ≤ fmrPacketSize
  | .argType index => index < fmrMaxArgc
  | _ => True

instance (label : Label) : Decidable label.Inside := by
  cases label <;> unfold Label.Inside <;> infer_instance

/-- However memory is allotted, every read of the packet is inside it. -/
def ReadsInside (registry : Registry) (device : LfDevice) (m : Mem) : Prop :=
  ∀ (σ : Type) (world : World fmr σ) (s : σ) label,
    Event.noted label ∈ ((fmrPerform (fmrInit registry) device m).run world s).trace → label.Inside

/-- The numbers a packet carries stay within a packet, as far as they are used. -/
def FitsPacket (device : LfDevice) (m : Mem) : Prop :=
  hdrMagic m = fmrMagicNumber → (hdrLen m).toNat ≤ fmrPacketSize ∧
    (ChecksumOk m → Callable device m → (callArgc m).toNat ≤ fmrMaxArgc ∧
      argvOffset + argBytes m 0 (callArgc m).toNat ≤ fmrPacketSize)

theorem argBytes_congr {m m' : Mem} (index n : Nat)
    (same : ∀ k, index ≤ k → k < index + n → argType m k = argType m' k) :
    argBytes m index n = argBytes m' index n := by
  induction n generalizing index with
  | zero => rfl
  | succ n ih =>
    rw [argBytes, argBytes, same index (by omega) (by omega), ih (index + 1) fun k lower upper =>
      same k (by omega) (by omega)]

@[simp] theorem argBytes_setCrc (m : Mem) (crc : BitVec 16) (index n : Nat) :
    argBytes (setCrc m crc) index n = argBytes m index n :=
  argBytes_congr index n fun _ _ _ => setCrc_at m crc (by unfold argTypesOffset; omega)

theorem fmrRpcArgs_inside (few : index + n ≤ fmrMaxArgc)
    (fits : argv + argBytes m index n ≤ fmrPacketSize) (args : List LfArg) :
    (fmrRpcArgs m err n index argv args).Emits Label.Inside fun _ => True := by
  induction n generalizing index argv args with
  | zero => trivial
  | succ n ih =>
    rw [argBytes] at fits
    refine ⟨show index < fmrMaxArgc by omega, trivial, fun record => ?_⟩
    cases record with
    | none => trivial
    | some block =>
      refine ⟨Or.inr (by omega), trivial, fun node => ?_⟩
      cases node with
      | none => trivial
      | some next => exact ih (by omega) (by omega) _

/-- With memory to spare the loop makes all of its reads. -/
theorem fmrRpcArgs_reads (start : index ≤ fmrMaxArgc) (low : argv ≤ fmrPacketSize)
    (args : List LfArg)
    (inside : ∀ label,
      Event.noted label ∈ ((fmrRpcArgs m err n index argv args).run obliging ()).trace →
        label.Inside) :
    index + n ≤ fmrMaxArgc ∧ argv + argBytes m index n ≤ fmrPacketSize := by
  induction n generalizing index argv args with
  | zero => exact ⟨start, low⟩
  | succ n ih =>
    have slot : index < fmrMaxArgc := inside (.argType index) (List.mem_cons_self)
    have value : (Label.fetch argv (lfSizeof (argType m index))).Inside :=
      inside _ (List.mem_cons_of_mem _ (List.mem_cons_of_mem _ List.mem_cons_self))
    have here : argv + lfSizeof (argType m index) ≤ fmrPacketSize := by
      rcases value with none | fits <;> omega
    have next : index + 1 ≤ fmrMaxArgc := slot
    have later := ih next here _ fun label member =>
      inside label (List.mem_cons_of_mem _ (List.mem_cons_of_mem _
        (List.mem_cons_of_mem _ (List.mem_cons_of_mem _ member))))
    rw [argBytes]
    exact ⟨by omega, by omega⟩

section Call
variable {device : LfDevice} {m : Mem}

theorem fmrRpc_inside (bounded : Callable device m → (callArgc m).toNat ≤ fmrMaxArgc ∧
      argvOffset + argBytes m 0 (callArgc m).toNat ≤ fmrPacketSize) :
    (fmrRpc device m retval err).Emits Label.Inside fun _ => True := by
  unfold fmrRpc lfLlItem
  cases found : device.modules[(callModule m).toNat]? with
  | none => trivial
  | some module =>
    dsimp only
    split
    · rename_i inside
      obtain ⟨few, fits⟩ := bounded ⟨module, found, inside⟩
      apply (fmrRpcArgs_inside (by omega) fits []).bind
      rintro (failed | args)
      · trivial
      · exact ⟨trivial, fun _ => trivial⟩
    · trivial

theorem fmrRpc_reads (callable : Callable device m)
    (inside : ∀ label, Event.noted label ∈ ((fmrRpc device m retval err).run obliging ()).trace →
      label.Inside) :
    (callArgc m).toNat ≤ fmrMaxArgc ∧
    argvOffset + argBytes m 0 (callArgc m).toNat ≤ fmrPacketSize := by
  obtain ⟨module, found, present⟩ := callable
  have decoding : ∀ label,
      Event.noted label ∈ ((fmrRpcArgs m err (callArgc m).toNat 0 argvOffset []).run obliging
        ()).trace →
        label.Inside := by
    intro label member
    apply inside label
    simp only [fmrRpc, lfLlItem, found, present, dif_pos, Prog.monad_bind, Prog.run_bind]
    exact List.mem_append_left _ member
  have reads := fmrRpcArgs_reads (Nat.zero_le _) (by decide) [] decoding
  rwa [Nat.zero_add] at reads

end Call

theorem callable_setCrc (device : LfDevice) (m : Mem) (crc : BitVec 16) :
    Callable device (setCrc m crc) ↔ Callable device m := Iff.rfl

theorem sendResult_emits (m : Mem) (result : FmrResult) (err : Byte) {notes : Label → Prop} :
    (sendResult m result err).Emits notes fun _ => True :=
  ⟨trivial, fun _ => trivial⟩

theorem fmrPerform_inside {registry : Registry} {device : LfDevice} {m : Mem}
    (selected : registry (hdrType m) = some fmrRpc) (fits : FitsPacket device m) :
    (fmrPerform registry device m).Emits Label.Inside fun _ => True := by
  unfold fmrPerform
  split
  · exact sendResult_emits _ _ _
  rename_i magic
  obtain ⟨length, bounded⟩ := fits (not_not.mp magic)
  refine ⟨Or.inr (by simpa using length), ?_⟩
  change Prog.Emits _ _ (ite _ _ _)
  split
  · exact sendResult_emits _ _ _
  rename_i checksum
  have valid : ChecksumOk m := not_not.mp checksum
  split
  · exact sendResult_emits _ _ _
  split
  · exact sendResult_emits _ _ _
  rw [hdrType_setCrc, selected]
  refine ⟨trivial, ?_⟩
  apply (fmrRpc_inside fun callable => by simpa using bounded valid callable).bind
  intro returned
  exact ⟨trivial, sendResult_emits _ _ _⟩

/-- A call packet is read within its bounds exactly when its numbers keep them. -/
theorem reads_inside_iff (registry : Registry) (device : LfDevice) (m : Mem)
    (typed : hdrType m = FmrClass.rpc.code) : ReadsInside registry device m ↔
    FitsPacket device m := by
  have known : hdrType m < fmrClassCount := by rw [typed]; decide
  have selected : fmrInit registry (hdrType m) = some fmrRpc := by
    rw [typed]
    exact fmrInit_class registry .rpc
  constructor
  · intro inside magic
    have length : (hdrLen m).toNat ≤ fmrPacketSize := by
      have checked : (Label.fetch 0 (hdrLen m).toNat).Inside := by
        apply inside Unit obliging ()
        by_cases checksum : ChecksumOk m
        · by_cases loaded : device.modules = []
          · rw [run_unloaded _ _ _ _ ⟨magic, checksum, known⟩ loaded]
            exact List.mem_cons_self
          · rw [run_accepted _ _ _ _ ⟨magic, checksum, known⟩ loaded selected]
            exact List.mem_cons_self
        · rw [run_bad_checksum _ _ _ _ magic checksum]
          exact List.mem_cons_self
      rcases checked with none | fits <;> omega
    refine ⟨length, fun checksum callable => ?_⟩
    have loaded : device.modules ≠ [] := by
      rintro empty
      obtain ⟨module, found, _⟩ := callable
      simp [empty] at found
    have handled := fmrRpc_reads ((callable_setCrc device m 0).mpr callable) fun label member =>
      inside Unit obliging () label (by
        rw [run_accepted _ _ _ _ ⟨magic, checksum, known⟩ loaded selected]
        exact List.mem_cons_of_mem _ (List.mem_cons_of_mem _ (List.mem_append_left _ member)))
    simpa using handled
  · intro fits σ world s label member
    exact (fmrPerform_inside selected fits).run world s _ member

def fetched (trace : List (Event fmr)) : List (Nat × Nat) :=
  trace.filterMap fun
    | .noted (.fetch offset length) => some (offset, length)
    | _ => none

/-- Six eight-byte arguments, of which four fit. -/
def overlongCall : Mem :=
  storeCrc (Mem.overlay (fun _ => 0) ([fmrMagicNumber, 0, 0, 26, 0, FmrClass.rpc.code, 0, 0,
    0, 6] ++
    List.replicate 6 lfUint64T))

theorem overlong_call_read_outside :
    hdrType overlongCall = FmrClass.rpc.code ∧
      ¬ ReadsInside (fun _ => none) ⟨fvmModules⟩ overlongCall := by
  refine ⟨by decide +kernel, fun inside => ?_⟩
  have read : (58, 8) ∈ fetched
      ((fmrPerform (fmrInit fun _ => none) ⟨fvmModules⟩ overlongCall).run obliging ()).trace := by
    decide +kernel
  obtain ⟨event, member, picked⟩ := List.mem_filterMap.mp read
  split at picked
  · cases picked
    exact absurd (inside Unit obliging () _ member) (by decide)
  · cases picked

theorem configure_call_read_inside :
    hdrType configureCall = FmrClass.rpc.code ∧
      (ReadsInside (fun _ => none) ⟨fvmModules⟩ configureCall ↔
        FitsPacket ⟨fvmModules⟩ configureCall) := by
  have typed : hdrType configureCall = FmrClass.rpc.code := by decide +kernel
  exact ⟨typed, reads_inside_iff _ _ _ typed⟩

end Flipper.Fmr
