import Flipper.Host.CallRoundTrip
import Flipper.Fmr.CorruptionRejected

/-! Which bytes of a packet of `lf_invoke` its checksum covers. `lf_create_call` leaves
the six bytes of the header out of `hdr.len`, while the checksum starts at the header: the
last value bytes are covered only where six argument types make up for it. -/
namespace Flipper.Host
open Binary Effect Fmr

/-- A type or a value byte of a call with these arguments. -/
def ArgByte (args : List LfArg) (k : Nat) : Prop :=
  let argc := args.length % 256
  (argTypesOffset ≤ k ∧ k < argTypesOffset + argc) ∨
    (argvOffset ≤ k ∧ k < argvOffset + argsSize (args.take argc))

/-- All argument bytes lie in the first `hdr.len` bytes. -/
def ArgsCovered (packet : Mem) (args : List LfArg) : Prop :=
  ∀ k, ArgByte args k → k < (hdrLen packet).toNat

/-- Whichever argument byte is changed on the way, `fmr_perform` answers `E_CHECKSUM` and
calls nothing. -/
def ArgsGuarded (packet : Mem) (args : List LfArg) : Prop :=
  ∀ {σ : Type} (world : World fmr σ) (s : σ) (registry : Registry) (device : LfDevice) (rest : Mem)
    (k : Nat) (byte : Byte), ArgByte args k → byte ≠ packet k →
      let trace := ((fmrPerform (fmrInit registry) device ((delivered packet rest).set k byte)).run
        world s).trace
      dispatched trace = [] ∧ invoked trace = [] ∧
        sent trace = [FmrResult.bytes ⟨0, LfErr.eChecksum.code⟩]

/-- There are no value bytes, or at least as many arguments as the header has bytes. -/
def HeaderMadeUp (args : List LfArg) : Prop :=
  let argc := args.length % 256
  argsSize (args.take argc) = 0 ∨ headerSize ≤ argc

instance (args : List LfArg) : Decidable (HeaderMadeUp args) := inferInstanceAs (Decidable (_ ∨ _))

section Packet
variable (module : BitVec 32) (function : LfFunction) (ret : LfType) {args : List LfArg}

theorem createCall_head (m : Mem) (accepts : CallAccepts args) (low : k < 3) :
    (lfCreateCall m module function ret args).2 k = m k := by
  rw [createCall_filled m module function ret accepts]
  simp only [setLen, setType]
  rw [Mem.copy_outside _ _ _ _ (by omega), Mem.set_other _ _ (by omega),
    createCallArgs_frame _ _ _ _ _ _ (by unfold argTypesOffset; omega)
      (by unfold argvOffset; omega),
    Mem.set_other _ _ (by omega), Mem.set_other _ _ (by omega), Mem.set_other _ _ (by omega),
    Mem.set_other _ _ (by omega)]

theorem invokePacket_type (accepts : CallAccepts args) :
    hdrType (invokePacket module function ret args) = FmrClass.rpc.code := by
  rw [invokePacket, storeCrc, hdrType, setCrc_at _ _ (by decide),
    createCall_filled _ module function ret accepts]
  rfl

theorem invokePacket_len (accepts : CallAccepts args) :
    (hdrLen (invokePacket module function ret args)).toNat =
      callSize + args.length % 256 + argsSize (args.take (args.length % 256)) := by
  have count := Nat.mod_lt args.length (show 0 < 256 by decide)
  have widths := argsSize_le (args.take (args.length % 256))
  have taken := List.length_take_le (args.length % 256) args
  rw [invokePacket, storeCrc, hdrLen_setCrc, createCall_len _ _ _ _ accepts, BitVec.toNat_ofNat]
  unfold callSize
  omega

theorem invokePacket_accepted (accepts : CallAccepts args) :
    Accepted (invokePacket module function ret args) := by
  have cleared : hdrCrc (lfCreateCall blankCall module function ret args).2 = 0 := by
    rw [hdrCrc, createCall_head module function ret _ accepts (by decide),
      createCall_head module function ret _ accepts (by decide)]
    rfl
  refine ⟨?_, storeCrc_checksum cleared, ?_⟩
  · rw [invokePacket, storeCrc, hdrMagic, setCrc_at _ _ (by decide),
      createCall_head module function ret _ accepts (by decide)]
    rfl
  · rw [invokePacket_type module function ret accepts]
    decide

/-- Nothing accepted is longer than what the header leaves of the packet. -/
theorem CallAccepts.size_le (accepts : CallAccepts args) :
    callSize + args.length % 256 + argsSize (args.take (args.length % 256)) ≤ fmrPacketSize -
      headerSize := by
  rcases accepts with none | fits
  · simp [none, callSize, fmrPacketSize, headerSize]
  · exact fits

theorem argsCovered_iff (accepts : CallAccepts args) :
    ArgsCovered (invokePacket module function ret args) args ↔ HeaderMadeUp args := by
  unfold ArgsCovered
  rw [invokePacket_len module function ret accepts]
  simp only [ArgByte, HeaderMadeUp, argTypesOffset, argvOffset, callSize, headerSize]
  constructor
  · intro covered
    by_contra short
    have last := covered (26 + argsSize (args.take (args.length % 256)) - 1) (Or.inr (by omega))
    omega
  · rintro madeUp k (type | value)
    · omega
    · omega

theorem invokePacket_short (accepts : CallAccepts args) :
    (hdrLen (invokePacket module function ret args)).toNat ≤ fmrPacketSize := by
  rw [invokePacket_len module function ret accepts]
  exact Nat.le_trans accepts.size_le (Nat.sub_le _ _)

/-- The packet is as good in front of any memory. -/
theorem invokePacket_delivered (accepts : CallAccepts args) (rest : Mem) :
    Accepted (delivered (invokePacket module function ret args) rest) ∧
      hdrLen (delivered (invokePacket module function ret args) rest) =
        hdrLen (invokePacket module function ret args) := by
  have same : ∀ i < fmrPacketSize, delivered (invokePacket module function ret args) rest i =
      invokePacket module function ret args i := fun i inside => delivered_inside _ rest inside
  constructor
  · exact accepted_congr same (by decide) (invokePacket_short module function ret accepts)
      (invokePacket_accepted module function ret accepts)
  · exact (header_congr fun i low => same i (Nat.lt_trans low (by decide))).2.2.1

theorem ArgByte.behind (argument : ArgByte args k) : argTypesOffset ≤ k := by
  rcases argument with type | value
  · exact type.1
  · exact Nat.le_trans (by decide) value.1

theorem argsGuarded_of_covered (accepts : CallAccepts args)
    (covered : ArgsCovered (invokePacket module function ret args) args) :
    ArgsGuarded (invokePacket module function ret args) args := by
  intro σ world s registry device rest k byte argument differs
  have inside := covered k argument
  have behind := argument.behind
  have short := invokePacket_short module function ret accepts
  obtain ⟨accepted, len⟩ := invokePacket_delivered module function ret accepts rest
  have kept : hdrMagic ((delivered (invokePacket module function ret args) rest).set k byte) =
      fmrMagicNumber := by
    rw [hdrMagic, Mem.set_other _ _ (by unfold argTypesOffset at behind; omega)]
    exact accepted.magic
  have damaged : ¬ ChecksumOk ((delivered (invokePacket module function ret args) rest).set k
      byte) := by
    apply changed_byte_checksum accepted.checksum
    · rwa [len]
    · exact Nat.le_trans (by decide) behind
    · rwa [len]
    · rwa [delivered_inside _ _ (Nat.lt_of_lt_of_le inside short)]
  rw [run_bad_checksum (fmrInit registry) device world s kept damaged]
  exact ⟨rfl, rfl, rfl⟩

/-- A change behind the first `hdr.len` bytes goes unnoticed, and the packet is handled. -/
theorem uncovered_dispatched (accepts : CallAccepts args)
    (outside : (hdrLen (invokePacket module function ret args)).toNat ≤ k) (byte : Byte)
    (rest : Mem)
    (registry : Registry) (device : LfDevice) (loaded : device.modules ≠ []) (world : World fmr σ)
    (s : σ) :
    FmrClass.rpc.code ∈ dispatched ((fmrPerform (fmrInit registry) device
      ((delivered (invokePacket module function ret args) rest).set k byte)).run world
        s).trace := by
  have short := invokePacket_short module function ret accepts
  have long : callSize ≤ (hdrLen (invokePacket module function ret args)).toNat := by
    rw [invokePacket_len module function ret accepts, Nat.add_assoc]
    exact Nat.le_add_right _ _
  have same : ∀ i < (hdrLen (invokePacket module function ret args)).toNat,
      (delivered (invokePacket module function ret args) rest).set k byte i =
        invokePacket module function ret args i := by
    intro i inside
    rw [Mem.set_other _ _ (by omega), delivered_inside _ _ (by omega)]
  have whole := Nat.le_trans (by decide : headerSize ≤ callSize) long
  have accepted := accepted_congr same whole (Nat.le_refl _)
    (invokePacket_accepted module function ret accepts)
  have typed : hdrType ((delivered (invokePacket module function ret args) rest).set k byte) =
      FmrClass.rpc.code := by
    rw [(header_congr fun i low => same i (Nat.lt_of_lt_of_le low whole)).2.2.2]
    exact invokePacket_type module function ret accepts
  rw [run_dispatched registry device world s accepted loaded typed]
  simp [dispatched, typed]

theorem argsGuarded_iff (accepts : CallAccepts args) :
    ArgsGuarded (invokePacket module function ret args) args ↔ HeaderMadeUp args := by
  rw [← argsCovered_iff module function ret accepts]
  constructor
  · intro guarded k argument
    by_contra outside
    have : Nontrivial Byte := ⟨0, 1, by decide⟩
    obtain ⟨byte, differs⟩ := exists_ne (invokePacket module function ret args k)
    have handled := uncovered_dispatched module function ret accepts (Nat.not_lt.mp outside) byte
      (fun _ => 0) (fun _ => none) ⟨fvmModules⟩ (by decide) obliging ()
    have unhandled := (guarded obliging () (fun _ => none) ⟨fvmModules⟩ (fun _ => 0) k byte argument
      differs).1
    rw [unhandled] at handled
    cases handled
  · exact argsGuarded_of_covered module function ret accepts

end Packet

/-- The arguments of an accepted call are covered by the checksum, and guarded by it, just
when there are no value bytes or six arguments and more. -/
theorem arguments_covered_iff (module : BitVec 32) (function : LfFunction) (ret : LfType)
    (args : List LfArg)
    (accepted : (lfCreateCall blankCall module function ret args).1 = lfSuccess) :
    (ArgsCovered (invokePacket module function ret args) args ↔ HeaderMadeUp args) ∧
      (ArgsGuarded (invokePacket module function ret args) args ↔ HeaderMadeUp args) := by
  have accepts := (createCall_accepts blankCall module function ret args).mp accepted
  exact ⟨argsCovered_iff module function ret accepts, argsGuarded_iff module function ret accepts⟩

/-- Six bytes are covered and guarded. -/
theorem six_bytes_covered :
    let args : List LfArg := List.replicate 6 ⟨lfUint8T, 2⟩
    ArgsCovered (invokePacket 0 0 lfVoidT args) args ∧
      ArgsGuarded (invokePacket 0 0 lfVoidT args) args := by
  intro args
  obtain ⟨covered, guarded⟩ := arguments_covered_iff 0 0 lfVoidT args (by decide +kernel)
  have madeUp : HeaderMadeUp args := by decide
  exact ⟨covered.mpr madeUp, guarded.mpr madeUp⟩

/-- The two arguments of a `dac_write` take bytes 26 to 30 and `hdr.len` is 27: a changed
value goes to the function. -/
theorem dac_write_uncovered :
    let packet := invokePacket 0 0 lfVoidT dacWriteArgs
    (lfCreateCall blankCall 0 0 lfVoidT dacWriteArgs).1 = lfSuccess ∧
    hdrLen packet = 27 ∧ ¬ ArgsCovered packet dacWriteArgs ∧ ¬ ArgsGuarded packet dacWriteArgs ∧
    ((invoked ((fmrPerform (fmrInit fun _ => none) ⟨fvmModules⟩
      ((delivered packet fun _ => 0).set 27 0xEE)).run obliging ()).trace).map
        fun call => call.2.map LfArg.value) = [[2, 0xBEEE]] := by
  intro packet
  have accepts : CallAccepts dacWriteArgs := by decide
  refine ⟨by decide +kernel, by decide +kernel, ?_, ?_, by decide +kernel⟩
  · rw [argsCovered_iff 0 0 lfVoidT accepts]
    decide
  · rw [argsGuarded_iff 0 0 lfVoidT accepts]
    decide

end Flipper.Host
