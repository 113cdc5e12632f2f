import Flipper.Host.ErrorReporting
import Flipper.Host.RpcRoundTrip

/-! How far `lf_invoke_by_index` writes. It checks neither the count nor the widths of
its arguments, so the argument list alone decides whether the packet is left. -/
namespace Flipper.Host
open Binary Effect Fmr

/-- The packet built for these arguments has a legal count and length, and building it
leaves whatever lies behind its 64 bytes alone. -/
def EncodesInside (idx : BitVec 16) (index : Byte) (ret : LfType) (args : List LfArg) : Prop :=
  ∀ stack : Mem,
    let packet := rpcPacket stack idx index ret args
    (callArgc packet).toNat ≤ fmrMaxArgc ∧ (∀ k, fmrPacketSize ≤ k → packet k = stack k) ∧
      (hdrLen packet).toNat ≤ fmrPacketSize

/-- This `lf_invoke_by_index` encodes its arguments inside the packet or fails without sending
a call. -/
def Call.EncodedOrRefused (c : Call) (world : World fmr σ) (s : σ) (modules : List LfModule)
    (err : Byte) : Prop :=
  let outcome := (c.invoke modules err).run world s
  EncodesInside ((lfDyldDynSymLookup c.module 0 err).run world s).value.idx c.index c.ret c.args ∨
    (outcome.value.status = lfError ∧
      ∀ bytes ∈ sent outcome.trace, bytes[5]? ≠ some FmrClass.rpc.code)

/-- Every `lf_invoke_by_index` with these arguments does. -/
def EncodedOrRefused (args : List LfArg) : Prop :=
  ∀ {σ : Type} (world : World fmr σ) (s : σ) (c : Call) (modules : List LfModule) (err : Byte),
    c.args = args → c.EncodedOrRefused world s modules err

/-- The count, as its byte has it, is at most 16, and the length computed from it at most 64. -/
def ArgsFit (args : List LfArg) : Prop :=
  let argc := args.length % 256
  argc ≤ fmrMaxArgc ∧ headerSize + callSize + argc + argsSize (args.take argc) ≤ fmrPacketSize

instance (args : List LfArg) : Decidable (ArgsFit args) := inferInstanceAs (Decidable (_ ∧ _))

section Packet
variable (stack : Mem) (idx : BitVec 16) (index : Byte) (ret : LfType) (args : List LfArg)

/-- The length does not wrap, however many arguments there are. -/
theorem rpcPacket_len_toNat : (hdrLen (rpcPacket stack idx index ret args)).toNat =
    headerSize + callSize + args.length % 256 + argsSize (args.take (args.length % 256)) := by
  have count := Nat.mod_lt args.length (show 0 < 256 by decide)
  have widths := argsSize_le (args.take (args.length % 256))
  have taken := List.length_take_le (args.length % 256) args
  rw [rpcPacket_len, BitVec.toNat_ofNat]
  simp only [headerSize, callSize]
  omega

theorem rpcPacket_argc : (callArgc (rpcPacket stack idx index ret args)).toNat =
    args.length % 256 := by
  have field : callArgc (rpcPacket stack idx index ret args) = BitVec.ofNat 8 args.length :=
    rpcPacket_fixed stack idx index ret args (by decide) (by decide)
  rw [field, BitVec.toNat_ofNat]

theorem rpcHeader_beyond (argc : Byte) (beyond : fmrPacketSize ≤ k) :
    rpcHeader stack idx index ret argc k = stack k := by
  unfold fmrPacketSize at beyond
  simp only [rpcHeader, setLen, setType, setMagic]
  rw [Mem.copy_outside _ _ _ _ (by omega), Mem.set_other _ _ (by omega),
    Mem.set_other _ _ (by omega), Mem.set_other _ _ (by omega), Mem.set_other _ _ (by omega),
    Mem.set_other _ _ (by omega),
    Mem.set_other _ _ (by omega), Mem.copy_outside _ _ _ _ (by unfold fmrPacketSize; omega)]

theorem rpcPacket_beyond (fit : ArgsFit args) (beyond : fmrPacketSize ≤ k) :
    rpcPacket stack idx index ret args k = stack k := by
  obtain ⟨few, size⟩ := fit
  have taken := List.length_take_le (args.length % 256) args
  simp only [fmrMaxArgc, headerSize, callSize, fmrPacketSize] at few size beyond
  have count : (BitVec.ofNat 8 args.length).toNat = args.length % 256 := BitVec.toNat_ofNat ..
  rw [rpcPacket, storeCrc, setCrc_at _ _ (by omega), rpcRequest, invokeArgs_take, count,
    Nat.sub_zero, invokeArgs_frame _ _ _ _ _ (by omega) (by unfold argTypesOffset; omega)
      (by unfold argvOffset; omega), rpcHeader_beyond _ _ _ _ _ beyond]

end Packet

theorem encodesInside_iff (idx : BitVec 16) (index : Byte) (ret : LfType) (args : List LfArg) :
    EncodesInside idx index ret args ↔ ArgsFit args := by
  constructor
  · intro inside
    obtain ⟨few, _, size⟩ := inside fun _ => 0
    rw [rpcPacket_argc] at few
    rw [rpcPacket_len_toNat] at size
    exact ⟨few, size⟩
  · intro fit stack
    refine ⟨?_, fun k => rpcPacket_beyond stack idx index ret args fit, ?_⟩
    · rw [rpcPacket_argc]
      exact fit.1
    · rw [rpcPacket_len_toNat]
      exact fit.2

/-- One call is safe if its packet never goes out or its arguments fit. -/
theorem call_encoded_or_refused (b : Behaviour) (c : Call) (modules : List LfModule) (err : Byte) :
    c.EncodedOrRefused b.world Behaviour.start modules err ↔
      (b.Calls modules c.module → ArgsFit c.args) := by
  constructor
  · rintro (inside | ⟨-, silent⟩) calls
    · exact (encodesInside_iff _ _ _ c.args).mp inside
    · -- The packet goes out before anything can fail.
      obtain ⟨-, before, s, err', -, -, trace, -⟩ := invoke_called b c modules err calls
      rw [trace, sent_append] at silent
      exact (silent _ (List.mem_append_right _ (exchange_sent ..)) (rpcPacket_class ..)).elim
  · intro fits
    by_cases calls : b.Calls modules c.module
    · exact .inl ((encodesInside_iff _ _ _ c.args).mpr (fits calls))
    · obtain ⟨status, -, lookups⟩ := invoke_withheld b c modules err calls
      refine .inr ⟨status, fun bytes member => ?_⟩
      rw [lookups bytes member, lookupPacket_class]
      decide

/-- Everything is answered with success and zeros. -/
def agreeing : Behaviour where
  write _ := ⟨lfSuccess, none⟩
  read _ := ⟨lfSuccess, none, fun _ => 0⟩
  malloc _ := some ⟨0x1000, fun _ => 0⟩

theorem agreeing_calls : agreeing.Calls [] dacModule.name := by
  refine ⟨by decide, ⟨_, rfl, rfl⟩, ?_⟩
  decide

/-- Nothing but a list that fits keeps `lf_invoke_by_index` inside the packet: it never
refuses one. -/
theorem encoded_or_refused_iff (args : List LfArg) :
    (EncodedOrRefused args ↔ ArgsFit args) ∧
      ∀ (b : Behaviour) (c : Call) (modules : List LfModule) (err : Byte), c.args = args →
        (c.EncodedOrRefused b.world Behaviour.start modules err ↔
          (b.Calls modules c.module → ArgsFit args)) := by
  refine ⟨⟨fun safe => ?_, ?_⟩, ?_⟩
  · have one := safe agreeing.world Behaviour.start ⟨fun _ => 0, dacModule.name, 0, lfVoidT,
      none, args⟩
      [] 0 rfl
    exact (call_encoded_or_refused agreeing _ [] 0).mp one agreeing_calls
  · rintro fit σ world s c modules err rfl
    exact Or.inl ((encodesInside_iff _ c.index c.ret c.args).mpr fit)
  · rintro b c modules err rfl
    exact call_encoded_or_refused b c modules err

def fiveWords : List LfArg := List.replicate 5 ⟨lfUint64T, BitVec.allOnes 64⟩

/-- Five 64-bit arguments reach two bytes over the end of the packet, and are sent. -/
theorem five_words_overrun :
    ¬ EncodedOrRefused fiveWords ∧
    (sent ((lfInvokeByIndex (fun _ => 0) [] dacModule.name 0 lfVoidT none fiveWords 0).run
      obliging ()).trace).length = 3 ∧
    Mem.slice (rpcPacket (fun _ => 0) 0 0 lfVoidT fiveWords) 64 3 = [0xFF, 0xFF, 0] ∧
    hdrLen (rpcPacket (fun _ => 0) 0 0 lfVoidT fiveWords) = 71 := by
  refine ⟨?_, by decide +kernel, by decide +kernel, by decide +kernel⟩
  intro safe
  have one := safe agreeing.world Behaviour.start
    ⟨fun _ => 0, dacModule.name, 0, lfVoidT, none, fiveWords⟩ [] 0 rfl
  exact absurd ((call_encoded_or_refused agreeing _ [] 0).mp one agreeing_calls) (by decide)

end Flipper.Host
