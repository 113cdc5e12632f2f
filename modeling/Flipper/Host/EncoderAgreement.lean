import Flipper.Host.InvokeOutcome
import Flipper.Host.RpcRoundTrip

/-! The two call encoders. `lf_create_call` leaves the header out of the length it
stores and writes zero for the function; `lf_invoke_by_index` counts the header and
writes the index it was given. -/
namespace Flipper.Host
open Binary Effect Fmr

def invokePacket (module : BitVec 32) (function : LfFunction) (ret : LfType) (args : List LfArg) :
    Mem :=
  storeCrc (lfCreateCall blankCall module function ret args).2

/-- The packet after the loop, when it is accepted. -/
theorem createCall_filled (m : Mem) (module : BitVec 32) (function : LfFunction) (ret : LfType)
    (accepts : CallAccepts args) :
    (lfCreateCall m module function ret args).2 =
      let m := (((m.set 6 (module.setWidth 8)).set 7 0).set 8 ret).set 9
        (BitVec.ofNat 8 args.length)
      let argc := args.length % 256
      setLen (setType (createCallArgs argc m 0 argvOffset (callSize + argc) args).2
        FmrClass.rpc.code)
        (BitVec.ofNat 16 (callSize + argc + argsSize (args.take argc))) := by
  have size := createCallArgs_accepts
    ((((m.set 6 (module.setWidth 8)).set 7 0).set 8 ret).set 9 (BitVec.ofNat 8 args.length)) args
  rw [if_pos accepts] at size
  simp only [lfCreateCall, BitVec.toNat_ofNat]
  generalize createCallArgs _ _ _ _ _ args = encoded at size ⊢
  obtain ⟨payload, m⟩ := encoded
  cases size
  rfl

theorem createCall_len (m : Mem) (module : BitVec 32) (function : LfFunction) (ret : LfType)
    (accepts : CallAccepts args) :
    hdrLen (lfCreateCall m module function ret args).2 =
      BitVec.ofNat 16 (callSize + args.length % 256 + argsSize
        (args.take (args.length % 256))) := by
  rw [createCall_filled m module function ret accepts]
  exact hdrLen_setLen _ _

/-- Whatever the function and the arguments, the lengths stored by the two encoders
are six apart, so the packets are never the same. -/
theorem encoders_disagree (stack : Mem) (idx f : Byte) (ret : LfType) (args : List LfArg)
    (accepted : (lfCreateCall blankCall (idx.setWidth 32) f.toNat ret args).1 = lfSuccess) :
    Mem.slice (invokePacket (idx.setWidth 32) f.toNat ret args) 0 fmrPacketSize ≠
      Mem.slice (rpcPacket stack (idx.setWidth 16) f ret args) 0 fmrPacketSize := by
  intro same
  have accepts := (createCall_accepts blankCall (idx.setWidth 32) f.toNat ret args).mp accepted
  have lengths : hdrLen (invokePacket (idx.setWidth 32) f.toNat ret args) =
      hdrLen (rpcPacket stack (idx.setWidth 16) f ret args) := by
    apply (header_congr fun i inside => ?_).2.2.1
    simpa using Mem.slice_inj same (Nat.lt_trans inside (by decide))
  rw [invokePacket, storeCrc, hdrLen_setCrc, createCall_len _ _ _ _ accepts,
    rpcPacket_len] at lengths
  have apart := congrArg BitVec.toNat lengths
  simp only [BitVec.toNat_ofNat, headerSize] at apart
  omega

/-- Function 2 of module 0 without arguments: `lf_invoke` asks for function 0 and
stores 20 bytes, `lf_invoke_by_index` asks for function 2 and stores 26. -/
theorem plain_call_disagrees :
    callFunction (invokePacket 0 2 lfVoidT []) = 0 ∧
      callFunction (rpcPacket (fun _ => 0) 0 2 lfVoidT []) = 2 ∧
      hdrLen (invokePacket 0 2 lfVoidT []) = 20 ∧
      hdrLen (rpcPacket (fun _ => 0) 0 2 lfVoidT []) = 26 ∧
      Mem.slice (invokePacket 0 2 lfVoidT []) 0 fmrPacketSize ≠
        Mem.slice (rpcPacket (fun _ => 0) 0 2 lfVoidT []) 0 fmrPacketSize := by
  refine ⟨by decide +kernel, by decide +kernel, by decide +kernel, by decide +kernel,
    by decide +kernel⟩

/-- The arguments of a `dac_write` are accepted by both encoders. -/
theorem dac_write_disagrees :
    (lfCreateCall blankCall 0 3 lfVoidT dacWriteArgs).1 = lfSuccess ∧
      Mem.slice (invokePacket 0 3 lfVoidT dacWriteArgs) 0 fmrPacketSize ≠
        Mem.slice (rpcPacket (fun _ => 0) 0 3 lfVoidT dacWriteArgs) 0 fmrPacketSize :=
  ⟨by decide +kernel, encoders_disagree (fun _ => 0) 0 3 lfVoidT dacWriteArgs (by decide +kernel)⟩

end Flipper.Host
