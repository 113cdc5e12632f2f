import Flipper.Fmr.CallGate
import Flipper.Host.Invoke

/-! What `lf_invoke_by_index` encodes, `fmr_rpc` decodes. The encoder's loop lays
the arguments out in two areas of the packet, and the decoder's loop reads back
whatever is laid out so. -/
namespace Flipper.Host
open Binary Effect Fmr

/-- From type slot `i` and offset `argv` on, the packet holds these arguments. -/
def Laid (m : Mem) (i argv : Nat) : List LfArg → Prop
  | [] => True
  | arg :: args =>
    argType m i = arg.type ∧ (∀ b < lfSizeof arg.type, m (argv + b) = byteOf arg.value b) ∧
      Laid m (i + 1) (argv + lfSizeof arg.type) args

/-- Same types, and values equal in the bytes their type has. -/
def SameArgs : List LfArg → List LfArg → Prop :=
  List.Forall₂ fun given got => got.type = given.type ∧
    got.value.toNat % 2 ^ (8 * lfSizeof given.type) = given.value.toNat % 2 ^
      (8 * lfSizeof given.type)

/-- The loop ends with the count: later arguments play no part. -/
theorem invokeArgs_take (argc : Nat) (m : Mem) (i argv : Nat) (args : List LfArg) :
    invokeArgs argc m i argv args = invokeArgs argc m i argv (args.take (argc - i)) := by
  induction args generalizing m i argv with
  | nil => simp
  | cons arg args ih =>
    by_cases inside : i < argc
    · have left : argc - i = argc - (i + 1) + 1 := by omega
      rw [left, List.take_succ_cons, invokeArgs, invokeArgs, if_pos inside, if_pos inside]
      exact ih _ _ _
    · simp [invokeArgs, inside, Nat.sub_eq_zero_of_le (Nat.not_lt.mp inside)]

/-- Of the bytes outside the two areas only `len` changes. -/
theorem invokeArgs_frame (argc : Nat) (m : Mem) (i argv : Nat) (args : List LfArg)
    (len : k ≠ 3 ∧ k ≠ 4) (types : k < argTypesOffset + i ∨ argTypesOffset + i + args.length ≤ k)
    (values : k < argv ∨ argv + argsSize args ≤ k) :
    invokeArgs argc m i argv args k = m k := by
  induction args generalizing m i argv with
  | nil => rfl
  | cons arg args ih =>
    simp only [List.length_cons, argsSize_cons] at types values
    rw [invokeArgs]
    split
    · rw [ih _ _ _ (by omega) (by omega), setLen, Mem.copy_outside _ _ _ _ (by omega),
        Mem.copy_outside _ _ _ _ (by omega), Mem.set_other _ _ (by omega)]
    · rfl

theorem invokeArgs_laid (argc : Nat) (m : Mem) (i argv : Nat) (args : List LfArg)
    (counted : i + args.length ≤ argc) (apart : argTypesOffset + i + args.length ≤ argv) :
    Laid (invokeArgs argc m i argv args) i argv args := by
  induction args generalizing m i argv with
  | nil => trivial
  | cons arg args ih =>
    simp only [List.length_cons] at counted apart
    rw [invokeArgs, if_pos (by omega)]
    refine ⟨?_, ?_, ih _ _ _ (by omega) (by omega)⟩
    · rw [argType, invokeArgs_frame argc _ _ _ args (by unfold argTypesOffset; omega) (by omega)
        (by omega), setLen, Mem.copy_outside _ _ _ _ (by unfold argTypesOffset; omega),
        Mem.copy_outside _ _ _ _ (by omega), Mem.set_self]
    · intro b inside
      have low : 10 ≤ argv := by unfold argTypesOffset at apart; omega
      rw [invokeArgs_frame argc _ _ _ args (by omega) (by omega) (by omega), setLen,
        Mem.copy_outside _ _ _ _ (by omega), Mem.copy_inside _ _ _ _ (by omega) (by omega)]
      congr 1
      omega

theorem invokeArgs_len (argc : Nat) (m : Mem) (i argv : Nat) (args : List LfArg)
    (beyond : headerSize ≤ argv) :
    hdrLen (invokeArgs argc m i argv args) =
      hdrLen m + BitVec.ofNat 16 (argsSize (args.take (argc - i))) := by
  induction args generalizing m i argv with
  | nil => simp [invokeArgs]
  | cons arg args ih =>
    rw [invokeArgs]
    by_cases inside : i < argc
    · have left : argc - i = argc - (i + 1) + 1 := by omega
      rw [if_pos inside, ih _ _ _ (by omega), hdrLen_setLen, hdrLen_copy _ _ beyond,
        hdrLen_set _ _ (by unfold argTypesOffset headerSize; omega), left, List.take_succ_cons,
        argsSize_cons, BitVec.ofNat_add, BitVec.add_assoc]
    · rw [if_neg inside, Nat.sub_eq_zero_of_le (Nat.not_lt.mp inside)]
      simp

/-- A layout is what the two areas hold. -/
theorem laid_congr {m m' : Mem} (i argv : Nat) (args : List LfArg)
    (same : ∀ k, (argTypesOffset + i ≤ k ∧ k < argTypesOffset + i + args.length) ∨
      (argv ≤ k ∧ k < argv + argsSize args) → m k = m' k)
    (laid : Laid m' i argv args) : Laid m i argv args := by
  induction args generalizing i argv with
  | nil => trivial
  | cons arg args ih =>
    simp only [List.length_cons, argsSize_cons] at same
    obtain ⟨type, value, more⟩ := laid
    refine ⟨?_, ?_, ih _ _ (fun k inside => same k (by omega)) more⟩
    · rw [argType, same _ (by omega)]
      exact type
    · intro b inside
      rw [same _ (by omega)]
      exact value b inside

theorem argValue_mod {m : Mem} {value : BitVec 64} (size : Nat) (narrow : size ≤ 8)
    (bytes : ∀ b < size, m (argv + b) = byteOf value b) (block : Block) :
    (argValue m argv size block).toNat % 2 ^ (8 * size) = value.toNat % 2 ^ (8 * size) := by
  have base : (2 : Nat) ^ (8 * size) = 256 ^ size := pow_mul 2 8 size
  have copied : ∀ k < size, (if k < size then m (argv + k) else block.bytes (1 + k)) =
      byteOf value k := by
    intro k inside
    rw [if_pos inside, bytes k inside]
  rw [argValue, word64_toNat, base, leNat_mod _ narrow, leNat_congr copied, leNat_byteOf]

/-- The decoder's loop reads back what is laid out. -/
theorem fmrRpcArgs_decodes (far : World fmr σ)
    (available : ∀ size s, (far.answer (Op.malloc size) s).1.isSome) (s : σ) (err : Byte)
    (i argv : Nat) (args acc : List LfArg) (laid : Laid m i argv args) :
    ∃ got, ((fmrRpcArgs m err args.length i argv acc).run far s).value = .ok (acc ++ got) ∧
      SameArgs args got := by
  induction args generalizing s i argv acc with
  | nil => exact ⟨[], by simp [fmrRpcArgs], .nil⟩
  | cons arg args ih =>
    obtain ⟨type, value, more⟩ := laid
    obtain ⟨block, record⟩ := Option.isSome_iff_exists.mp (available argRecordSize s)
    obtain ⟨next, node⟩ := Option.isSome_iff_exists.mp
      (available nodeSize (far.answer (Op.malloc argRecordSize) s).2)
    obtain ⟨got, decoded, same⟩ := ih
      (far.answer (Op.malloc nodeSize) (far.answer (Op.malloc argRecordSize) s).2).2 (i + 1)
        (argv + lfSizeof arg.type)
      (acc ++ [⟨arg.type, argValue m argv (lfSizeof arg.type) block⟩]) more
    refine ⟨⟨arg.type, argValue m argv (lfSizeof arg.type) block⟩ :: got, ?_, .cons ⟨rfl, ?_⟩ same⟩
    · simp [fmrRpcArgs, lfLlAppend, Prog.bind_assoc, record, node, type, decoded]
    · exact argValue_mod _ (lfSizeof_le _) value block

section Packet
variable (stack : Mem) (idx : BitVec 16) (index : Byte) (ret : LfType) (args : List LfArg)

/-- The fixed fields in front of the argument types, `crc` and `len` apart. -/
theorem rpcPacket_fixed (low : k < argTypesOffset) (other : k ≠ 1 ∧ k ≠ 2 ∧ k ≠ 3 ∧ k ≠ 4) :
    rpcPacket stack idx index ret args k =
      rpcHeader stack idx index ret (BitVec.ofNat 8 args.length) k := by
  rw [rpcPacket, storeCrc, setCrc_at _ _ (by omega), rpcRequest,
    invokeArgs_frame _ _ _ _ _ (by omega) (by omega)
      (by unfold argTypesOffset at low; unfold argvOffset; omega)]

theorem rpcPacket_class :
    (Mem.slice (rpcPacket stack idx index ret args) 0 fmrPacketSize)[5]? =
    some FmrClass.rpc.code := by
  simp [Mem.slice, fmrPacketSize]
  exact rpcPacket_fixed stack idx index ret args (by decide) (by decide)

theorem hdrCrc_rpcRequest : hdrCrc (rpcRequest stack idx index ret args) = 0 := by
  have clear : ∀ k, k = 1 ∨ k = 2 → rpcRequest stack idx index ret args k = 0 := by
    intro k field
    rw [rpcRequest, invokeArgs_frame _ _ _ _ _ (by omega) (by unfold argTypesOffset; omega)
      (by unfold argvOffset; omega)]
    rcases field with rfl | rfl <;> rfl
  rw [hdrCrc, clear 1 (Or.inl rfl), clear 2 (Or.inr rfl)]
  decide

theorem rpcPacket_len : hdrLen (rpcPacket stack idx index ret args) =
    BitVec.ofNat 16 (headerSize + callSize + args.length % 256 +
      argsSize (args.take (args.length % 256))) := by
  rw [rpcPacket, storeCrc, hdrLen_setCrc, rpcRequest, invokeArgs_len _ _ _ _ _ (by decide),
    rpcHeader, hdrLen_setLen, ← BitVec.ofNat_add, BitVec.toNat_ofNat, Nat.sub_zero]

theorem rpcPacket_accepted : Accepted (rpcPacket stack idx index ret args) := by
  refine ⟨?_, storeCrc_checksum (hdrCrc_rpcRequest stack idx index ret args), ?_⟩
  · exact rpcPacket_fixed stack idx index ret args (by decide) (by decide)
  · have typed : hdrType (rpcPacket stack idx index ret args) = FmrClass.rpc.code :=
      rpcPacket_fixed stack idx index ret args (by decide) (by decide)
    rw [typed]
    decide

variable (few : args.length ≤ fmrMaxArgc)
  (fits : headerSize + callSize + args.length + argsSize args ≤ fmrPacketSize)

include few in
theorem argc_toNat : (BitVec.ofNat 8 args.length).toNat = args.length := by
  simp only [fmrMaxArgc, BitVec.toNat_ofNat] at *
  omega

include few fits in
theorem hdrLen_rpcPacket : (hdrLen (rpcPacket stack idx index ret args)).toNat =
    headerSize + callSize + args.length + argsSize args := by
  simp only [fmrMaxArgc, headerSize, callSize, fmrPacketSize] at *
  rw [rpcPacket_len, Nat.mod_eq_of_lt (by omega), List.take_length]
  simp only [headerSize, callSize, BitVec.toNat_ofNat]
  omega

include few in
theorem rpcPacket_laid : Laid (rpcPacket stack idx index ret args) 0 argvOffset args := by
  have laid := invokeArgs_laid (BitVec.ofNat 8 args.length).toNat
    (rpcHeader stack idx index ret (BitVec.ofNat 8 args.length)) 0 argvOffset args
      (by rw [argc_toNat args few]; omega)
    (by unfold fmrMaxArgc at few; unfold argTypesOffset argvOffset; omega)
  apply laid_congr 0 argvOffset args _ laid
  intro k inside
  exact setCrc_at _ _ (by unfold argTypesOffset argvOffset at inside; omega)

/-! A memory that starts with the 64 bytes of the packet. -/
variable {m : Mem} (same : ∀ k < fmrPacketSize, m k = rpcPacket stack idx index ret args k)

include few fits same in
theorem carried_accepted : Accepted m := by
  apply accepted_congr same (by decide) _ (rpcPacket_accepted stack idx index ret args)
  rw [hdrLen_rpcPacket stack idx index ret args few fits]
  exact fits

include same in
theorem carried_fields : hdrType m = FmrClass.rpc.code ∧ callModule m = idx.setWidth 8 ∧
    callFunction m = index ∧ callRet m = ret ∧ callArgc m = BitVec.ofNat 8 args.length := by
  have fixed : ∀ k < argTypesOffset, k ≠ 1 ∧ k ≠ 2 ∧ k ≠ 3 ∧ k ≠ 4 →
      m k = rpcHeader stack idx index ret (BitVec.ofNat 8 args.length) k := by
    intro k low other
    rw [same k (by unfold argTypesOffset at low; unfold fmrPacketSize; omega),
      rpcPacket_fixed stack idx index ret args low other]
  exact ⟨fixed 5 (by decide) (by decide), fixed 6 (by decide) (by decide),
    fixed 7 (by decide) (by decide), fixed 8 (by decide) (by decide),
    fixed 9 (by decide) (by decide)⟩

include few fits same in
theorem carried_laid : Laid (setCrc m 0) 0 argvOffset args := by
  apply laid_congr 0 argvOffset args _ (rpcPacket_laid stack idx index ret args few)
  intro k inside
  simp only [argTypesOffset, argvOffset, fmrMaxArgc, headerSize, callSize, fmrPacketSize] at *
  rw [setCrc_at _ _ (by omega), same k (by omega)]

end Packet

/-- The packet in a trace of `lf_invoke_by_index` that is not a lookup. -/
theorem rpcPacket_sent (near : World fmr τ) (t : τ) (stack : Mem) (modules : List LfModule)
    (name : CString) (index : Byte) (ret : LfType) (retval : Option (BitVec 64))
    (args : List LfArg) (err : Byte)
    (written : bytes ∈ sent ((lfInvokeByIndex stack modules name index ret retval args err).run near
      t).trace)
    (call : bytes[5]? = some FmrClass.rpc.code) :
    bytes = Mem.slice (rpcPacket stack ((lfDyldDynSymLookup name 0 err).run near t).value.idx
      index ret args) 0 fmrPacketSize := by
  rcases invokeByIndex_sent near t stack modules name index ret retval args err written with
    lookup | same
  · rw [lookup] at call
    rw [lookupPacket_class] at call
    exact absurd (Option.some.inj call) (by decide)
  · exact same

/-- The call packet reaches `fmr_rpc` whole: it passes every check, names the
module and the function it was made for, and carries the arguments in order. -/
theorem rpc_round_trip (near : World fmr τ) (t : τ) (stack : Mem) (modules : List LfModule)
    (name : CString) (index : Byte) (ret : LfType) (retval : Option (BitVec 64))
    (args : List LfArg) (err : Byte)
    (looked : ((lfDyldDynSymLookup name 0 err).run near t).value.idx = idx)
    (small : idx.toNat < 256) (few : args.length ≤ fmrMaxArgc)
    (fits : headerSize + callSize + args.length + argsSize args ≤ fmrPacketSize)
    (written : bytes ∈ sent ((lfInvokeByIndex stack modules name index ret retval args err).run near
      t).trace)
    (call : bytes[5]? = some FmrClass.rpc.code)
    (registry : Registry) (device : LfDevice) (rest : Mem) (far : World fmr σ) (s : σ)
    (available : ∀ size s, (far.answer (Op.malloc size) s).1.isSome) :
    let m := rest.overlay bytes
    Accepted m ∧ hdrType m = FmrClass.rpc.code ∧ (callModule m).toNat = idx.toNat ∧
      callFunction m = index ∧ callRet m = ret ∧
      ∃ got, SameArgs args got ∧
        ((fmrRpcArgs (setCrc m 0) LfErr.eOk.code (callArgc m).toNat 0 argvOffset []).run far
          s).value =
          .ok got ∧
        ∀ module, device.modules[idx.toNat]? = some module →
          ∀ inside : index.toNat < module.table.length,
            invoked ((fmrPerform (fmrInit registry) device m).run far s).trace =
              [(module.table.get ⟨index.toNat, inside⟩, got)] := by
  have packet := rpcPacket_sent near t stack modules name index ret retval args err written call
  rw [looked] at packet
  have same : ∀ k < fmrPacketSize, rest.overlay bytes k = rpcPacket stack idx index ret args k := by
    intro k inside
    rw [packet]
    exact Mem.overlay_slice rest _ inside
  have accepted := carried_accepted stack idx index ret args few fits same
  obtain ⟨typed, module', function, returns, argc⟩ := carried_fields stack idx index ret args same
  have position : (callModule (rest.overlay bytes)).toNat = idx.toNat := by
    rw [module', BitVec.toNat_setWidth]
    exact Nat.mod_eq_of_lt small
  obtain ⟨got, decoded, agree⟩ :=
    fmrRpcArgs_decodes far available s LfErr.eOk.code 0 argvOffset args []
    (carried_laid stack idx index ret args few fits same)
  rw [List.nil_append, ← argc_toNat args few, ← argc] at decoded
  refine ⟨accepted, typed, position, function, returns, got, agree, decoded, ?_⟩
  intro module found inside
  have loaded : device.modules ≠ [] := by
    intro empty
    simp [empty] at found
  have inside' : (callFunction (setCrc (rest.overlay bytes) 0)).toNat < module.table.length := by
    rwa [callFunction_setCrc, function]
  rw [invoked_rpc registry device far s accepted loaded typed,
    fmrRpc_invokes far s (by rwa [callModule_setCrc, position]) inside' decoded]
  simp only [callFunction_setCrc, function]

/-- Arguments of two widths for `fvm_dac_write`. -/
def dacWriteArgs : List LfArg := [⟨lfUint8T, 2⟩, ⟨lfUint32T, 0xBEEF⟩]

def dacWriteCall : List Byte :=
  Mem.slice (rpcPacket (fun _ => 0) 0 3 lfVoidT dacWriteArgs) 0 fmrPacketSize

theorem dac_write_round_trip :
    dacWriteCall ∈ sent ((lfInvokeByIndex (fun _ => 0) [] dacModule.name 3 lfVoidT none
      dacWriteArgs 0).run
        obliging ()).trace ∧
      ∃ got, SameArgs dacWriteArgs got ∧
        invoked ((fmrPerform (fmrInit fun _ => none) ⟨fvmModules⟩
          (Mem.overlay (fun _ => 0) dacWriteCall)).run obliging ()).trace = [(3, got)] := by
  have written : dacWriteCall ∈ sent ((lfInvokeByIndex (fun _ => 0) [] dacModule.name 3 lfVoidT none
      dacWriteArgs 0).run obliging ()).trace := by decide +kernel
  have trip := rpc_round_trip obliging () (fun _ => 0) [] dacModule.name 3 lfVoidT none
    dacWriteArgs 0
    (show _ = (0 : BitVec 16) by decide +kernel) (by decide) (by decide) (by decide) written
    (by decide +kernel) (fun _ => none) ⟨fvmModules⟩ (fun _ => 0) obliging () (fun _ _ => rfl)
  obtain ⟨_, _, _, _, _, got, same, _, called⟩ := trip
  have first : fvmModules[0]? = some { dacModule with idx := 0 } := by decide +kernel
  exact ⟨written, got, same, called _ first (by decide)⟩

end Flipper.Host
