import Flipper.Fmr.PacketBounds

/-! What of the packet memory `fmr_perform` depends on. Two memories that agree on
the first `n` bytes and after the packet buffer behave alike as long as nothing in
between is read. -/
namespace Flipper.Fmr
open Binary Effect

/-- The first `n` bytes and everything after the packet buffer agree. -/
structure Alike (n : Nat) (m m' : Mem) : Prop where
  front : ∀ i < n, m i = m' i
  tail : ∀ i, fmrPacketSize ≤ i → m i = m' i

/-- Nothing between byte `n` and the end of the buffer decides what happens. The
header counts once the magic number is right, the call once the checksum is. -/
def Covered (device : LfDevice) (m : Mem) (n : Nat) : Prop :=
  0 < n ∧ (hdrMagic m = fmrMagicNumber → headerSize ≤ n ∧ (hdrLen m).toNat ≤ n ∧
    (ChecksumOk m → hdrType m = FmrClass.rpc.code → device.modules ≠ [] → 8 ≤ n ∧
      (Callable device m → argTypesOffset + (callArgc m).toNat ≤ n ∧
        (argBytes m 0 (callArgc m).toNat = 0 ∨ argvOffset + argBytes m 0 (callArgc m).toNat ≤ n))))

instance (device : LfDevice) (m : Mem) (n : Nat) : Decidable (Covered device m n) := by
  unfold Covered
  infer_instance

section Agree
variable {m m' : Mem}

theorem checksum_congr (front : ∀ i < n, m i = m' i) (whole : headerSize ≤ n)
    (length : (hdrLen m).toNat ≤ n) : ChecksumOk m ↔ ChecksumOk m' := by
  obtain ⟨_, crc, len, _⟩ := header_congr fun i inside => front i (by omega)
  have covered : lfCrc (setCrc m 0) (hdrLen m).toNat = lfCrc (setCrc m' 0) (hdrLen m).toNat :=
    lfCrc_congr fun i inside => setCrc_congr (front i (by omega)) 0
  rw [ChecksumOk, ChecksumOk, ← crc, ← len, covered]

theorem callable_congr (front : ∀ i < n, m i = m' i) (whole : 8 ≤ n) :
    Callable device m ↔ Callable device m' := by
  unfold Callable callModule callFunction
  rw [front 6 (by omega), front 7 (by omega)]

theorem argBytes_front (front : ∀ i < n, m i = m' i) (types : argTypesOffset + argc ≤ n) :
    argBytes m 0 argc = argBytes m' 0 argc :=
  argBytes_congr 0 argc fun k _ upper => front _ (by omega)

/-- The condition is one on the first `n` bytes. -/
theorem covered_congr (front : ∀ i < n, m i = m' i) (covered : Covered device m n) :
    Covered device m' n := by
  obtain ⟨some_, rest⟩ := covered
  refine ⟨some_, fun magic => ?_⟩
  have magic' : hdrMagic m = fmrMagicNumber := (front 0 some_).trans magic
  obtain ⟨whole, length, call⟩ := rest magic'
  obtain ⟨_, _, len, type⟩ := header_congr fun i inside => front i (by omega)
  refine ⟨whole, len ▸ length, fun checksum typed loaded => ?_⟩
  obtain ⟨fixed, arguments⟩ := call ((checksum_congr front whole length).mpr checksum)
    (type.trans typed) loaded
  refine ⟨fixed, fun callable => ?_⟩
  obtain ⟨types, values⟩ := arguments ((callable_congr front fixed).mpr callable)
  have argc : callArgc m = callArgc m' := front 9 (by unfold argTypesOffset at types; omega)
  rw [← argc, ← argBytes_front front types]
  exact ⟨types, values⟩

end Agree

/-- The loop reads its type slots and the value bytes they call for. -/
theorem fmrRpcArgs_congr (m m' : Mem) (err : Byte) (n index argv : Nat) (args : List LfArg)
    (types : ∀ k, index ≤ k → k < index + n → argType m k = argType m' k)
    (values : ∀ k, argv ≤ k → k < argv + argBytes m index n → m k = m' k) :
    fmrRpcArgs m err n index argv args = fmrRpcArgs m' err n index argv args := by
  induction n generalizing index argv args with
  | zero => rfl
  | succ n ih =>
    have type := types index (by omega) (by omega)
    rw [argBytes] at values
    have value : ∀ block, argValue m argv (lfSizeof (argType m index)) block =
        argValue m' argv (lfSizeof (argType m' index)) block := by
      intro block
      rw [← type]
      apply word64_congr
      intro k _
      split
      · exact values _ (by omega) (by omega)
      · rfl
    have next := fun args => ih (index + 1) (argv + lfSizeof (argType m index)) args
      (fun k lower upper => types k (by omega) (by omega))
      (fun k lower upper => values k (by omega) (by omega))
    simp only [fmrRpcArgs, value, next, ← type]

theorem fmrRpc_congr {m m' : Mem} (front : ∀ i < n, m i = m' i) (fixed : 8 ≤ n)
    (arguments : Callable device m → argTypesOffset + (callArgc m).toNat ≤ n ∧
      (argBytes m 0 (callArgc m).toNat = 0 ∨ argvOffset + argBytes m 0 (callArgc m).toNat ≤ n))
    (retval : BitVec 64) (err : Byte) :
    fmrRpc device m retval err = fmrRpc device m' retval err := by
  have module' : callModule m = callModule m' := front 6 (by omega)
  have function : callFunction m = callFunction m' := front 7 (by omega)
  unfold fmrRpc lfLlItem
  rw [← module']
  cases found : device.modules[(callModule m).toNat]? with
  | none => rfl
  | some module =>
    by_cases inside : (callFunction m).toNat < module.table.length
    · obtain ⟨types, values⟩ := arguments ⟨module, found, inside⟩
      have argc : callArgc m = callArgc m' := front 9 (by unfold argTypesOffset at types; omega)
      have decode := fmrRpcArgs_congr m m' err (callArgc m).toNat 0 argvOffset []
        (fun k _ upper => front _ (by omega)) (fun k _ upper => front _ (by omega))
      simp only [inside, ← function, ← argc, dif_pos, decode]
    · simp only [inside, ← function, dif_neg, not_false_eq_true]

/-- The other handlers read only what lies after the packet buffer. -/
theorem handler_congr {m m' : Mem} {cls : FmrClass} (other : cls ≠ .rpc)
    (same : operands m = operands m') (retval : BitVec 64) (err : Byte) :
    cls.handler device m retval err = cls.handler device m' retval err := by
  cases cls with
  | rpc => exact absurd rfl other
  | push => simp only [FmrClass.handler, fmrPush, operandState, same]
  | pull => simp only [FmrClass.handler, fmrPull, operandState, same]
  | dyld => simp only [FmrClass.handler, fmrDyld, same]
  | malloc => simp only [FmrClass.handler, fmrMalloc, same]
  | free => simp only [FmrClass.handler, fmrFree, same]

theorem Alike.operands (alike : Alike n m m') : operands m = operands m' := by
  funext i
  exact alike.tail _ (Nat.le_add_right _ _)

/-- Memories alike in what is covered give the same events and the same state. -/
theorem perform_alike (registry : Registry) (device : LfDevice) (world : World fmr σ) (s : σ)
    {m m' : Mem} (alike : Alike n m m') (covered : Covered device m n) :
    ((fmrPerform (fmrInit registry) device m).run world s).trace =
        ((fmrPerform (fmrInit registry) device m').run world s).trace ∧
      ((fmrPerform (fmrInit registry) device m).run world s).state =
        ((fmrPerform (fmrInit registry) device m').run world s).state := by
  have front := alike.front
  obtain ⟨some_, rest⟩ := covered
  have first : hdrMagic m = hdrMagic m' := front 0 some_
  by_cases magic : hdrMagic m = fmrMagicNumber
  case neg =>
    rw [run_bad_magic _ _ _ _ magic, run_bad_magic _ _ _ _ (first ▸ magic)]
    exact ⟨rfl, rfl⟩
  obtain ⟨whole, length, call⟩ := rest magic
  obtain ⟨_, _, len, type⟩ := header_congr fun i inside => front i (by omega)
  have magic' : hdrMagic m' = fmrMagicNumber := first ▸ magic
  have sums := checksum_congr front whole length
  by_cases checksum : ChecksumOk m
  case neg =>
    rw [run_bad_checksum _ _ _ _ magic checksum,
      run_bad_checksum _ _ _ _ magic' (fun valid => checksum (sums.mpr valid)), len]
    exact ⟨rfl, rfl⟩
  have checksum' := sums.mp checksum
  by_cases known : hdrType m < fmrClassCount
  case neg =>
    rw [run_unknown _ _ _ _ magic checksum known,
      run_unknown _ _ _ _ magic' checksum' (type ▸ known), len]
    exact ⟨rfl, rfl⟩
  by_cases loaded : device.modules = []
  case pos =>
    rw [run_unloaded _ _ _ _ ⟨magic, checksum, known⟩ loaded,
      run_unloaded _ _ _ _ ⟨magic', checksum', type ▸ known⟩ loaded, len]
    exact ⟨rfl, rfl⟩
  obtain ⟨cls, typed⟩ := class_of_type known
  have handled : cls.handler device (setCrc m 0) 0 LfErr.eOk.code =
      cls.handler device (setCrc m' 0) 0 LfErr.eOk.code := by
    by_cases rpc : cls = .rpc
    · subst rpc
      obtain ⟨fixed, arguments⟩ := call checksum typed loaded
      apply fmrRpc_congr (fun i inside => setCrc_congr (front i inside) 0) fixed
      simpa [callable_setCrc] using arguments
    · apply handler_congr rpc
      rw [operands_setCrc, operands_setCrc, alike.operands]
  rw [run_dispatched _ _ _ _ ⟨magic, checksum, known⟩ loaded typed,
    run_dispatched _ _ _ _ ⟨magic', checksum', type ▸ known⟩ loaded (type ▸ typed), handled,
      len, type]
  exact ⟨rfl, rfl⟩

end Flipper.Fmr
