import Flipper.Fmr.Perform

/-! When a failed handler shows in the result. The error `fmr_perform` picks for a
failed dispatch is overwritten at `fail`, so a failure surfaces exactly when the
handler left a code in `_lf_err`. -/
namespace Flipper.Fmr
open Binary Effect

/-- The status of the handler a run of `fmr_perform` dispatched to, if it did. -/
def handlerStatus (trace : List (Event fmr)) : Option Int :=
  (trace.filterMap fun
    | .noted (.returned status) => some status
    | _ => none).getLast?

/-- `fmr_perform`'s own result is the last thing it sends. -/
def FailureSurfaces (trace : List (Event fmr)) : Prop :=
  ∀ status result, handlerStatus trace = some status → status ≠ lfSuccess →
    (sent trace).getLast? = some (FmrResult.bytes result) → result.error ≠ LfErr.eOk.code

/-- Of the allocations for `argc` arguments, a record and a list node each, the
first that is refused is a node. -/
def NodeRefused (world : World fmr σ) : Nat → σ → Prop
  | 0, _ => False
  | argc + 1, s =>
    let record := world.answer (Op.malloc argRecordSize) s
    let node := world.answer (Op.malloc nodeSize) record.2
    record.1.isSome ∧ (node.1.isNone ∨ NodeRefused world argc node.2)

/-- The failing exits of a handler that set `_lf_err` are the only ones taken. -/
def FmrClass.Surfaces (world : World fmr σ) (s : σ) (device : LfDevice) (m : Mem) : FmrClass → Prop
  | .rpc => ∀ module, device.modules[(callModule m).toNat]? = some module →
      (callFunction m).toNat < module.table.length ∧ ¬ NodeRefused world (callArgc m).toNat s
  | .push => operandState device m ≠ none
  | .pull => ∃ state, operandState device m = some state ∧
      let bytes := world.answer
        (Op.load (state + (operands m 1).setWidth 64) (operands m 2).toNat) s
      let reply := world.answer (Op.write bytes.1) bytes.2
      reply.1.status = lfSuccess ∨ ∃ code, reply.1.err = some code ∧ code ≠ LfErr.eOk.code
  | .dyld => lfModuleGetByName device.modules (operands m) ≠ none
  | .malloc => (world.answer (Op.malloc (word64 (operands m)).toNat) s).1 ≠ none
  | .free => True

section Handlers
variable (world : World fmr σ) (s : σ) (device : LfDevice) (m : Mem)

/-- The loop leaves `_lf_err` alone only when a node was refused. -/
theorem fmrRpcArgs_untouched (touched : err ≠ LfErr.eNull.code) (remaining index argv : Nat)
    (args : List LfArg) :
    ((fmrRpcArgs m err remaining index argv args).run world s).value = .error err ↔
      NodeRefused world remaining s := by
  induction remaining generalizing s index argv args with
  | zero => simp [fmrRpcArgs, NodeRefused]
  | succ remaining ih =>
    cases record : (world.answer (Op.malloc argRecordSize) s).1 with
    | none =>
      have other : lfErrorSet .eNull ≠ err := fun same => touched same.symm
      simp [fmrRpcArgs, NodeRefused, record, other]
    | some block =>
      cases node : (world.answer (Op.malloc nodeSize)
          (world.answer (Op.malloc argRecordSize) s).2).1 with
      | none => simp [fmrRpcArgs, NodeRefused, lfLlAppend, Prog.bind_assoc, record, node]
      | some next =>
        simp [fmrRpcArgs, NodeRefused, lfLlAppend, Prog.bind_assoc, record, node, ih]

theorem fmrRpc_surfaces :
    let returned := ((fmrRpc device m 0 LfErr.eOk.code).run world s).value
    (returned.status ≠ lfSuccess → returned.err ≠ LfErr.eOk.code) ↔
      FmrClass.rpc.Surfaces world s device m := by
  dsimp only [FmrClass.Surfaces]
  cases found : device.modules[(callModule m).toNat]? with
  | none =>
    have raised : LfErr.eNull.code ≠ LfErr.eOk.code := by decide
    simp [fmrRpc, lfLlItem, found, raised]
  | some module =>
    by_cases inside : (callFunction m).toNat < module.table.length
    · have ok : LfErr.eOk.code ≠ LfErr.eNull.code := by decide
      have untouched := fmrRpcArgs_untouched world s m ok (callArgc m).toNat 0 argvOffset []
      simp only [fmrRpc, lfLlItem, found, inside, dif_pos, Prog.monad_bind, Prog.run_bind,
        ← untouched]
      cases ((fmrRpcArgs m LfErr.eOk.code (callArgc m).toNat 0 argvOffset []).run world
        s).value with
      | error err => simp [lfError, lfSuccess, inside]
      | ok args => simp [inside]
    · simp [fmrRpc, lfLlItem, found, inside, lfError_ne]

/-- Handler by handler: a failing exit sets `_lf_err` exactly under the condition. -/
theorem handler_surfaces (cls : FmrClass) :
    let returned := ((cls.handler device m 0 LfErr.eOk.code).run world s).value
    (returned.status ≠ lfSuccess → returned.err ≠ LfErr.eOk.code) ↔
      cls.Surfaces world s device m := by
  cases cls with
  | rpc => exact fmrRpc_surfaces world s device m
  | push =>
    cases state : operandState device m with
    | none => simp [FmrClass.handler, fmrPush, FmrClass.Surfaces, state, lfError_ne]
    | some state' => simp [FmrClass.handler, fmrPush, FmrClass.Surfaces, state]
  | pull =>
    cases state : operandState device m with
    | none => simp [FmrClass.handler, fmrPull, FmrClass.Surfaces, state, lfError_ne]
    | some state' =>
      simp only [FmrClass.handler, fmrPull, FmrClass.Surfaces, state, Prog.monad_bind, run_load,
        run_write, Option.some.injEq, exists_eq_left', Outcome.prepend_value]
      cases (world.answer (Op.write _) _).1.err with
      | none => simp
      | some code => simp [imp_iff_not_or]
  | dyld =>
    cases found : lfModuleGetByName device.modules (operands m) with
    | none => simp [FmrClass.handler, fmrDyld, FmrClass.Surfaces, found, lfError_ne]
    | some module => simp [FmrClass.handler, fmrDyld, FmrClass.Surfaces, found]
  | malloc =>
    cases reply : (world.answer (Op.malloc (word64 (operands m)).toNat) s).1 with
    | none => simp [FmrClass.handler, fmrMalloc, FmrClass.Surfaces, reply, lfError_ne]
    | some block => simp [FmrClass.handler, fmrMalloc, FmrClass.Surfaces, reply]
  | free => simp [FmrClass.handler, fmrFree, FmrClass.Surfaces]

end Handlers

theorem surfaces_setCrc (world : World fmr σ) (s : σ) (device : LfDevice) (m : Mem)
    (crc : BitVec 16) (cls : FmrClass) :
    cls.Surfaces world s device (setCrc m crc) ↔ cls.Surfaces world s device m := by
  cases cls with
  | rpc | free => exact Iff.rfl
  | push => simp only [FmrClass.Surfaces, operandState_setCrc]
  | pull =>
    simp only [FmrClass.Surfaces, operandState_setCrc]
    rw [operands_setCrc]
  | dyld | malloc =>
    simp only [FmrClass.Surfaces]
    rw [operands_setCrc]

/-- What a dispatch leaves in the trace. -/
theorem dispatch_observed (registry : Registry) (device : LfDevice) (world : World fmr σ) (s : σ)
    {cls : FmrClass} (accepted : Accepted m) (loaded : device.modules ≠ [])
    (typed : hdrType m = cls.code) :
    let returned := ((cls.handler device (setCrc m 0) 0 LfErr.eOk.code).run world s).value
    let trace := ((fmrPerform (fmrInit registry) device m).run world s).trace
    handlerStatus trace = some returned.status ∧
      (sent trace).getLast? = some (FmrResult.bytes ⟨returned.retval, returned.err⟩) := by
  rw [run_dispatched _ _ _ _ accepted loaded typed]
  constructor
  · simp [handlerStatus, run_sendResult]
  · simp [run_sendResult]

/-- A failed handler is reported exactly when it took an exit that sets `_lf_err`. -/
theorem error_surfaces_iff (registry : Registry) (device : LfDevice) (world : World fmr σ) (s : σ)
    (m : Mem) (accepted : Accepted m) (loaded : device.modules ≠ []) :
    FailureSurfaces ((fmrPerform (fmrInit registry) device m).run world s).trace ↔
      ∀ cls : FmrClass, hdrType m = cls.code → cls.Surfaces world s device m := by
  obtain ⟨cls, typed⟩ := class_of_type accepted.known
  obtain ⟨status, written⟩ := dispatch_observed registry device world s accepted loaded typed
  have only : (∀ other : FmrClass, hdrType m = other.code → other.Surfaces world s device m) ↔
      cls.Surfaces world s device m := by
    constructor
    · intro every
      exact every cls typed
    · intro surfaces other typed'
      rwa [FmrClass.code_injective (typed'.symm.trans typed)]
  rw [only, ← surfaces_setCrc world s device m 0]
  apply Iff.trans _ (handler_surfaces world s device (setCrc m 0) cls)
  constructor
  · intro surfaces failed
    exact surfaces _ ⟨_, _⟩ status failed written
  · intro surfaces status' result status'' failed written'
    rw [status] at status''
    rw [written] at written'
    have same := FmrResult.bytes_injective (Option.some.inj written')
    rw [← same]
    apply surfaces
    rwa [Option.some.inj status'']

/-- A call of function 9 of `dac_module`, which has five. -/
def outOfRangeCall : Mem :=
  storeCrc (Mem.overlay (fun _ => 0) [fmrMagicNumber, 0, 0, 26, 0, FmrClass.rpc.code, 0, 9])

/-- A call of the last function of `dac_module`. -/
def cleanupCall : Mem :=
  storeCrc (Mem.overlay (fun _ => 0) [fmrMagicNumber, 0, 0, 26, 0, FmrClass.rpc.code, 0, 4])

theorem failed_call_reported_ok :
    Accepted outOfRangeCall ∧ fvmModules ≠ [] ∧
      ¬ FailureSurfaces
        ((fmrPerform (fmrInit fun _ => none) ⟨fvmModules⟩ outOfRangeCall).run obliging
          ()).trace := by
  refine ⟨⟨by decide +kernel, by decide +kernel, by decide +kernel⟩, by decide +kernel, ?_⟩
  intro surfaces
  exact surfaces lfError ⟨0, 0⟩ (by decide +kernel) (by decide +kernel) (by decide +kernel) rfl

theorem cleanup_call_surfaces :
    Accepted cleanupCall ∧ fvmModules ≠ [] ∧
      (FailureSurfaces
          ((fmrPerform (fmrInit fun _ => none) ⟨fvmModules⟩ cleanupCall).run obliging ()).trace ↔
        ∀ cls : FmrClass, hdrType cleanupCall = cls.code →
          cls.Surfaces obliging () ⟨fvmModules⟩ cleanupCall) := by
  have accepted : Accepted cleanupCall := ⟨by decide +kernel, by decide +kernel, by decide +kernel⟩
  have loaded : fvmModules ≠ [] := by decide +kernel
  exact ⟨accepted, loaded, error_surfaces_iff _ _ obliging () cleanupCall accepted loaded⟩

end Flipper.Fmr
