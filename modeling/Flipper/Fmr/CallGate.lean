import Flipper.Fmr.Perform

/-! Which packets reach a module function. Every handler is bounded by what it may ask
of the environment; only the handler of calls may ask for a function, and only the
handler of pushes for a store. -/
namespace Flipper.Fmr
open Binary Effect

/-- With memory to spare the argument loop comes to its end. -/
theorem fmrRpcArgs_completes (world : World fmr σ)
    (available : ∀ size s, (world.answer (Op.malloc size) s).1.isSome)
    (s : σ) (m : Mem) (err : Byte) (remaining index argv : Nat) (args : List LfArg) :
    ∃ got, ((fmrRpcArgs m err remaining index argv args).run world s).value = .ok got := by
  induction remaining generalizing s index argv args with
  | zero => exact ⟨args, rfl⟩
  | succ remaining ih =>
    obtain ⟨record, allotted⟩ := Option.isSome_iff_exists.mp (available argRecordSize s)
    obtain ⟨node, appended⟩ := Option.isSome_iff_exists.mp
      (available nodeSize (world.answer (Op.malloc argRecordSize) s).2)
    simp only [fmrRpcArgs, lfLlAppend, Prog.monad_bind, Prog.run_tell, run_malloc, allotted,
      Outcome.prepend_value, Prog.bind_assoc, appended]
    exact ih _ _ _ _

def stored (trace : List (Event fmr)) : List (BitVec 64 × List Byte) :=
  trace.filterMap fun
    | .called (.store address bytes) _ => some (address, bytes)
    | _ => none

theorem mem_stored {trace : List (Event fmr)} (member : (address, bytes) ∈ stored trace) :
    ∃ reply : Unit, Event.called (Op.store address bytes) reply ∈ trace := by
  obtain ⟨event, inside, picked⟩ := List.mem_filterMap.mp member
  split at picked
  · cases picked
    exact ⟨_, inside⟩
  · cases picked

/-- A call that names no function asks for nothing. -/
theorem fmrRpc_uncallable (world : World fmr σ) (s : σ) (uncallable : ¬ Callable device m) :
    invoked ((fmrRpc device (setCrc m 0) 0 LfErr.eOk.code).run world s).trace = [] := by
  cases found : device.modules[(callModule m).toNat]? with
  | none => simp [fmrRpc, lfLlItem, found]
  | some module =>
    have outside : ¬ (callFunction m).toNat < module.table.length :=
      fun inside => uncallable ⟨module, found, inside⟩
    simp [fmrRpc, lfLlItem, found, outside]

section Perform
variable (registry : Registry) (device : LfDevice) (world : World fmr σ) (s : σ)

/-- Whatever the packet, `fmr_perform` asks for what some handler may ask for, or
writes. -/
theorem perform_asks (m : Mem) :
    ∀ event ∈ ((fmrPerform (fmrInit registry) device m).run world s).trace,
      event.Allowed (fun _ => True) fun op : Op =>
        op.kind = .write ∨ ∃ cls : FmrClass, hdrType m = cls.code ∧ cls.MayAsk device op := by
  intro event member
  by_cases dispatched : Accepted m ∧ device.modules ≠ []
  case neg =>
    obtain ⟨labels, mem, result, err, run⟩ :=
      run_rejected (fmrInit registry) device world s dispatched
    rw [run] at member
    rcases List.mem_append.mp member with noted | answer
    · obtain ⟨label, _, rfl⟩ := List.mem_map.mp noted
      trivial
    · obtain rfl := List.mem_singleton.mp answer
      exact Or.inl rfl
  obtain ⟨accepted, loaded⟩ := dispatched
  obtain ⟨cls, typed⟩ := class_of_type accepted.known
  rw [run_dispatched _ _ _ _ accepted loaded typed] at member
  simp only [List.mem_cons, List.mem_append] at member
  rcases member with rfl | rfl | handled | rfl | answer
  · trivial
  · trivial
  · have allowed := (handler_emits cls device (setCrc m 0) 0 LfErr.eOk.code).run world s
      event handled
    cases event with
    | noted label => trivial
    | called op reply => exact Or.inr ⟨cls, typed, allowed⟩
  · trivial
  · obtain rfl := List.mem_singleton.mp answer
    exact Or.inl rfl

/-- A call runs what its handler runs. -/
theorem invoked_rpc {m : Mem} (accepted : Accepted m) (loaded : device.modules ≠ [])
    (typed : hdrType m = FmrClass.rpc.code) :
    invoked ((fmrPerform (fmrInit registry) device m).run world s).trace =
      invoked ((fmrRpc device (setCrc m 0) 0 LfErr.eOk.code).run world s).trace := by
  rw [run_dispatched _ _ _ _ accepted loaded typed]
  simp only [invoked_noted, invoked_append]
  exact List.append_nil _

/-- No packet but an accepted call that names a function runs one. -/
theorem invoked_needs {m : Mem}
    (ran : invoked ((fmrPerform (fmrInit registry) device m).run world s).trace ≠ []) :
    Accepted m ∧ device.modules ≠ [] ∧ hdrType m = FmrClass.rpc.code ∧ Callable device m := by
  have dispatched : Accepted m ∧ device.modules ≠ [] := by
    by_contra rejected
    obtain ⟨labels, mem, result, err, run⟩ :=
      run_rejected (fmrInit registry) device world s rejected
    apply ran
    rw [run]
    dsimp only
    rw [invoked_append, invoked_labels]
    rfl
  obtain ⟨accepted, loaded⟩ := dispatched
  have typed : hdrType m = FmrClass.rpc.code := by
    by_contra other
    apply ran
    apply invoked_none
    intro event member
    apply (perform_asks registry device world s m event member).mono fun _ allowed => allowed
    rintro op (written | ⟨cls, typed, asked⟩) isInvoke
    · exact absurd (written.symm.trans isInvoke) (by decide)
    · cases op <;> cases isInvoke
      cases cls <;> first | exact other typed | cases asked
  refine ⟨accepted, loaded, typed, ?_⟩
  by_contra uncallable
  apply ran
  rw [invoked_rpc _ _ _ _ accepted loaded typed]
  exact fmrRpc_uncallable world s uncallable

/-- An accepted call that names a function runs that function once. -/
theorem invoked_callable (available : ∀ size s, (world.answer (Op.malloc size) s).1.isSome)
    {m : Mem} (accepted : Accepted m) (typed : hdrType m = FmrClass.rpc.code)
    (found : device.modules[(callModule m).toNat]? = some module)
    (inside : (callFunction m).toNat < module.table.length) :
    ∃ args, invoked ((fmrPerform (fmrInit registry) device m).run world s).trace =
      [(module.table.get ⟨(callFunction m).toNat, inside⟩, args)] := by
  have loaded : device.modules ≠ [] := List.ne_nil_of_mem (List.mem_of_getElem? found)
  obtain ⟨args, decoded⟩ := fmrRpcArgs_completes world available s (setCrc m 0) LfErr.eOk.code
    (callArgc m).toNat 0 argvOffset []
  have found' : device.modules[(callModule (setCrc m 0)).toNat]? = some module := found
  refine ⟨args, ?_⟩
  rw [invoked_rpc _ _ _ _ accepted loaded typed]
  exact fmrRpc_invokes world s found' inside decoded

end Perform

/-- A packet runs a module function exactly when it passes every check; it is then the
function it names, once. The list of modules is only read: what is stored goes to the
state of a module. -/
theorem function_invoked_iff (device : LfDevice) (m : Mem) (world : World fmr σ) (s : σ)
    (available : ∀ size s, (world.answer (Op.malloc size) s).1.isSome) :
    let trace := ((fmrPerform (fmrInit fun _ => none) device m).run world s).trace
    (invoked trace ≠ [] ↔ hdrMagic m = fmrMagicNumber ∧
        hdrCrc m = lfCrc (setCrc m 0) (hdrLen m).toNat ∧ hdrType m = FmrClass.rpc.code ∧
        ∃ module, device.modules[(callModule m).toNat]? = some module ∧
          (callFunction m).toNat < module.table.length) ∧
      (invoked trace ≠ [] → ∃ module, device.modules[(callModule m).toNat]? = some module ∧
        ∃ inside args, invoked trace =
          [(module.table.get ⟨(callFunction m).toNat, inside⟩, args)]) ∧
      ∀ address bytes, (address, bytes) ∈ stored trace → InState device address bytes := by
  refine ⟨⟨fun ran => ?_, ?_⟩, fun ran => ?_, fun address bytes member => ?_⟩
  · obtain ⟨accepted, _, typed, callable⟩ := invoked_needs _ device world s ran
    exact ⟨accepted.magic, accepted.checksum, typed, callable⟩
  · rintro ⟨magic, checksum, typed, module, found, inside⟩
    have accepted : Accepted m := ⟨magic, checksum, by rw [typed]; decide⟩
    obtain ⟨args, once⟩ := invoked_callable (fun _ => none) device world s available accepted typed
      found inside
    rw [once]
    exact List.cons_ne_nil _ _
  · obtain ⟨accepted, _, typed, module, found, inside⟩ := invoked_needs _ device world s ran
    obtain ⟨args, once⟩ := invoked_callable (fun _ => none) device world s available accepted typed
      found inside
    exact ⟨module, found, inside, args, once⟩
  · obtain ⟨reply, called⟩ := mem_stored member
    rcases perform_asks _ device world s m _ called with written | ⟨cls, _, asked⟩
    · cases written
    · cases cls <;> first | exact asked | cases asked

theorem configure_call_invokes :
    (∀ size s, (obliging.answer (Op.malloc size) s).1.isSome) ∧
      invoked ((fmrPerform (fmrInit fun _ => none) ⟨fvmModules⟩ configureCall).run obliging
        ()).trace ≠ [] := by
  have available : ∀ size s, (obliging.answer (Op.malloc size) s).1.isSome := fun _ _ => rfl
  refine ⟨available, (function_invoked_iff ⟨fvmModules⟩ configureCall obliging
    () available).1.mpr ?_⟩
  exact ⟨by decide +kernel, by decide +kernel, by decide +kernel, { dacModule with idx := 0 },
    by decide +kernel, by decide +kernel⟩

end Flipper.Fmr
