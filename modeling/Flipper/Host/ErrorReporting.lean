import Flipper.Host.Behaviour

/-! When `lf_invoke_by_index` passes on what the device reports. The results of its
two lookups are checked, the result of the call packet is not; and a failed second
lookup is made up for by the index of the first. -/
namespace Flipper.Host
open Binary Effect Fmr

/-- Success means that the lookup, the write and the read succeeded and that the
result of the call packet carries no error; any error the device reports fails the
call and leaves `*retval` alone. -/
def ReportsErrors (world : World fmr σ) (s : σ) (c : Call) (modules : List LfModule) (err : Byte) :
    Prop :=
  let lookup := ((lfDyldDynSymLookup c.module 0 err).run world s).value
  let outcome := (c.invoke modules err).run world s
  (outcome.value.status = lfSuccess → lookup.status = lfSuccess ∧
    ∃ before, ∃ written : WriteReply, ∃ received : ReadReply,
      outcome.trace = before ++
        [.called (Op.write (Mem.slice (rpcPacket c.stack lookup.idx c.index c.ret c.args) 0
          fmrPacketSize)) written, .called (Op.read resultSize) received] ∧
      written.status = lfSuccess ∧ received.status = lfSuccess ∧
      (FmrResult.ofMem received.dst).error = LfErr.eOk.code) ∧
  ∀ result ∈ reported outcome.trace, result.error ≠ LfErr.eOk.code →
    outcome.value.status = lfError ∧ outcome.value.retval = c.retval

/-- What an exchange that brings a result leaves in the trace. -/
theorem exchange_trace (world : World fmr σ) (s : σ) (packet : Mem) (err : Byte)
    (received : ((exchange packet err).run world s).value.1 = some result) :
    ∃ written : WriteReply, ∃ answer : ReadReply,
      ((exchange packet err).run world s).trace =
        [.called (Op.write (Mem.slice packet 0 fmrPacketSize)) written,
          .called (Op.read resultSize) answer] ∧
      written.status = lfSuccess ∧ answer.status = lfSuccess ∧
      FmrResult.ofMem answer.dst = result := by
  simp only [exchange, Prog.monad_bind, run_write, Outcome.prepend_value,
    Outcome.prepend_trace] at received ⊢
  split at received
  · simp at received
  · rename_i wrote
    rw [if_neg wrote]
    simp only [run_read, Outcome.prepend_value, Outcome.prepend_trace] at received ⊢
    split at received
    · simp at received
    · rename_i read
      rw [if_neg read]
      exact ⟨_, _, rfl, not_not.mp wrote, not_not.mp read, Option.some.inj received⟩

/-- An exchange begins with its packet, whatever becomes of it. -/
theorem exchange_sent (world : World fmr σ) (s : σ) (packet : Mem) (err : Byte) :
    Mem.slice packet 0 fmrPacketSize ∈ sent ((exchange packet err).run world s).trace := by
  rw [exchange, Prog.monad_bind, run_write]
  exact List.mem_cons_self

namespace Behaviour
variable (b : Behaviour) (modules : List LfModule) (name : CString)

/-- The module is in the list by the time the call packet is built. -/
def lists : Bool :=
  (lfModuleGetByName modules name.mem).isSome || b.registers (decide (AnswersOk (b.delivers 1 1)))

/-- What the lookup inside `dyld_module` brings back, if it is made. -/
def secondLookup : Option FmrResult :=
  if (lfModuleGetByName modules name.mem).isSome then none else b.delivers 1 1

def callAnswer : Option FmrResult :=
  if (lfModuleGetByName modules name.mem).isSome then b.delivers 1 1
  else b.delivers 2 (if (b.write 1).status = lfSuccess then 2 else 1)

end Behaviour

section Runs
variable (b : Behaviour) (c : Call) (modules : List LfModule) (err : Byte)

/-- `ensureModule` after a first lookup that succeeded. -/
theorem ensureModule_after {name : CString} (fits : name.strlen < lfModuleNameMax)
    (idx : BitVec 16) :
    let outcome := (ensureModule modules name idx err).run b.world ⟨1, 1, 0⟩
    (outcome.value.1.isOk ↔ b.lists modules name) ∧
      b.delivers outcome.state.writes outcome.state.reads = b.callAnswer modules name ∧
      reported outcome.trace = (b.secondLookup modules name).toList := by
  cases cached : lfModuleGetByName modules name.mem with
  | some m =>
    simp [ensureModule, dyldModule, cached, Behaviour.lists, Behaviour.callAnswer,
      Behaviour.secondLookup, Except.isOk, Except.toBool]
  | none =>
    obtain ⟨value, writes, reads, results⟩ := ensureModule_run b ⟨1, 1, 0⟩ cached fits rfl idx err
    refine ⟨?_, ?_, ?_⟩
    · simpa [Behaviour.lists, cached] using value
    · rw [writes, reads]
      simp [Behaviour.callAnswer, Behaviour.exchanged, cached]
    · simpa [Behaviour.secondLookup, cached] using results

/-- The call packet goes out exactly when the first lookup answers and the module
gets listed. -/
def Behaviour.Calls (b : Behaviour) (modules : List LfModule) (name : CString) : Prop :=
  name.strlen < lfModuleNameMax ∧ AnswersOk (b.delivers 0 0) ∧ b.lists modules name

/-- A call whose packet never goes out. -/
theorem invoke_withheld (withheld : ¬ b.Calls modules c.module) :
    let outcome := (c.invoke modules err).run b.world Behaviour.start
    outcome.value.status = lfError ∧ outcome.value.retval = c.retval ∧
      ∀ bytes ∈ sent outcome.trace, bytes = Mem.slice (lookupPacket c.module) 0 fmrPacketSize := by
  simp only [Call.invoke, lfInvokeByIndex, Prog.monad_bind, Prog.run_bind]
  by_cases fits : c.module.strlen < lfModuleNameMax
  case neg => simp [lfDyldDynSymLookup, Nat.not_lt.mp fits, lfError, lfSuccess]
  have looked := lookup_run b Behaviour.start fits 0 err
  have only := (lookup_emits c.module 0 err).run b.world Behaviour.start
  generalize (lfDyldDynSymLookup c.module 0 err).run b.world Behaviour.start = lookup at looked only
  obtain ⟨⟨status, idx, err⟩, trace, state⟩ := lookup
  obtain ⟨value, rfl, _⟩ := looked
  by_cases ok : AnswersOk (b.delivers 0 0)
  case neg =>
    have failed : status ≠ lfSuccess := fun success => ok (value.mp success)
    simp only [ne_eq, failed, not_false_eq_true, if_true, Prog.monad_pure, Prog.run_pure,
      List.append_nil]
    exact ⟨trivial, trivial, fun bytes member => sent_resolving only member⟩
  rw [answered_exchanged b Behaviour.start ok]
  have success : status = lfSuccess := value.mpr ok
  have ensured := ensureModule_after b modules err fits idx
  have only' := (ensureModule_emits modules c.module idx err).run b.world ⟨1, 1, 0⟩
  simp only [success, ne_eq, not_true_eq_false, if_false, Prog.run_bind, Behaviour.start]
  generalize (ensureModule modules c.module idx err).run b.world _ = ensured' at ensured only'
  obtain ⟨⟨made, modules'⟩, trace', state⟩ := ensured'
  cases made with
  | error err =>
    refine ⟨rfl, rfl, fun bytes member => ?_⟩
    simp only [Prog.monad_pure, Prog.run_pure, List.append_nil, sent_append,
      List.mem_append] at member
    exact member.elim (sent_resolving only) (sent_resolving only')
  | ok err => exact absurd ⟨fits, ok, ensured.1.mp rfl⟩ withheld

/-- A call whose packet goes out ends with the exchange of that packet, and returns
what the exchange brings without a look at its error. -/
theorem invoke_called (calls : b.Calls modules c.module) :
    let lookup := ((lfDyldDynSymLookup c.module 0 err).run b.world Behaviour.start).value
    let outcome := (c.invoke modules err).run b.world Behaviour.start
    lookup.status = lfSuccess ∧ ∃ before s err',
      let last := (exchange (rpcPacket c.stack lookup.idx c.index c.ret c.args) err').run b.world s
      b.delivers s.writes s.reads = b.callAnswer modules c.module ∧
        reported before = (b.delivers 0 0).toList ++ (b.secondLookup modules c.module).toList ∧
        outcome.trace = before ++ last.trace ∧
        (last.value.1 = none → outcome.value.status = lfError ∧ outcome.value.retval = c.retval) ∧
        (last.value.1 ≠ none → outcome.value.status = lfSuccess) := by
  obtain ⟨fits, ok, listed⟩ := calls
  simp only [Call.invoke, lfInvokeByIndex, Prog.monad_bind, Prog.run_bind]
  have looked := lookup_run b Behaviour.start fits 0 err
  generalize (lfDyldDynSymLookup c.module 0 err).run b.world Behaviour.start = lookup at looked
  obtain ⟨⟨status, idx, err⟩, trace, state⟩ := lookup
  obtain ⟨value, rfl, first⟩ := looked
  have success : status = lfSuccess := value.mpr ok
  have ensured := ensureModule_after b modules err fits idx
  rw [answered_exchanged b Behaviour.start ok]
  simp only [success, ne_eq, not_true_eq_false, if_false, Prog.run_bind, Behaviour.start]
  generalize (ensureModule modules c.module idx err).run b.world _ = ensured' at ensured
  obtain ⟨⟨made, modules'⟩, trace', state⟩ := ensured'
  obtain ⟨made_iff, answer, second⟩ := ensured
  cases made with
  | error err => exact absurd (made_iff.mpr listed) Bool.false_ne_true
  | ok err =>
    refine ⟨trivial, trace ++ trace', state, err, answer, ?_, ?_⟩
    · rw [reported_append, first, second]
      rfl
    · simp only [Prog.run_bind]
      generalize (exchange _ err).run b.world state = last
      obtain ⟨⟨received, err⟩, trace'', state⟩ := last
      cases received with
      | none => simp
      | some result => simp

theorem invoke_refused
    (refused : b.Calls modules c.module → b.callAnswer modules c.module = none) :
    let outcome := (c.invoke modules err).run b.world Behaviour.start
    outcome.value.status = lfError ∧ outcome.value.retval = c.retval := by
  by_cases calls : b.Calls modules c.module
  case neg =>
    obtain ⟨status, retval, -⟩ := invoke_withheld b c modules err calls
    exact ⟨status, retval⟩
  obtain ⟨_, before, s, err', answer, _, _, failed, _⟩ := invoke_called b c modules err calls
  apply failed
  rw [(exchange_run b s _ err').1, answer, refused calls]

theorem invoke_answered (calls : b.Calls modules c.module)
    (answered : b.callAnswer modules c.module = some result) :
    let lookup := ((lfDyldDynSymLookup c.module 0 err).run b.world Behaviour.start).value
    let outcome := (c.invoke modules err).run b.world Behaviour.start
    outcome.value.status = lfSuccess ∧ lookup.status = lfSuccess ∧
      reported outcome.trace = (b.delivers 0 0).toList ++
        (b.secondLookup modules c.module).toList ++ [result] ∧
      ∃ before, ∃ written : WriteReply, ∃ received : ReadReply,
        outcome.trace = before ++
          [.called (Op.write (Mem.slice (rpcPacket c.stack lookup.idx c.index c.ret c.args) 0
            fmrPacketSize)) written, .called (Op.read resultSize) received] ∧
        written.status = lfSuccess ∧ received.status = lfSuccess ∧
          FmrResult.ofMem received.dst = result := by
  obtain ⟨looked, before, s, err', answer, earlier, shape, _, success⟩ :=
    invoke_called b c modules err calls
  obtain ⟨received, _, results⟩ := exchange_run b s (rpcPacket c.stack
    ((lfDyldDynSymLookup c.module 0 err).run b.world Behaviour.start).value.idx c.index c.ret
      c.args) err'
  rw [answer, answered] at received results
  obtain ⟨written, reply, last, wrote, read, same⟩ := exchange_trace b.world s _ err' received
  refine ⟨success ?_, looked, ?_, before, written, reply, ?_, wrote, read, same⟩
  · rw [received]
    exact Option.some_ne_none result
  · rw [shape, reported_append, earlier, results]
    rfl
  · rw [shape, last]

end Runs

/-- No error goes unseen: a call packet that is answered is answered without an error,
and so was the second lookup before it. -/
def Behaviour.NothingMissed (b : Behaviour) (modules : List LfModule) (name : CString) : Prop :=
  b.Calls modules name → ∀ result, b.callAnswer modules name = some result →
    result.error = LfErr.eOk.code ∧
      ∀ second, b.secondLookup modules name = some second → second.error = LfErr.eOk.code

/-- `lf_invoke_by_index` reports the device's errors exactly when there is none to
miss. -/
theorem errors_reported_iff (b : Behaviour) (c : Call) (modules : List LfModule) (err : Byte) :
    ReportsErrors b.world Behaviour.start c modules err ↔ b.NothingMissed modules c.module := by
  by_cases answered : b.Calls modules c.module ∧ (b.callAnswer modules c.module).isSome
  case neg =>
    have silent : b.Calls modules c.module → b.callAnswer modules c.module = none := fun calls =>
      Option.not_isSome_iff_eq_none.mp fun some_ => answered ⟨calls, some_⟩
    obtain ⟨status, retval⟩ := invoke_refused b c modules err silent
    refine iff_of_true ⟨fun success => ?_, fun _ _ _ => ⟨status, retval⟩⟩ ?_
    · exact absurd (status.symm.trans success) (by decide)
    · intro calls result delivered
      rw [silent calls] at delivered
      cases delivered
  obtain ⟨calls, some_⟩ := answered
  obtain ⟨result, delivered⟩ := Option.isSome_iff_exists.mp some_
  obtain ⟨first, looked, firstOk⟩ := calls.2.1
  obtain ⟨status, lookup, results, before, written, reply, shape, wrote, read, same⟩ :=
    invoke_answered b c modules err calls delivered
  constructor
  · intro ⟨_, reports⟩ _ other delivered'
    have clean : ∀ r ∈ reported ((c.invoke modules err).run b.world Behaviour.start).trace,
        r.error = LfErr.eOk.code := by
      intro r member
      by_contra wrong
      exact absurd (status.symm.trans (reports r member wrong).1) (by decide)
    rw [results] at clean
    rw [delivered] at delivered'
    cases delivered'
    refine ⟨clean _ (by simp), fun second relooked => clean _ ?_⟩
    simp [relooked]
  · intro nothing
    obtain ⟨ok, second⟩ := nothing calls result delivered
    refine ⟨fun _ => ⟨lookup, before, written, reply, shape, wrote, read, same ▸ ok⟩, ?_⟩
    intro r member wrong
    rw [results, looked] at member
    simp only [Option.toList_some, List.cons_append, List.nil_append, List.mem_cons,
      List.mem_append, List.not_mem_nil, or_false, Option.mem_toList] at member
    rcases member with rfl | relooked | rfl
    · exact absurd firstOk wrong
    · exact absurd (second r relooked) wrong
    · exact absurd ok wrong

/-- A device that answers the first lookup with index 0 and every later packet with
`E_FMR` and the value 9. -/
def refusingDevice : Behaviour where
  write _ := ⟨lfSuccess, none⟩
  read n := ⟨lfSuccess, none,
    if n = 0 then FmrResult.mem ⟨0, LfErr.eOk.code⟩ else FmrResult.mem ⟨9, LfErr.eFmr.code⟩⟩
  malloc _ := none

def dacConfigure : Call := ⟨fun _ => 0, dacModule.name, 0, lfVoidT, some 5, []⟩

/-- The device refuses the call and the host sees a call that returned 9. -/
theorem refusal_returned_ok :
    let outcome := (dacConfigure.invoke fvmModules 0).run refusingDevice.world Behaviour.start
    outcome.value.status = lfSuccess ∧ outcome.value.retval = some 9 ∧
      (reported outcome.trace).map FmrResult.error = [LfErr.eOk.code, LfErr.eFmr.code] ∧
      ¬ ReportsErrors refusingDevice.world Behaviour.start dacConfigure fvmModules 0 := by
  have status : ((dacConfigure.invoke fvmModules 0).run refusingDevice.world
      Behaviour.start).value.status =
      lfSuccess := by decide +kernel
  have errors : (reported ((dacConfigure.invoke fvmModules 0).run refusingDevice.world
      Behaviour.start).trace).map FmrResult.error =
        [LfErr.eOk.code, LfErr.eFmr.code] := by decide +kernel
  refine ⟨status, by decide +kernel, errors, fun reports => ?_⟩
  have seen : LfErr.eFmr.code ∈ (reported
      ((dacConfigure.invoke fvmModules 0).run refusingDevice.world
      Behaviour.start).trace).map FmrResult.error := by
    rw [errors]
    simp
  obtain ⟨result, member, same⟩ := List.mem_map.mp seen
  have failed := (reports.2 result member (by rw [same]; decide)).1
  exact absurd (status.symm.trans failed) (by decide)

end Flipper.Host
