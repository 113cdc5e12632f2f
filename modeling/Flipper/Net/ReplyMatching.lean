import Flipper.Host.LookupAgreement
import Flipper.Net.Pacing

/-! Results and the calls they belong to. A host that never gave up on a reply has
at most one datagram in flight, and the next thing it reads is the answer to the
last packet it wrote. One read that gives up is enough to lose this for good. -/
namespace Flipper.Net
open Binary Effect Fmr Host

/-- The call stored the value the device computed for its own RPC packet. -/
def Finished.Matched (call : Finished) (answered : List Datagram) : Prop :=
  call.returned.status = lfSuccess → ∀ value, call.returned.retval = some value →
    ∃ id result, call.own = some id ∧ ⟨id, FmrResult.bytes result⟩ ∈ answered ∧ result.value = value

/-- A result already read came from the running call's own packet. -/
def Answers (s : System σ) (last : Option FmrResult) : Prop :=
  ∀ result, last = some result →
    ∃ id, s.own = some id ∧ ⟨id, FmrResult.bytes result⟩ ∈ s.answered

/-- What is in flight while the host is in this mode. -/
def InFlight (s : System σ) : Mode → Prop
  | .idle last => s.requests = [] ∧ s.replies = [] ∧ Answers s last
  | .awaiting call last => ∃ id, (call = true → s.own = some id) ∧ (call = false → Answers s last) ∧
      ((∃ bytes, s.requests = [⟨id, bytes⟩] ∧ s.replies = []) ∨
        s.requests = [] ∧ ∃ result, s.replies = [⟨id, FmrResult.bytes result⟩] ∧
          ⟨id, FmrResult.bytes result⟩ ∈ s.answered)

/-- Host and network agree on where the exchange is. -/
def InStep (s : System σ) : Prop :=
  match s.host with
  | .ready _ _ => s.requests = [] ∧ s.replies = []
  | .calling rest => ∃ mode, rest.Follows pacing Returns mode ∧ InFlight s mode

structure Invariant (s : System σ) : Prop where
  typed : ∀ request ∈ s.requests, Typed request.bytes
  hosted : ∀ rest, s.host = .calling rest → rest.Emits (fun _ => True) HostOp
  fresh : ∀ datagram ∈ s.requests ++ s.answered, datagram.id < s.next
  once : ((s.requests ++ s.answered).map Datagram.id).Nodup
  paced : s.patient = true → InStep s
  matched : ∀ call ∈ s.finished, call.patient = true → call.Matched s.answered

theorem start_invariant (known : List LfModule) (err : Byte) (device : σ) (buffer : Mem) :
    Invariant (start known err device buffer) where
  typed := nofun
  hosted := nofun
  fresh := nofun
  once := List.nodup_nil
  paced _ := ⟨rfl, rfl⟩
  matched := nofun

theorem InStep.calling (step : InStep s) (calling : s.host = .calling rest) :
    ∃ mode, rest.Follows pacing Returns mode ∧ InFlight s mode := by
  rw [InStep, calling] at step
  exact step

theorem picked_only {only picked : Datagram} (arrived : [only][which]? = some picked) :
    which = 0 ∧ only = picked := by
  rw [List.getElem?_singleton] at arrived
  split at arrived
  · exact ⟨by assumption, Option.some.inj arrived⟩
  · cases arrived

/-- Answering a request leaves the numbers in use as they are. -/
theorem answered_numbers {requests answered : List Datagram}
    (arrived : requests[which]? = some request) (reply : Datagram) (same : reply.id = request.id) :
    ((requests.eraseIdx which ++ (answered ++ [reply])).map Datagram.id).Perm
      ((requests ++ answered).map Datagram.id) := by
  obtain ⟨inside, picked⟩ := List.getElem?_eq_some_iff.mp arrived
  have taken : (request :: requests.eraseIdx which).Perm requests := by
    rw [← picked]
    exact List.getElem_cons_eraseIdx_perm inside
  have rotated : (requests.eraseIdx which ++ (answered ++ [reply])).Perm
      (reply :: requests.eraseIdx which ++ answered) := by
    rw [← List.append_assoc]
    exact List.perm_append_comm
  have renamed : (reply :: requests.eraseIdx which ++ answered).map Datagram.id =
      (request :: requests.eraseIdx which ++ answered).map Datagram.id := by simp [same]
  exact (rotated.map Datagram.id).trans (renamed ▸ (taken.append_right answered).map Datagram.id)

section Step
variable {registry : Registry} {modules : List LfModule} {far : World fmr σ} {s : System σ}

theorem invoke_preserves (inv : Invariant s) (c : Call) (ready : s.host = .ready known err) :
    Invariant { s with
      host := .calling (c.invoke known err)
      own := none } := by
  refine ⟨inv.typed, ?_, inv.fresh, inv.once, ?_, inv.matched⟩
  · rintro rest same
    cases same
    exact invokeByIndex_emits c known err
  · intro patient
    have quiet := inv.paced patient
    rw [InStep, ready] at quiet
    exact ⟨.idle none, invokeByIndex_follows c known err, quiet.1, quiet.2, nofun⟩

/-- The new request is the only datagram in flight, under a number never used before. -/
theorem send_preserves {rest : WriteReply → FmrProg InvokeReturn} (inv : Invariant s)
    (writing : s.host = .calling (.call (Op.write bytes) rest)) :
    Invariant { s with
      host := .calling (rest ⟨lfSuccess, none⟩)
      own := if isCall bytes then some s.next else s.own
      next := s.next + 1
      requests := s.requests ++ [⟨s.next, bytes⟩] } := by
  have emits := inv.hosted _ writing
  let request : Datagram := ⟨s.next, bytes⟩
  have moved : (s.requests ++ [request] ++ s.answered).Perm
      (request :: (s.requests ++ s.answered)) := by
    rw [List.append_assoc]
    exact List.perm_middle
  refine ⟨?_, ?_, ?_, ?_, ?_, inv.matched⟩
  · intro request member
    rcases List.mem_append.mp member with old | new
    · exact inv.typed request old
    · rw [List.mem_singleton.mp new]
      exact emits.1 bytes rfl
  · rintro rest' same
    cases same
    exact emits.2 _
  · intro datagram member
    rcases List.mem_cons.mp (moved.mem_iff.mp member) with rfl | old
    · exact Nat.lt_succ_self _
    · exact Nat.lt_succ_of_lt (inv.fresh datagram old)
  · rw [(moved.map Datagram.id).nodup_iff, List.map_cons, List.nodup_cons]
    refine ⟨?_, inv.once⟩
    intro member
    obtain ⟨datagram, old, same⟩ := List.mem_map.mp member
    exact Nat.ne_of_lt (inv.fresh datagram old) same
  · intro patient
    obtain ⟨mode, follows, flight⟩ := (inv.paced patient).calling writing
    cases mode with
    | awaiting call last => exact follows.1.elim
    | idle last =>
      obtain ⟨noRequest, noReply, answers⟩ := flight
      refine ⟨.awaiting (isCall bytes) last, follows.2 _ _ rfl, s.next, ?_, ?_, ?_⟩
      · intro call
        exact if_pos call
      · intro lookup result same
        obtain ⟨id, own, member⟩ := answers result same
        exact ⟨id, by simp [lookup, own], member⟩
      · left
        exact ⟨bytes, by simp [noRequest], noReply⟩

/-- Steps that change only the host's program, to one that follows on in the same mode. -/
theorem host_preserves (inv : Invariant s) (emits : next.Emits (fun _ => True) HostOp)
    (follows : s.patient = true → ∃ mode, next.Follows pacing Returns mode ∧ InFlight s mode) :
    Invariant { s with host := .calling next } := by
  refine ⟨inv.typed, ?_, inv.fresh, inv.once, follows, inv.matched⟩
  rintro rest same
  cases same
  exact emits

theorem sendFails_preserves {rest : WriteReply → FmrProg InvokeReturn} (inv : Invariant s)
    (failed : status ≠ lfSuccess) (writing : s.host = .calling (.call (Op.write bytes) rest)) :
    Invariant { s with host := .calling (rest ⟨status, err⟩) } := by
  apply host_preserves inv ((inv.hosted _ writing).2 _)
  intro patient
  obtain ⟨mode, follows, flight⟩ := (inv.paced patient).calling writing
  cases mode with
  | awaiting call last => exact follows.1.elim
  | idle last => exact ⟨.idle last, follows.2 _ _ (if_neg failed), flight⟩

theorem allocate_preserves {rest : Option Block → FmrProg InvokeReturn} (inv : Invariant s)
    (asking : s.host = .calling (.call (Op.malloc size) rest)) (reply : Option Block) :
    Invariant { s with host := .calling (rest reply) } := by
  apply host_preserves inv ((inv.hosted _ asking).2 _)
  intro patient
  obtain ⟨mode, follows, flight⟩ := (inv.paced patient).calling asking
  cases mode with
  | awaiting call last => exact follows.1.elim
  | idle last => exact ⟨.idle last, follows.2 _ _ rfl, flight⟩

/-- A patient host finds the answer to its last packet, and nothing else. -/
theorem receive_preserves {rest : ReadReply → FmrProg InvokeReturn} (inv : Invariant s)
    (arrived : s.replies[which]? = some reply)
    (reading : s.host = .calling (.call (Op.read length) rest)) (junk : Mem) :
    Invariant { s with
      host := .calling (rest ⟨lfSuccess, none, junk.overlay (reply.bytes.take length)⟩)
      replies := s.replies.eraseIdx which } := by
  refine ⟨inv.typed, ?_, inv.fresh, inv.once, ?_, inv.matched⟩
  · rintro rest' same
    cases same
    exact (inv.hosted _ reading).2 _
  · intro patient
    obtain ⟨mode, follows, flight⟩ := (inv.paced patient).calling reading
    cases mode with
    | idle last => exact follows.1.elim
    | awaiting call last =>
      obtain ⟨id, own, answers, ⟨bytes, _, noReply⟩ | ⟨noRequest, result, only, member⟩⟩ := flight
      · simp [noReply] at arrived
      · rw [only] at arrived
        obtain ⟨rfl, rfl⟩ := picked_only arrived
        have whole : result.bytes.take length = result.bytes := by
          rw [show length = resultSize from follows.1]
          exact List.take_of_length_le (by simp [FmrResult.bytes])
        have next := follows.2 ⟨lfSuccess, none, junk.overlay (result.bytes.take length)⟩ _ rfl
        rw [whole, FmrResult.ofMem_overlay] at next
        refine ⟨.idle (if call then some result else last), ?_, noRequest, by simp [only], ?_⟩
        · dsimp only
          rw [whole]
          exact next
        intro last' same
        cases call with
        | false => exact answers rfl last' same
        | true =>
          cases same
          exact ⟨id, own rfl, member⟩

theorem giveUp_preserves {rest : ReadReply → FmrProg InvokeReturn} (inv : Invariant s)
    (reading : s.host = .calling (.call (Op.read length) rest)) (dst : Mem) :
    Invariant { s with host := .calling (rest ⟨lfError, none, dst⟩), patient := false } := by
  refine ⟨inv.typed, ?_, inv.fresh, inv.once, nofun, inv.matched⟩
  rintro rest' same
  cases same
  exact (inv.hosted _ reading).2 _

theorem finish_preserves (inv : Invariant s) (returning : s.host = .calling (.pure returned)) :
    Invariant { s with
      host := .ready returned.modules returned.err
      finished := s.finished ++ [⟨s.own, returned, s.patient⟩] } := by
  refine ⟨inv.typed, nofun, inv.fresh, inv.once, ?_, ?_⟩
  · intro patient
    obtain ⟨mode, ⟨last, rfl, _⟩, flight⟩ := (inv.paced patient).calling returning
    exact ⟨flight.1, flight.2.1⟩
  · intro call member patient
    rcases List.mem_append.mp member with old | new
    · exact inv.matched call old patient
    · cases List.mem_singleton.mp new
      obtain ⟨mode, ⟨last, rfl, stored⟩, flight⟩ := (inv.paced patient).calling returning
      intro success value same
      obtain ⟨result, read, valued⟩ := stored success value same
      obtain ⟨id, own, answered⟩ := flight.2.2 result read
      exact ⟨id, result, own, answered, valued⟩

theorem Typed.class_ (typed : Typed bytes) (buffer : Mem) :
    hdrType (buffer.overlay bytes) = FmrClass.rpc.code ∨
    hdrType (buffer.overlay bytes) = FmrClass.dyld.code := by
  unfold hdrType Mem.overlay
  rw [List.getD_eq_getElem?_getD]
  rcases typed with rpc | dyld
  · exact Or.inl (by rw [rpc]; rfl)
  · exact Or.inr (by rw [dyld]; rfl)

/-- The one result the FVM sends takes the place of the request it answers. -/
theorem serve_preserves (inv : Invariant s) (arrived : s.requests[which]? = some request) :
    Invariant (serve registry modules far request
      { s with requests := s.requests.eraseIdx which }) := by
  have member : request ∈ s.requests := List.mem_of_getElem? arrived
  obtain ⟨result, one⟩ := answers_once registry ⟨modules⟩ far s.device fun _ pull => by
    rcases (inv.typed request member).class_ s.buffer with rpc | dyld
    · exact absurd (FmrClass.code_injective (pull.symm.trans rpc)) (by decide)
    · exact absurd (FmrClass.code_injective (pull.symm.trans dyld)) (by decide)
  let reply : Datagram := ⟨request.id, result.bytes⟩
  have results : (sent ((fmrPerform (fmrInit registry) ⟨modules⟩
      (s.buffer.overlay request.bytes)).run far
      s.device).trace).map (fun bytes => (⟨request.id, bytes⟩ : Datagram)) =
        [reply] := by rw [one]; rfl
  have numbers : ((s.requests.eraseIdx which ++ (s.answered ++ [reply])).map Datagram.id).Perm
      ((s.requests ++ s.answered).map Datagram.id) := answered_numbers arrived reply rfl
  have kept : ∀ {datagram}, datagram ∈ s.answered → datagram ∈ s.answered ++ [reply] :=
    fun old => List.mem_append_left _ old
  rw [serve, results]
  refine ⟨?_, inv.hosted, ?_, (numbers.nodup_iff).mpr inv.once, ?_, ?_⟩
  · intro other left
    exact inv.typed other (List.mem_of_mem_eraseIdx left)
  · intro datagram left
    have number := numbers.mem_iff.mp (List.mem_map_of_mem (f := Datagram.id) left)
    obtain ⟨old, inside, same⟩ := List.mem_map.mp number
    rw [← same]
    exact inv.fresh old inside
  · intro patient
    cases state : s.host with
    | ready known err =>
      have quiet := inv.paced patient
      rw [InStep, state] at quiet
      simp [quiet.1] at arrived
    | calling rest =>
      obtain ⟨mode, follows, flight⟩ := (inv.paced patient).calling state
      simp only [InStep]
      refine ⟨mode, follows, ?_⟩
      cases mode with
      | idle last => simp [flight.1] at arrived
      | awaiting call last =>
        obtain ⟨id, own, answers, ⟨bytes, only, noReply⟩ | ⟨noRequest, _⟩⟩ := flight
        · rw [only] at arrived
          obtain ⟨rfl, rfl⟩ := picked_only arrived
          refine ⟨id, own, fun lookup read same => ?_, Or.inr ⟨by simp [only], result, ?_, ?_⟩⟩
          · obtain ⟨own', named, answered⟩ := answers lookup read same
            exact ⟨own', named, kept answered⟩
          · simp [noReply, reply]
          · simp [reply]
        · simp [noRequest] at arrived
  · intro call finished patient success value stored
    obtain ⟨id, result', own, answered, valued⟩ :=
      inv.matched call finished patient success value stored
    exact ⟨id, result', own, kept answered, valued⟩

theorem step_preserves (inv : Invariant s) (step : Step registry modules far s t) :
    Invariant t := by
  cases step with
  | invoke c ready => exact invoke_preserves inv c ready
  | send writing => exact send_preserves inv writing
  | sendFails status err failed writing => exact sendFails_preserves inv failed writing
  | receive which junk arrived reading => exact receive_preserves inv arrived reading junk
  | giveUp dst reading => exact giveUp_preserves inv reading dst
  | allocate reply asking => exact allocate_preserves inv asking reply
  | finish returning => exact finish_preserves inv returning
  | serve which arrived => exact serve_preserves inv arrived

theorem run_invariant (initial : Invariant s)
    (run : Relation.ReflTransGen (Step registry modules far) s t) : Invariant t := by
  induction run with
  | refl => exact initial
  | tail prior step ih => exact step_preserves ih step

end Step

/-- As long as no read of the run gave up, a successful call returns the value of
the one result the device sent for its own RPC packet. -/
theorem replies_matched (registry : Registry) (modules known : List LfModule) (err : Byte)
    (far : World fmr σ) (device : σ) (buffer : Mem)
    (run : Relation.ReflTransGen (Step registry modules far) (start known err device buffer) s) :
    ∀ call ∈ s.finished, call.patient = true → call.returned.status = lfSuccess →
      ∀ value, call.returned.retval = some value →
        ∃ id result, call.own = some id ∧ result.value = value ∧
          ∀ bytes, ⟨id, bytes⟩ ∈ s.answered ↔ bytes = FmrResult.bytes result := by
  intro call finished patient success value stored
  have inv := run_invariant (start_invariant known err device buffer) run
  obtain ⟨id, result, own, answered, valued⟩ :=
    inv.matched call finished patient success value stored
  refine ⟨id, result, own, valued, fun bytes => ⟨fun other => ?_, fun same => same ▸ answered⟩⟩
  have once : (s.answered.map Datagram.id).Nodup := by
    have both := inv.once
    rw [List.map_append] at both
    exact both.of_append_right
  have one := List.inj_on_of_nodup_map once other answered rfl
  exact congrArg Datagram.bytes one

/-! ## Two runs

Both call the one function of `adc` on a device whose readings count up from 1. -/

def readings : World fmr Nat where
  answer op s := match op with
    | .invoke _ _ => (⟨BitVec.ofNat 64 s, none⟩, s + 1)
    | op => ((obliging.answer op ()).1, s)

def adcRead : Call := ⟨fun _ => 0, adcModule.name, 0, lfUint64T, some 0, []⟩

/-- An FVM with the name `adc` after its packet buffer. -/
def adcSystem : System Nat :=
  start [] 0 1 (Mem.copy (fun _ => 0) fmrPacketSize 4 adcModule.name.mem)

/-- Two lookups, the registration and the call, up to the read of its result. -/
def firstCall : List Action :=
  [.invoke adcRead, .send, .serve 0, .receive 0 fun _ => 0, .send, .serve 0, .receive 0 fun _ => 0,
    .allocate (some ⟨0x1000, fun _ => 0⟩), .allocate (some ⟨0x2000, fun _ => 0⟩), .send]

def promptSchedule : List Action := firstCall ++ [.serve 0, .receive 0 fun _ => 0, .finish]

/-- The first call gives up on its result, which the lookup of the second call then
reads; the second call's packet is answered by that lookup. -/
def staleSchedule : List Action :=
  firstCall ++ [.giveUp fun _ => 0, .finish, .serve 0, .invoke adcRead, .send,
    .receive 0 fun _ => 0, .send, .serve 0, .receive 0 fun _ => 0, .finish, .serve 0]

def adcRun (schedule : List Action) : Option (System Nat) :=
  schedule.foldlM (act (fun _ => none) twoModules readings) adcSystem

theorem prompt_reply_matched :
    ∃ s : System Nat, ∃ call ∈ s.finished, call.patient = true ∧ call.returned.status = lfSuccess ∧
      call.returned.retval = some 1 ∧
      ∃ id result, call.own = some id ∧ result.value = 1 ∧
        ∀ bytes, ⟨id, bytes⟩ ∈ s.answered ↔ bytes = FmrResult.bytes result := by
  have ran : (adcRun promptSchedule).map (fun s => s.finished.map fun call =>
      (call.own, call.returned.status, call.returned.retval, call.patient)) =
        some [(some 2, lfSuccess, some 1, true)] := by decide +kernel
  obtain ⟨s, reached, shape⟩ := Option.map_eq_some_iff.mp ran
  have run := schedule_reaches _ _ _ _ reached
  obtain ⟨call, finished, fields⟩ := List.mem_map.mp (shape ▸ List.mem_singleton_self _)
  simp only [Prod.mk.injEq] at fields
  obtain ⟨_, success, stored, patient⟩ := fields
  exact ⟨s, call, finished, patient, success, stored,
    replies_matched _ _ _ _ _ _ _ run call finished patient success 1 stored⟩

theorem stale_reply_returned :
    ∃ s : System Nat, Relation.ReflTransGen (Step (fun _ => none) twoModules readings) adcSystem s ∧
      ∃ call ∈ s.finished, call.returned.status = lfSuccess ∧ call.returned.retval = some 1 ∧
        call.own = some 4 ∧ ⟨4, FmrResult.bytes ⟨2, LfErr.eOk.code⟩⟩ ∈ s.answered ∧
        ¬ call.Matched s.answered := by
  have ran : (adcRun staleSchedule).map (fun s => (s.finished[1]?.map fun call =>
      (call.own, call.returned.status, call.returned.retval), s.answered.filter (·.id = 4))) =
        some (some (some 4, lfSuccess, some 1), [⟨4, FmrResult.bytes ⟨2, LfErr.eOk.code⟩⟩]) := by
    decide +kernel
  obtain ⟨s, reached, shape⟩ := Option.map_eq_some_iff.mp ran
  simp only [Prod.mk.injEq, Option.map_eq_some_iff] at shape
  obtain ⟨⟨call, second, own, success, stored⟩, answers⟩ := shape
  have answered : ∀ bytes, ⟨4, bytes⟩ ∈ s.answered →
      bytes = FmrResult.bytes ⟨2, LfErr.eOk.code⟩ := by
    intro bytes member
    have listed : (⟨4, bytes⟩ : Datagram) ∈ s.answered.filter (·.id = 4) :=
      List.mem_filter.mpr ⟨member, rfl⟩
    rw [answers, List.mem_singleton] at listed
    exact congrArg Datagram.bytes listed
  have sent : (⟨4, FmrResult.bytes ⟨2, LfErr.eOk.code⟩⟩ : Datagram) ∈ s.answered := by
    have listed : (⟨4, FmrResult.bytes ⟨2, LfErr.eOk.code⟩⟩ : Datagram) ∈ s.answered.filter
        (·.id = 4) :=
      answers ▸ List.mem_singleton_self _
    exact (List.mem_filter.mp listed).1
  refine ⟨s, schedule_reaches _ _ _ _ reached, call, List.mem_of_getElem? second, success,
    stored, own, sent, ?_⟩
  intro matched
  obtain ⟨id, result, own', member, valued⟩ := matched success 1 stored
  cases own.symm.trans own'
  rw [FmrResult.bytes_injective (answered _ member)] at valued
  exact absurd valued (by decide)

end Flipper.Net
