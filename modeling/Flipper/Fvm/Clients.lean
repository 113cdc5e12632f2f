import Flipper.Fvm.Loop
import Flipper.Fmr.CallGate

/-! Many clients at one FVM. The address a reply goes to lives in the endpoint context,
which every `recvfrom` of the loop overwrites and every `lf_network_write` reads. -/
namespace Flipper.Fvm
open Binary Effect Fmr

structure Address where
  ip : BitVec 32
  port : BitVec 16
  deriving DecidableEq

structure Sent where
  dest : Address
  bytes : List Byte
  deriving DecidableEq

/-- The context of the device, what went out on its socket, and the state of the modules. -/
structure Endpoint (σ : Type) where
  addr : Address
  outbox : List Sent
  modules : σ

/-- `sendto`: the number of bytes sent, or a negative number. -/
abbrev SendTo (σ : Type) := Address → List Byte → σ → Int × σ

/-- An address `lf_network_write` takes for initialized. -/
def Address.Initialized (addr : Address) : Prop := addr.ip ≠ 0 ∧ addr.port ≠ 0

instance (addr : Address) : Decidable addr.Initialized := inferInstanceAs (Decidable (_ ∧ _))

section Network
variable (sendto : SendTo σ)

def lfNetworkWrite (s : Endpoint σ) (bytes : List Byte) : WriteReply × Endpoint σ :=
  if ¬ s.addr.Initialized then (⟨LfErr.eCommunication.ctorIdx, none⟩, s)
  else
    let (e, modules) := sendto s.addr bytes s.modules
    let outbox := if 0 ≤ e then s.outbox ++ [⟨s.addr, bytes⟩] else s.outbox
    (if 0 < e then ⟨lfSuccess, none⟩ else ⟨lfError, some LfErr.eCommunication.code⟩,
      { s with outbox, modules })

/-- The device of the FVM: its `write` is `lf_network_write`, everything else leaves the
context alone. -/
def networked (far : World fmr σ) : World fmr (Endpoint σ) where
  answer op s := match op with
    | .write bytes => lfNetworkWrite sendto s bytes
    | op =>
      let reply := far.answer op s.modules
      (reply.1, { s with modules := reply.2 })

/-- With sends that succeed, what a program writes is what goes out, all of it to the
address in the context. -/
theorem networked_outbox (far : World fmr σ)
    (sends : ∀ addr bytes s, (sendto addr bytes s).1 = bytes.length)
    (p : FmrProg α) (s : Endpoint σ) (initialized : s.addr.Initialized) :
    let outcome := p.run (networked sendto far) s
    outcome.state.addr = s.addr ∧
      outcome.state.outbox = s.outbox ++ (sent outcome.trace).map (Sent.mk s.addr) := by
  induction p generalizing s with
  | pure value => simp
  | note label next ih => exact ih s initialized
  | call op next ih =>
    cases op with
    | write bytes =>
      have addr : ((networked sendto far).answer (Op.write bytes) s).2.addr = s.addr := by
        simp [networked, lfNetworkWrite, initialized]
      have outbox : ((networked sendto far).answer (Op.write bytes) s).2.outbox =
          s.outbox ++ [⟨s.addr, bytes⟩] := by
        simp [networked, lfNetworkWrite, initialized, sends]
      obtain ⟨kept, grown⟩ := ih _ ((networked sendto far).answer (Op.write bytes) s).2
        (addr ▸ initialized)
      simp only [Prog.run, Outcome.prepend_state, Outcome.prepend_trace, sent_write]
      rw [kept, grown, addr, outbox]
      simp
    | _ => exact ih _ _ initialized

end Network

/-- The packet passes the checks, pulls, and its operands name a module with state. -/
def PullsState (device : LfDevice) (m : Mem) : Prop :=
  Accepted m ∧ hdrType m = FmrClass.pull.code ∧ operandState device m ≠ none

/-- The bytes `fmr_pull` writes, read from the state of the module. -/
def pulledBytes (device : LfDevice) (m : Mem) (world : World fmr σ) (s : σ) : List Byte :=
  (world.answer (Op.load ((operandState device m).getD 0 + (operands m 1).setWidth 64)
    (operands m 2).toNat) s).1

section Answers
variable (registry : Registry) (device : LfDevice) (world : World fmr σ) (s : σ)

theorem sent_pull (m : Mem) (found : operandState device m = some state) :
    sent ((fmrPull device m retval err).run world s).trace = [pulledBytes device m world s] := by
  rw [fmrPull, pulledBytes, found]
  rfl

/-- Every packet is answered with one result, after the state it pulls. -/
theorem sent_perform (m : Mem) :
    ∃ result : FmrResult,
      (PullsState device m → sent ((fmrPerform (fmrInit registry) device m).run world s).trace =
        [pulledBytes device m world s, result.bytes]) ∧
      (¬ PullsState device m → sent ((fmrPerform (fmrInit registry) device m).run world s).trace =
        [result.bytes]) := by
  by_cases pulls : PullsState device m
  case neg =>
    obtain ⟨result, one⟩ := answers_once registry device world s (m := m) fun accepted pull => by
      by_contra found
      exact pulls ⟨accepted, pull, found⟩
    exact ⟨result, fun pulled => absurd pulled pulls, fun _ => one⟩
  obtain ⟨accepted, typed, found⟩ := pulls
  obtain ⟨state, held⟩ := Option.ne_none_iff_exists'.mp found
  have loaded : device.modules ≠ [] := fun empty => found (by simp [operandState, empty])
  have written : sent ((fmrPull device (setCrc m 0) 0 LfErr.eOk.code).run world s).trace =
      [pulledBytes device m world s] := by
    rw [sent_pull device world s (setCrc m 0) (by rw [operandState_setCrc, held])]
    rw [pulledBytes, pulledBytes, operandState_setCrc, operands_setCrc]
  let returned := ((fmrPull device (setCrc m 0) 0 LfErr.eOk.code).run world s).value
  refine ⟨⟨returned.retval, returned.err⟩, fun _ => ?_,
    fun other => absurd ⟨accepted, typed, found⟩ other⟩
  rw [run_dispatched _ _ _ _ accepted loaded typed]
  simp only [sent_noted, sent_append]
  change sent ((fmrPull device (setCrc m 0) 0 LfErr.eOk.code).run world s).trace ++ _ = _
  rw [written]
  rfl

end Answers

structure Request where
  source : Address
  bytes : List Byte

section Serve
variable (registry : Registry) (device : LfDevice) (sendto : SendTo σ) (far : World fmr σ)

/-- One turn: `recvfrom` leaves the source of the datagram in the context. -/
def serveTurn (s : FvmState (Endpoint σ)) (request : Request) : FvmState (Endpoint σ) :=
  let s := { s with device := { s.device with addr := request.source } }
  (fvmTurn registry device (networked sendto far) s request.bytes).after

/-- The state after these requests, in the order they were received. -/
def serve (s : FvmState (Endpoint σ)) (requests : List Request) : FvmState (Endpoint σ) :=
  requests.foldl (serveTurn registry device sendto far) s

theorem serveTurn_tail (s : FvmState (Endpoint σ)) (request : Request)
    (beyond : fmrPacketSize ≤ i) :
    (serveTurn registry device sendto far s request).buffer i = s.buffer i :=
  fvmTurn_tail registry device (networked sendto far) _ request.bytes beyond

theorem serve_tail (s : FvmState (Endpoint σ)) (requests : List Request)
    (beyond : fmrPacketSize ≤ i) :
    (serve registry device sendto far s requests).buffer i = s.buffer i := by
  induction requests generalizing s with
  | nil => rfl
  | cons request rest ih =>
    exact (ih _).trans (serveTurn_tail registry device sendto far s request beyond)

/-- A whole packet leaves nothing of the one before it in the buffer. -/
theorem overlay_whole {first second : Mem} (bytes : List Byte)
    (whole : bytes.length = fmrPacketSize) (tail : ∀ i, fmrPacketSize ≤ i → first i = second i) :
    first.overlay (received bytes) = second.overlay bytes := by
  have all : received bytes = bytes := List.take_of_length_le (Nat.le_of_eq whole)
  rw [all]
  funext i
  by_cases inside : i < bytes.length
  · rw [Mem.overlay_inside _ inside, Mem.overlay_inside _ inside]
  · have outside := Nat.not_lt.mp inside
    rw [Mem.overlay_outside _ outside, Mem.overlay_outside _ outside]
    exact tail i (whole ▸ outside)

/-- What one turn puts on the socket. -/
theorem serveTurn_outbox (sends : ∀ addr bytes s, (sendto addr bytes s).1 = bytes.length)
    (s : FvmState (Endpoint σ)) (request : Request) (initialized : request.source.Initialized) :
    let m := s.buffer.overlay (received request.bytes)
    let context := { s.device with addr := request.source }
    ∃ result : FmrResult, ∃ state : List (List Byte),
      (serveTurn registry device sendto far s request).device.outbox =
          s.device.outbox ++ (state ++ [result.bytes]).map (Sent.mk request.source) ∧
        (PullsState device m → state = [pulledBytes device m (networked sendto far) context]) ∧
        (¬ PullsState device m → state = []) := by
  intro m context
  obtain ⟨result, pulled, plain⟩ := sent_perform registry device (networked sendto far) context m
  obtain ⟨_, outbox⟩ := networked_outbox sendto far sends (fmrPerform (fmrInit registry) device m)
    context initialized
  by_cases pulls : PullsState device m
  · refine ⟨result, [pulledBytes device m (networked sendto far) context], ?_, fun _ => rfl,
      fun silent => absurd pulls silent⟩
    rw [pulled pulls] at outbox
    exact outbox
  · refine ⟨result, [], ?_, fun other => absurd other pulls, fun _ => rfl⟩
    rw [plain pulls] at outbox
    exact outbox

/-- Each request is answered in its own turn with one result, after the state it pulls,
and all of it goes to the client that sent the request. The reads of `lf_debug_packet` are taken
to return, whatever class and length the request names. -/
theorem clients_answered (sends : ∀ addr bytes s, (sendto addr bytes s).1 = bytes.length)
    (s : FvmState (Endpoint σ)) (requests : List Request) (arrived : requests[k]? = some request)
    (whole : request.bytes.length = fmrPacketSize) (initialized : request.source.Initialized) :
    let before := serve registry device sendto far s (requests.take k)
    let after := serve registry device sendto far s (requests.take (k + 1))
    let m := s.buffer.overlay request.bytes
    ∃ result state, after.device.outbox = before.device.outbox ++ state ++ [result] ∧
      result.dest = request.source ∧ result.bytes.length = resultSize ∧
      (PullsState device m → state =
        [⟨request.source, pulledBytes device m far before.device.modules⟩]) ∧
      (¬ PullsState device m → state = []) := by
  intro before after m
  have same : before.buffer.overlay (received request.bytes) = m :=
    overlay_whole request.bytes whole fun i beyond =>
      serve_tail registry device sendto far s (requests.take k) beyond
  have turn : after = serveTurn registry device sendto far before request := by
    have split : requests.take (k + 1) = requests.take k ++ [request] := by
      rw [List.take_add_one, arrived]
      rfl
    simp only [after, before, serve, split, List.foldl_append, List.foldl_cons, List.foldl_nil]
  obtain ⟨result, state, outbox, pulled, plain⟩ :=
    serveTurn_outbox registry device sendto far sends before request initialized
  rw [same] at pulled plain
  refine ⟨⟨request.source, result.bytes⟩, state.map (Sent.mk request.source), ?_, rfl,
    by simp [FmrResult.bytes], fun pulls => ?_, fun silent => ?_⟩
  · rw [turn, outbox]
    simp
  · rw [pulled pulls]
    rfl
  · rw [plain silent]
    rfl

end Serve

/-- Two clients on one host that make the same call. -/
def twoClients : List Request :=
  [⟨⟨0x0100007F, 0x1F40⟩, Mem.slice configureCall 0 fmrPacketSize⟩,
    ⟨⟨0x0100007F, 0x1F41⟩, Mem.slice configureCall 0 fmrPacketSize⟩]

theorem second_client_answered :
    let sendto : SendTo Unit := fun _ bytes _ => (bytes.length, ())
    let serves := serve (fun _ => none) ⟨fvmModules⟩ sendto obliging ⟨fun _ => 0, ⟨⟨0, 0⟩, [], ()⟩⟩
    ∃ result state, (serves twoClients).device.outbox =
        (serves (twoClients.take 1)).device.outbox ++ state ++ [result] ∧
      result.dest = ⟨0x0100007F, 0x1F41⟩ := by
  intro sendto serves
  obtain ⟨result, state, outbox, dest, _⟩ :=
    clients_answered (fun _ => none) ⟨fvmModules⟩ sendto obliging
    (fun _ _ _ => rfl) ⟨fun _ => 0, ⟨⟨0, 0⟩, [], ()⟩⟩ twoClients (k := 1) rfl (by decide +kernel)
      (by decide)
  exact ⟨result, state, outbox, dest⟩

end Flipper.Fvm
