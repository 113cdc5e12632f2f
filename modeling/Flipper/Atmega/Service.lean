import Flipper.Atmega.Bulk
import Flipper.Fmr.Service

/-! `loop` of `platforms/atmegau2/src/main.c` with `atmegau2_write`: the service of the device on
the bulk endpoints, while the host keeps it configured. -/
namespace Flipper.Atmega
open Binary Effect Fmr

/-- How many waits for the bulk IN endpoint are over, the packets on it, whether a wait did not
end, and the modules. -/
structure U2 (σ : Type) where
  waited : Nat
  packets : List (List Byte)
  stuck : Bool
  modules : σ

/-- One turn of the loop: what the data register holds behind a short packet, and the wait for
the bulk OUT endpoint. -/
structure Turn where
  stale : Byte
  wait : Wait

def Turn.request (turn : Turn) : Option (List Byte) :=
  if awaitReady (turn.wait.udfnuml + usbTimeoutMs) turn.wait.polls =
    some true then some turn.wait.bank else none

def Turn.Ends (turn : Turn) : Prop :=
  awaitReady (turn.wait.udfnuml + usbTimeoutMs) turn.wait.polls ≠ none

instance (turn : Turn) : Decidable turn.Ends := inferInstanceAs (Decidable (_ ≠ _))

section Loop
variable (waits : Nat → Wait)

/-- `atmegau2_write`, with the waits for the bulk IN endpoint that are to come. -/
def atmegau2Write (s : U2 σ) (bytes : List Byte) : WriteReply × U2 σ :=
  let length := BitVec.ofNat 32 bytes.length
  let coming := (List.range (packetTotal length)).map fun i => waits (s.waited + i)
  match megausbBulkTransmit true coming (Mem.overlay (fun _ => 0) bytes) length with
  | none => (⟨lfError, none⟩, { s with stuck := true })
  | some (status, packets, later) =>
    (⟨status, none⟩,
      { s with
        waited := s.waited + (coming.length - later.length)
        packets := s.packets ++ packets })

/-- The device of the loop; no handler reads from it. -/
def connected (far : World fmr σ) : World fmr (U2 σ) where
  answer op s := match op with
    | .write bytes => atmegau2Write waits s bytes
    | op =>
      let reply := far.answer op s.modules
      (reply.1, { s with modules := reply.2 })

variable (registry : Registry) (device : LfDevice) (far : World fmr σ)

/-- One turn; without a result if one of its waits does not end. -/
def loopTurn (s : Mem × U2 σ) (turn : Turn) : Option (Mem × U2 σ) :=
  match megausbBulkReceive true turn.stale [turn.wait] s.1 (BitVec.ofNat 32 fmrPacketSize) with
  | none => none
  | some (status, packet, _) =>
    if status = lfSuccess then
      let outcome := (fmrPerform registry device packet).run (connected waits far) s.2
      if outcome.state.stuck then none else some (outcome.value.mem, outcome.state)
    else some (packet, s.2)

def loop (s : Mem × U2 σ) (turns : List Turn) : Option (Mem × U2 σ) :=
  turns.foldlM (loopTurn waits registry device far) s

end Loop

/-! The loop serves the messages that the host sends. -/

/-- A write that is not too long is one message on the link. -/
def ShortWrite : Op → Prop
  | .write bytes => bytes.length ≤ 64 * 32767
  | _ => True

/-- The packets on the link are those of the messages. -/
structure Linked (t : U2 σ) (s : σ × List (List Byte)) : Prop where
  free : t.stuck = false
  modules : t.modules = s.1
  packets : t.packets = s.2.flatMap usbPackets

section Refinement
variable {waits : Nat → Wait} (timely : ∀ i, (waits i).Timely)

include timely in
theorem transmit_message (bytes : List Byte) (short : bytes.length ≤ 64 * 32767) (waited : Nat) :
    megausbBulkTransmit true
        ((List.range (packetTotal (BitVec.ofNat 32 bytes.length))).map fun i => waits (waited + i))
        (Mem.overlay (fun _ => 0) bytes) (BitVec.ofNat 32 bytes.length) =
      some (lfSuccess, usbPackets bytes, []) := by
  have length : (BitVec.ofNat 32 bytes.length).toNat = bytes.length := by
    rw [BitVec.toNat_ofNat]
    exact Nat.mod_eq_of_lt (by omega)
  have total := packetTotal_eq (BitVec.ofNat 32 bytes.length) (by rwa [length])
  rw [length] at total
  have ready : ∀ wait ∈ (List.range ((bytes.length + 63) / 64)).map fun i => waits (waited + i),
      wait.Timely := by
    intro wait member
    obtain ⟨i, -, rfl⟩ := List.mem_map.mp member
    exact timely _
  have count : ((List.range ((bytes.length + 63) / 64)).map fun i => waits (waited + i)).length =
      (bytes.length + 63) / 64 := by
    rw [List.length_map, List.length_range]
  have whole : Mem.slice (Mem.overlay (fun _ => 0) bytes) 0 bytes.length = bytes :=
    Mem.slice_overlay _ rfl
  rw [megausbBulkTransmit, length, total, packetLoop_timely _ _ count.ge fun wait member =>
    ready wait (List.mem_of_mem_take member), List.take_of_length_le count.le,
      List.drop_of_length_le count.le]
  simp only [Bool.not_true, Bool.false_eq_true, if_false, Option.map_some]
  rw [transmit_all _ _ ⟨[], 0, bytes.length⟩ count, whole, List.nil_append]

include timely in
theorem connected_simulates (far : World fmr σ) :
    Simulates (connected waits far) (delivering far) ShortWrite Linked := by
  intro op t s allowed linked
  cases op with
  | write bytes =>
    have sends := transmit_message timely bytes allowed t.waited
    dsimp only [connected, delivering, atmegau2Write]
    rw [sends]
    refine ⟨rfl, linked.free, linked.modules, ?_⟩
    simp [linked.packets]
  | _ =>
    dsimp only [connected, delivering]
    rw [linked.modules]
    exact ⟨rfl, linked.free, rfl, linked.packets⟩

/-- A turn receives the packet of its wait, or nothing. -/
theorem receive_request (turn : Turn) (ends : turn.Ends) (buffer : Mem)
    (whole : ∀ request, turn.request = some request → request.length = fmrPacketSize) :
    megausbBulkReceive true turn.stale [turn.wait] buffer (BitVec.ofNat 32 fmrPacketSize) =
      match turn.request with
      | none => some (lfError, buffer, [])
      | some request => some (lfSuccess, buffer.overlay request, []) := by
  by_cases ready : awaitReady (turn.wait.udfnuml + usbTimeoutMs) turn.wait.polls = some true
  · have request : turn.request = some turn.wait.bank := if_pos ready
    have size := whole _ request
    have short : (BitVec.ofNat 32 fmrPacketSize).toNat ≤ 64 * 32767 := by decide
    have enough : ((BitVec.ofNat 32 fmrPacketSize).toNat + 63) / 64 ≤ [turn.wait].length :=
      Nat.le_refl 1
    have timely : ∀ wait ∈ [turn.wait].take (((BitVec.ofNat 32 fmrPacketSize).toNat + 63) / 64),
        wait.Timely := by
      intro wait member
      rw [List.mem_singleton.mp (List.mem_of_mem_take member)]
      exact ready
    rw [request, bulkReceive_timely turn.stale buffer short enough timely]
    refine congrArg some (Prod.ext rfl (Prod.ext (funext fun i => ?_) rfl))
    change buffer.copy 0 64 (register turn.stale [turn.wait.bank]) i =
      buffer.overlay turn.wait.bank i
    rcases Nat.lt_or_ge i 64 with inside | outside
    · have bank : i < turn.wait.bank.length := by rwa [size]
      rw [Mem.copy_inside _ _ _ _ (Nat.zero_le i) (by omega), Nat.sub_zero, register_cons,
        if_pos inside, Mem.overlay_inside _ bank]
      rw [List.getD_eq_getElem?_getD, List.getElem?_eq_getElem bank, Option.getD_some]
    · rw [Mem.copy_outside _ _ _ _ (by omega), Mem.overlay_outside _ (by rw [size]; exact outside)]
  · have late : awaitReady (turn.wait.udfnuml + usbTimeoutMs) turn.wait.polls = some false := by
      cases answer : awaitReady (turn.wait.udfnuml + usbTimeoutMs) turn.wait.polls with
      | none => exact absurd answer ends
      | some ready' =>
        cases ready' with
        | true => exact absurd answer ready
        | false => rfl
    have request : turn.request = none := if_neg ready
    have one : packetTotal (BitVec.ofNat 32 fmrPacketSize) = 1 := by decide
    rw [request, megausbBulkReceive, one]
    simp [packetLoop, late]

variable (registry : Registry) (device : LfDevice) (far : World fmr σ)

/-- Of a service, as far as its messages go, the loop is at the same point. -/
structure Follows (t : Mem × U2 σ) (s : Service σ) : Prop where
  buffer : t.1 = s.buffer
  linked : Linked t.2 (s.modules, s.messages)

include timely in
theorem loopTurn_follows {t : Mem × U2 σ} {s : Service σ} (follows : Follows t s) (turn : Turn)
    (ends : turn.Ends)
    (whole : ∀ request, turn.request = some request → request.length = fmrPacketSize)
    (short : ∀ message ∈ (s.serveAll registry device far turn.request.toList).messages,
      message.length ≤ 64 * 32767) :
    ∃ after, loopTurn waits registry device far t turn = some after ∧
      Follows after (s.serveAll registry device far turn.request.toList) := by
  rw [loopTurn, receive_request turn ends t.1 whole]
  cases arrived : turn.request with
  | none => exact ⟨_, rfl, follows⟩
  | some request =>
    rw [arrived] at short
    let packet := s.buffer.overlay request
    let outcome := (fmrPerform registry device packet).run (delivering far) (s.modules, s.messages)
    have written : ∀ message ∈ sent outcome.trace, message.length ≤ 64 * 32767 := by
      intro message member
      refine short message ?_
      change message ∈ outcome.state.2
      rw [delivering_messages]
      exact List.mem_append_right _ member
    have calls : ∀ event ∈ outcome.trace, event.Allowed (fun _ => True) ShortWrite := by
      intro event member
      cases event with
      | noted label => trivial
      | called op reply =>
        cases op with
        | write bytes => exact written bytes (List.mem_filterMap.mpr ⟨_, member, rfl⟩)
        | _ => trivial
    obtain ⟨value, -, state⟩ := (connected_simulates timely far).run _ follows.linked calls
    have free := state.free
    refine ⟨_, by
      dsimp only
      rw [if_pos rfl, follows.buffer, free]
      rfl, ⟨congrArg PerformReturn.mem value, state⟩⟩

include timely in
theorem loop_follows {t : Mem × U2 σ} {s : Service σ} (follows : Follows t s) (turns : List Turn)
    (ends : ∀ turn ∈ turns, turn.Ends)
    (whole : ∀ request ∈ turns.filterMap Turn.request, request.length = fmrPacketSize)
    (short : ∀ message ∈ (s.serveAll registry device far (turns.filterMap Turn.request)).messages,
      message.length ≤ 64 * 32767) :
    ∃ after, loop waits registry device far t turns = some after ∧
      Follows after (s.serveAll registry device far (turns.filterMap Turn.request)) := by
  induction turns generalizing t s with
  | nil => exact ⟨t, rfl, follows⟩
  | cons turn later ih =>
    have split : s.serveAll registry device far ((turn :: later).filterMap Turn.request) =
        (s.serveAll registry device far turn.request.toList).serveAll registry device far
          (later.filterMap Turn.request) := by
      rw [List.filterMap_cons]
      cases turn.request <;> rfl
    rw [split] at short ⊢
    have first : ∀ request, turn.request = some request → request.length = fmrPacketSize :=
      fun request arrived =>
      whole request (by simp [arrived])
    have rest : ∀ request ∈ later.filterMap Turn.request, request.length = fmrPacketSize :=
      fun request member =>
      whole request (by
        rw [List.filterMap_cons]
        cases turn.request with
        | none => exact member
        | some _ => exact List.mem_cons_of_mem _ member)
    obtain ⟨middle, turned, followed⟩ :=
      loopTurn_follows timely registry device far follows turn (ends turn (by simp))
      first fun message member =>
        short message ((Service.serveAll_messages registry device far _ _).subset member)
    obtain ⟨after, ran, done⟩ :=
      ih followed (fun other member => ends other (by simp [member])) rest short
    exact ⟨after, by rw [loop, List.foldlM_cons, turned]; exact ran, done⟩

end Refinement

/-- The loop on the bulk endpoints does what the service of messages does: it takes the packets
of the host in order, and the messages that `fmr_perform` writes are on the link in order. -/
theorem loop_refines {waits : Nat → Wait} (timely : ∀ i, (waits i).Timely) (registry : Registry)
    (device : LfDevice)
    (far : World fmr σ) (buffer : Mem) (modules : σ) (turns : List Turn)
    (ends : ∀ turn ∈ turns, turn.Ends)
    (whole : ∀ request ∈ turns.filterMap Turn.request, request.length = fmrPacketSize)
    (short : ∀ message ∈ ((⟨buffer, modules, []⟩ : Service σ).serveAll registry device far
      (turns.filterMap Turn.request)).messages, message.length ≤ 64 * 32767) :
    let served := (⟨buffer, modules, []⟩ : Service σ).serveAll registry device far
      (turns.filterMap Turn.request)
    ∃ after, loop waits registry device far (buffer, ⟨0, [], false, modules⟩) turns = some after ∧
      after.1 = served.buffer ∧ after.2.modules = served.modules ∧
      after.2.packets = served.messages.flatMap usbPackets := by
  have start : Follows (buffer, ⟨0, [], false, modules⟩) (⟨buffer, modules, []⟩ : Service σ) :=
    ⟨rfl, rfl, rfl, rfl⟩
  obtain ⟨after, ran, done⟩ := loop_follows timely registry device far start turns ends whole short
  exact ⟨after, ran, done.buffer, done.linked.modules, done.linked.packets⟩

/-- One idle turn between two requests, of which the first is no packet. -/
def twoRequests : List Turn :=
  [⟨0, ⟨0, [⟨true, 0, true⟩], List.replicate 64 0⟩⟩, ⟨0, ⟨0, [⟨false, 3, true⟩], []⟩⟩,
    ⟨0, ⟨0, [⟨false, 1, true⟩, ⟨true, 1, true⟩],
      Mem.slice (fun k => if k = 0 then fmrMagicNumber else 0) 0 64⟩⟩]

def readyWait : Wait := ⟨0, [⟨true, 0, true⟩], []⟩

theorem loop_refines_two :
    ∃ after, loop (fun _ => readyWait) (fmrInit fun _ => none) ⟨fvmModules⟩ obliging
      (fun _ => 0, ⟨0, [], false, ()⟩)
        twoRequests = some after ∧
      after.2.packets = ((⟨fun _ => 0, (), []⟩ : Service Unit).serveAll (fmrInit fun _ => none)
        ⟨fvmModules⟩ obliging
        (twoRequests.filterMap Turn.request)).messages.flatMap usbPackets := by
  have timely : ∀ i : Nat, ((fun _ => readyWait) i : Wait).Timely := fun _ => rfl
  have ends : ∀ turn ∈ twoRequests, turn.Ends := by decide
  obtain ⟨after, ran, -, -, packets⟩ :=
    loop_refines timely (fmrInit fun _ => none) ⟨fvmModules⟩ obliging (fun _ => 0) ()
    twoRequests ends (by decide) (by decide +kernel)
  exact ⟨after, ran, packets⟩

theorem usbPackets_short {bytes : List Byte} (present : 0 < bytes.length)
    (short : bytes.length ≤ 64) :
    usbPackets bytes = [bytes] := by
  have one : (bytes.length + 63) / 64 = 1 := by omega
  rw [usbPackets, one]
  simpa using short

/-- `main` of the device calls `fmr_init` nowhere and registers no module: whatever the host
sends, the loop answers each packet with an error and runs nothing. -/
theorem requests_refused {waits : Nat → Wait} (timely : ∀ i, (waits i).Timely) (device : LfDevice)
    (far : World fmr σ)
    (buffer : Mem) (modules : σ) (turns : List Turn) (ends : ∀ turn ∈ turns, turn.Ends)
    (whole : ∀ request ∈ turns.filterMap Turn.request, request.length = fmrPacketSize) :
    ∃ after, ∃ errors : List Byte,
      loop waits (fun _ => none) device far (buffer, ⟨0, [], false, modules⟩) turns = some after ∧
      after.2.modules = modules ∧ errors.length = (turns.filterMap Turn.request).length ∧
      (∀ error ∈ errors, error ≠ LfErr.eOk.code) ∧
      after.2.packets = errors.map fun error => FmrResult.bytes ⟨0, error⟩ := by
  obtain ⟨unchanged, errors, count, wrong, messages⟩ :=
    Service.serveAll_unregistered device far ⟨buffer, modules, []⟩ (turns.filterMap Turn.request)
  rw [List.nil_append] at messages
  have short : ∀ message ∈ ((⟨buffer, modules, []⟩ : Service σ).serveAll (fun _ => none) device far
      (turns.filterMap Turn.request)).messages, message.length ≤ 64 * 32767 := by
    rw [messages]
    intro message member
    obtain ⟨error, -, rfl⟩ := List.mem_map.mp member
    rw [FmrResult.bytes, Mem.slice_length]
    decide
  have start : Follows (buffer, ⟨0, [], false, modules⟩) (⟨buffer, modules, []⟩ : Service σ) :=
    ⟨rfl, rfl, rfl, rfl⟩
  obtain ⟨after, ran, done⟩ :=
    loop_follows timely (fun _ => none) device far start turns ends whole short
  refine ⟨after, errors, ran, done.linked.modules.trans unchanged, count, wrong, ?_⟩
  rw [done.linked.packets, messages, List.flatMap_map]
  have single : ∀ error, usbPackets (FmrResult.bytes ⟨0, error⟩) = [FmrResult.bytes ⟨0, error⟩] :=
    fun error =>
    usbPackets_short (by rw [FmrResult.bytes, Mem.slice_length]; decide)
      (by rw [FmrResult.bytes, Mem.slice_length]; decide)
  simp only [single]
  exact List.map_eq_flatMap.symm

theorem requests_refused_two :
    ∃ after, ∃ errors : List Byte, loop (fun _ => readyWait) (fun _ => none) ⟨[]⟩ obliging
      (fun _ => 0, ⟨0, [], false, ()⟩) twoRequests =
        some after ∧ after.2.modules = () ∧ errors.length = 2 ∧
        (∀ error ∈ errors, error ≠ LfErr.eOk.code) ∧
      after.2.packets = errors.map fun error => FmrResult.bytes ⟨0, error⟩ := by
  have timely : ∀ i : Nat, ((fun _ => readyWait) i : Wait).Timely := fun _ => rfl
  have ends : ∀ turn ∈ twoRequests, turn.Ends := by decide
  exact requests_refused timely ⟨[]⟩ obliging (fun _ => 0) () twoRequests ends (by decide)

end Flipper.Atmega
