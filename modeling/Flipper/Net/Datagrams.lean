import Flipper.Effect.Protocol
import Flipper.Fmr.Perform
import Flipper.Host.Invoke
import Mathlib.Logic.Relation

/-! One host and one FVM over datagrams. The host runs `lf_invoke_by_index` calls
one after the other; the FVM serves requests in any order; a datagram may stay in
flight for as long as the schedule likes. Numbers on datagrams are bookkeeping: no
packet and no result carries one. -/
namespace Flipper.Net
open Binary Effect Fmr Host

structure Datagram where
  id : Nat
  bytes : List Byte
  deriving DecidableEq

inductive HostState where
  | ready (modules : List LfModule) (err : Byte)
  | calling (rest : FmrProg InvokeReturn)

/-- A call that returned: the number of its own RPC packet, what it returned, and
whether no read of the run had given up by then. -/
structure Finished where
  own : Option Nat
  returned : InvokeReturn
  patient : Bool
  deriving DecidableEq

structure System (σ : Type) where
  host : HostState
  /-- The RPC packet of the running call. -/
  own : Option Nat
  next : Nat
  requests : List Datagram
  replies : List Datagram
  /-- All results the device ever sent, under the number of their request. -/
  answered : List Datagram
  device : σ
  buffer : Mem
  patient : Bool
  finished : List Finished

/-- Only call packets have the class of a call. -/
def isCall (bytes : List Byte) : Bool := decide (bytes[5]? = some FmrClass.rpc.code)

section Act
variable (registry : Registry) (modules : List LfModule) (far : World fmr σ)

/-- The FVM takes one request into its packet buffer and performs it. -/
def serve (request : Datagram) (s : System σ) : System σ :=
  let outcome := (fmrPerform (fmrInit registry) ⟨modules⟩ (s.buffer.overlay request.bytes)).run far
    s.device
  let results := (sent outcome.trace).map fun bytes => ⟨request.id, bytes⟩
  { s with
    replies := s.replies ++ results
    answered := s.answered ++ results
    device := outcome.state
    buffer := outcome.value.mem }

inductive Step : System σ → System σ → Prop where
  | invoke (c : Call) (ready : s.host = .ready known err) : Step s { s with
      host := .calling (c.invoke known err)
      own := none }
  | send {rest : WriteReply → FmrProg InvokeReturn}
      (writing : s.host = .calling (.call (Op.write bytes) rest)) : Step s { s with
      host := .calling (rest ⟨lfSuccess, none⟩)
      own := if isCall bytes then some s.next else s.own
      next := s.next + 1
      requests := s.requests ++ [⟨s.next, bytes⟩] }
  | sendFails {rest : WriteReply → FmrProg InvokeReturn} (status : Int) (err : Option Byte)
      (failed : status ≠ lfSuccess) (writing : s.host = .calling (.call (Op.write bytes) rest)) :
      Step s { s with host := .calling (rest ⟨status, err⟩) }
  | receive {rest : ReadReply → FmrProg InvokeReturn} (which : Nat) (junk : Mem)
      (arrived : s.replies[which]? = some reply)
      (reading : s.host = .calling (.call (Op.read length) rest)) : Step s { s with
      host := .calling (rest ⟨lfSuccess, none, junk.overlay (reply.bytes.take length)⟩)
      replies := s.replies.eraseIdx which }
  | giveUp {rest : ReadReply → FmrProg InvokeReturn} (dst : Mem)
      (reading : s.host = .calling (.call (Op.read length) rest)) : Step s { s with
      host := .calling (rest ⟨lfError, none, dst⟩)
      patient := false }
  | allocate {rest : Option Block → FmrProg InvokeReturn} (reply : Option Block)
      (asking : s.host = .calling (.call (Op.malloc size) rest)) :
      Step s { s with host := .calling (rest reply) }
  | finish (returning : s.host = .calling (.pure returned)) : Step s { s with
      host := .ready returned.modules returned.err
      finished := s.finished ++ [⟨s.own, returned, s.patient⟩] }
  | serve (which : Nat) (arrived : s.requests[which]? = some request) :
      Step s (serve registry modules far request { s with requests := s.requests.eraseIdx which })

inductive Action where
  | invoke (call : Call)
  | send
  | sendFails (status : Int) (err : Option Byte)
  | receive (which : Nat) (junk : Mem)
  | giveUp (dst : Mem)
  | allocate (reply : Option Block)
  | finish
  | serve (which : Nat)

def act (s : System σ) : Action → Option (System σ)
  | .invoke c => match s.host with
    | .ready known err => some { s with
        host := .calling (c.invoke known err)
        own := none }
    | _ => none
  | .send => match s.host with
    | .calling (.call (Op.write bytes) rest) => some { s with
        host := .calling (rest ⟨lfSuccess, none⟩)
        own := if isCall bytes then some s.next else s.own
        next := s.next + 1
        requests := s.requests ++ [⟨s.next, bytes⟩] }
    | _ => none
  | .sendFails status err => match s.host with
    | .calling (.call (Op.write _) rest) =>
      if status = lfSuccess then none else some { s with host := .calling (rest ⟨status, err⟩) }
    | _ => none
  | .receive which junk => match s.host, s.replies[which]? with
    | .calling (.call (Op.read length) rest), some reply => some { s with
        host := .calling (rest ⟨lfSuccess, none, junk.overlay (reply.bytes.take length)⟩)
        replies := s.replies.eraseIdx which }
    | _, _ => none
  | .giveUp dst => match s.host with
    | .calling (.call (Op.read _) rest) => some { s with
        host := .calling (rest ⟨lfError, none, dst⟩)
        patient := false }
    | _ => none
  | .allocate reply => match s.host with
    | .calling (.call (Op.malloc _) rest) => some { s with host := .calling (rest reply) }
    | _ => none
  | .finish => match s.host with
    | .calling (.pure returned) => some { s with
        host := .ready returned.modules returned.err
        finished := s.finished ++ [⟨s.own, returned, s.patient⟩] }
    | _ => none
  | .serve which => match s.requests[which]? with
    | some request => some (serve registry modules far request
        { s with requests := s.requests.eraseIdx which })
    | none => none

theorem act_step {s t : System σ} (acted : act registry modules far s action = some t) :
    Step registry modules far s t := by
  cases action with
  | invoke c =>
    simp only [act] at acted
    split at acted <;> cases acted
    exact .invoke c ‹_›
  | send =>
    simp only [act] at acted
    split at acted <;> cases acted
    exact .send ‹_›
  | sendFails status err =>
    simp only [act] at acted
    split at acted
    · split at acted <;> cases acted
      exact .sendFails status err ‹_› ‹_›
    · cases acted
  | receive which junk =>
    simp only [act] at acted
    split at acted <;> cases acted
    exact .receive which junk ‹_› ‹_›
  | giveUp dst =>
    simp only [act] at acted
    split at acted <;> cases acted
    exact .giveUp dst ‹_›
  | allocate reply =>
    simp only [act] at acted
    split at acted <;> cases acted
    exact .allocate reply ‹_›
  | finish =>
    simp only [act] at acted
    split at acted <;> cases acted
    exact .finish ‹_›
  | serve which =>
    simp only [act] at acted
    split at acted <;> cases acted
    exact .serve which ‹_›

theorem schedule_reaches (schedule : List Action) {s t : System σ}
    (ran : schedule.foldlM (act registry modules far) s = some t) :
    Relation.ReflTransGen (Step registry modules far) s t := by
  induction schedule generalizing s with
  | nil =>
    cases ran
    exact .refl
  | cons action rest ih =>
    obtain ⟨middle, acted, later⟩ := Option.bind_eq_some_iff.mp ran
    exact .head (act_step registry modules far acted) (ih later)

end Act

def start (known : List LfModule) (err : Byte) (device : σ) (buffer : Mem) : System σ where
  host := .ready known err
  own := none
  next := 0
  requests := []
  replies := []
  answered := []
  device := device
  buffer := buffer
  patient := true
  finished := []

end Flipper.Net
