import Flipper.Posix.Transport

/-! Where the host of a network device sends its requests. `lf_network_connect` puts an address
into the context, `lf_network_read` replaces it by the source of whatever datagram it takes, and
`lf_network_write` sends to it. -/
namespace Flipper.Posix
open Binary Effect Fmr Fvm

def inaddrNone : BitVec 32 := 0xFFFFFFFF

def resolvedHost (host : String) : String := if host = "localhost" then "127.0.0.1" else host

/-- `lf_network_connect` with what `socket` and `bind` return; the address is cleared before the
host is looked at. -/
def lfNetworkConnect (addr : Address) (fd b : Int) (inetAddr : String → BitVec 32) (host : String)
    (port : BitVec 16) :
    WriteReply × Address :=
  if ¬0 < fd then (⟨lfError, some LfErr.eSocket.code⟩, addr)
  else if b ≠ 0 then (⟨lfError, some LfErr.eSocket.code⟩, addr)
  else
    let ip := inetAddr (resolvedHost host)
    if ip = inaddrNone then (⟨lfError, some LfErr.eCommunication.code⟩, ⟨0, port⟩)
    else (⟨lfSuccess, none⟩, ⟨ip, port⟩)

/-- A datagram that was taken, or one that was sent. -/
inductive Exchange where
  | received (source : Address)
  | sent (datagram : Sent)

/-- The device on the host with the datagrams of its socket in order. -/
structure Socket (σ : Type) where
  endpoint : Endpoint σ
  log : List Exchange

/-- The destination of a read before it, and as many outcomes as it tries. -/
structure Arrivals where
  dst : Mem
  outcomes : Fin 5 → Recvfrom

section Device
variable (sendto : SendTo σ) (recvfrom : Nat → σ → Arrivals × σ) (far : World fmr σ)

def lfNetworkReadOn (s : Socket σ) (length : Nat) : ReadReply × Socket σ :=
  let (arrivals, rest) := recvfrom length s.endpoint.modules
  match lfNetworkRead (some s.endpoint.addr) arrivals.dst length (List.ofFn arrivals.outcomes) with
  | none => (⟨lfError, none, arrivals.dst⟩, s)
  | some returned =>
    let addr := returned.ctx.getD s.endpoint.addr
    (⟨returned.reply.status, returned.reply.err, returned.buffer.dst⟩,
      ⟨{ s.endpoint with addr, modules := rest },
        if returned.reply.status = lfSuccess then s.log ++ [.received addr] else s.log⟩)

def lfNetworkWriteOn (s : Socket σ) (bytes : List Byte) : WriteReply × Socket σ :=
  let (reply, endpoint) := lfNetworkWrite sendto s.endpoint bytes
  (reply, ⟨endpoint, s.log ++ (endpoint.outbox.drop s.endpoint.outbox.length).map Exchange.sent⟩)

def remote : World fmr (Socket σ) where
  answer op s := match op with
    | .write bytes => lfNetworkWriteOn sendto s bytes
    | .read length => lfNetworkReadOn recvfrom s length
    | op =>
      let reply := far.answer op s.endpoint.modules
      (reply.1, { s with endpoint := { s.endpoint with modules := reply.2 } })

end Device

/-- The source of the last datagram taken, or the address to begin with. -/
def peer (addr : Address) : List Exchange → Address
  | [] => addr
  | .received source :: later => peer source later
  | .sent _ :: later => peer addr later

/-- Every datagram went to the peer of its time. -/
def Addressed (addr : Address) : List Exchange → Prop
  | [] => True
  | .received source :: later => Addressed source later
  | .sent datagram :: later => datagram.dest = addr ∧ Addressed addr later

theorem peer_append (addr : Address) (first second : List Exchange) :
    peer addr (first ++ second) = peer (peer addr first) second := by
  induction first generalizing addr with
  | nil => rfl
  | cons exchange later ih => cases exchange <;> exact ih _

theorem addressed_append (addr : Address) (first second : List Exchange) :
    Addressed addr (first ++ second) ↔ Addressed addr first ∧
    Addressed (peer addr first) second := by
  induction first generalizing addr with
  | nil => simp [Addressed, peer]
  | cons exchange later ih =>
    cases exchange with
    | received source => exact ih source
    | sent datagram => exact (and_congr_right fun _ => ih addr).trans and_assoc.symm

theorem addressed_getElem? (addr : Address) (log : List Exchange) {k : Nat} {datagram : Sent}
    (addressed : Addressed addr log)
    (found : log[k]? = some (.sent datagram)) : datagram.dest = peer addr (log.take k) := by
  have split : log = log.take k ++ .sent datagram :: log.drop (k + 1) := by
    obtain ⟨inside, same⟩ := List.getElem?_eq_some_iff.mp found
    rw [← same, ← List.drop_eq_getElem_cons, List.take_append_drop]
  rw [split, addressed_append] at addressed
  exact addressed.2.1

/-- The context holds the peer. -/
structure Tracks (addr : Address) (s : Socket σ) : Prop where
  current : s.endpoint.addr = peer addr s.log
  addressed : Addressed addr s.log

section Runs
variable {sendto : SendTo σ} {recvfrom : Nat → σ → Arrivals × σ} {far : World fmr σ}
  {addr : Address} {s : Socket σ}

/-- A read leaves the source of a datagram, or what was there. -/
theorem lfNetworkRead_ctx {addr : Address} {dst : Mem} {length : Nat} {outcomes : List Recvfrom}
    {returned : NetworkRead}
    (read : lfNetworkRead (some addr) dst length outcomes = some returned) :
    returned.reply.status ≠ lfSuccess → returned.ctx = some addr := by
  obtain ⟨taken, -, rfl⟩ := Option.map_eq_some_iff.mp read
  cases taken with
  | none => exact fun _ => rfl
  | some datagram => exact fun failed => absurd rfl failed

theorem Tracks.read (tracks : Tracks addr s) (length : Nat) :
    Tracks addr (lfNetworkReadOn recvfrom s length).2 := by
  dsimp only [lfNetworkReadOn]
  split
  · exact tracks
  · rename_i returned read
    by_cases success : returned.reply.status = lfSuccess
    · rw [if_pos success]
      constructor
      · rw [peer_append]
        rfl
      · exact (addressed_append _ _ _).mpr ⟨tracks.addressed, trivial⟩
    · rw [if_neg success, lfNetworkRead_ctx read success]
      exact ⟨tracks.current, tracks.addressed⟩

theorem Tracks.write (tracks : Tracks addr s) (bytes : List Byte) :
    Tracks addr (lfNetworkWriteOn sendto s bytes).2 := by
  have sends : (lfNetworkWrite sendto s.endpoint bytes).2.addr = s.endpoint.addr ∧
      ((lfNetworkWrite sendto s.endpoint bytes).2.outbox.drop s.endpoint.outbox.length = [] ∨
        (lfNetworkWrite sendto s.endpoint bytes).2.outbox.drop s.endpoint.outbox.length =
          [⟨s.endpoint.addr, bytes⟩]) := by
    rw [lfNetworkWrite]
    split
    · exact ⟨rfl, Or.inl (List.drop_length ..)⟩
    · refine ⟨rfl, ?_⟩
      dsimp only
      split
      · exact Or.inr (List.drop_left ..)
      · exact Or.inl (List.drop_length ..)
  obtain ⟨same, none | one⟩ := sends
  · dsimp only [lfNetworkWriteOn]
    rw [none, List.map_nil, List.append_nil]
    exact ⟨same.trans tracks.current, tracks.addressed⟩
  · dsimp only [lfNetworkWriteOn]
    rw [one]
    constructor
    · rw [peer_append]
      exact same.trans tracks.current
    · exact (addressed_append _ _ _).mpr ⟨tracks.addressed, tracks.current, trivial⟩

theorem Tracks.run (tracks : Tracks addr s) (p : FmrProg α) :
    Tracks addr (p.run (remote sendto recvfrom far) s).state := by
  induction p generalizing s with
  | pure value => exact tracks
  | note label next ih => exact ih tracks
  | call op next ih =>
    refine ih _ ?_
    cases op with
    | write bytes => exact tracks.write bytes
    | read length => exact tracks.read length
    | _ => exact ⟨tracks.current, tracks.addressed⟩

end Runs

end Flipper.Posix
