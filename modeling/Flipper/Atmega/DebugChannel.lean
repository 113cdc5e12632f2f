import Flipper.Binary.Memory

/-! The debug channel of `platforms/atmegau2`: `usb_debug_putchar` and
`usb_debug_flush_output` of `debug.c` and the start-of-frame part of `USB_GEN_vect` in
`control.c`, around the one bank of an interrupt endpoint. A character may be put from the
main program and from an interrupt, and each call lets interrupts in between two looks at
the endpoint. -/
namespace Flipper.Atmega.Debug
open Binary

def debugInSize : Nat := 32

inductive Caller where
  | program | interrupt
  deriving DecidableEq

structure Call where
  c : Byte
  timeout : Byte

structure Channel where
  configuration : Byte
  previousTimeout : Bool
  debugFlushTimer : Byte
  /-- The EPEN bit of the endpoint. -/
  enabled : Bool
  /-- What is written to the endpoint and not yet released. -/
  bank : List Byte
  /-- The packet that the host can take. -/
  released : Option (List Byte)
  calls : Caller → Option Call
  /-- For the record: the calls that returned, each with its result, and the packets the host
  took, since the endpoint was last emptied. -/
  returned : List (Byte × Int)
  taken : List (List Byte)

namespace Channel

/-- The processor has the bank. -/
def owns (s : Channel) : Bool := s.enabled && s.released.isNone

/-- The RWAL bit: there is room in the bank as well. -/
def rwal (s : Channel) : Bool := s.owns && s.bank.length < debugInSize

/-- `UEINTX = 0x3A`. -/
def release (s : Channel) : Channel :=
  if s.owns then { s with released := some s.bank, bank := [] } else s

/-- `while (UEINTX & (1 << RWAL)) UEDATX = 0`, for as many turns as a bank can take. -/
def pad : Nat → Channel → Channel
  | 0, s => s
  | turns + 1, s => if s.rwal then pad turns { s with bank := s.bank ++ [0] } else s

def return_ (s : Channel) (who : Caller) (c : Byte) (result : Int) : Channel :=
  { s with calls := Function.update s.calls who none, returned := s.returned ++ [(c, result)] }

/-- `usb_debug_putchar` up to its first look at the endpoint. -/
def putchar (s : Channel) (who : Caller) (c udfnuml : Byte) : Channel :=
  if s.configuration = 0 then s.return_ who c (-1)
  else if s.previousTimeout && !s.rwal then s.return_ who c (-1)
  else
    { s with
      previousTimeout := false
      calls := Function.update s.calls who (some ⟨c, udfnuml + 3⟩) }

/-- The byte goes into the bank, and the packet out if that completes it. -/
def write (s : Channel) (c : Byte) : Channel :=
  let s := { s with bank := s.bank ++ [c] }
  if !s.rwal then { s.release with debugFlushTimer := 0 } else { s with debugFlushTimer := 2 }

def look (s : Channel) (who : Caller) (call : Call) (udfnuml : Byte) : Channel :=
  if s.rwal then (s.write call.c).return_ who call.c 0
  else if udfnuml = call.timeout then { s with previousTimeout := true }.return_ who call.c (-1)
  else if s.configuration = 0 then s.return_ who call.c (-1)
  else s

def startOfFrame (s : Channel) : Channel :=
  if s.configuration ≠ 0 ∧ s.debugFlushTimer ≠ 0 then
    let s := { s with debugFlushTimer := s.debugFlushTimer - 1 }
    if s.debugFlushTimer = 0 then (s.pad debugInSize).release else s
  else s

def flushOutput (s : Channel) : Channel :=
  if s.debugFlushTimer ≠ 0 then { (s.pad debugInSize).release with debugFlushTimer := 0 } else s

/-- The endpoint is emptied, by a reset of the bus or through UERST, and the record starts
again. -/
def empty (s : Channel) (configuration : Byte) (enabled : Bool) : Channel :=
  { s with configuration, enabled, bank := [], released := none, returned := [], taken := [] }

end Channel

inductive Action where
  | putchar (who : Caller) (c udfnuml : Byte)
  | look (who : Caller) (udfnuml : Byte)
  | startOfFrame
  | flushOutput
  | endOfReset
  | setConfiguration (value : Byte)
  | setFeature
  | clearFeature
  | hostTakes

/-- A caller is in one call at a time, and the host takes what is there. The requests are those
of `USB_COM_vect` that write to the endpoint; all of them set EPEN. -/
def Channel.act (s : Channel) : Action → Channel
  | .putchar who c udfnuml => if (s.calls who).isNone then s.putchar who c udfnuml else s
  | .look who udfnuml =>
    match s.calls who with
    | none => s
    | some call => s.look who call udfnuml
  | .startOfFrame => s.startOfFrame
  | .flushOutput => s.flushOutput
  | .endOfReset => s.empty 0 false
  | .setConfiguration value => s.empty value true
  | .setFeature => { s with enabled := true }
  | .clearFeature => s.empty s.configuration true
  | .hostTakes =>
    match s.released with
    | none => s
    | some packet => { s with released := none, taken := s.taken ++ [packet] }

def Channel.run (s : Channel) (actions : List Action) : Channel := actions.foldl Channel.act s

def start : Channel := ⟨0, false, 0, false, [], none, fun _ => none, [], []⟩

def Channel.accepted (s : Channel) : List Byte :=
  (s.returned.filter fun (_, result) => result = 0).map Prod.fst

/-- All packets, with the one the host can take. -/
def Channel.packets (s : Channel) : List (List Byte) := s.taken ++ s.released.toList

def padded (characters : List Byte) : List Byte :=
  characters ++ List.replicate (debugInSize - characters.length) 0

structure Channel.Invariant (s : Channel) : Prop where
  room : s.bank.length < debugInSize
  owned : s.owns = false → s.bank = []
  timer : s.debugFlushTimer ≤ 2
  due : s.bank ≠ [] → s.debugFlushTimer ≠ 0
  carried : ∃ chunks : List (List Byte), s.packets = chunks.map padded ∧
    (∀ chunk ∈ chunks, chunk.length ≤ debugInSize) ∧
    chunks.flatten ++ s.bank = s.accepted

theorem padded_full {characters : List Byte} (full : debugInSize ≤ characters.length) :
    padded characters = characters := by
  simp [padded, Nat.sub_eq_zero_of_le full]

theorem padded_zero {characters : List Byte} (room : characters.length < debugInSize) :
    padded (characters ++ [0]) = padded characters := by
  obtain ⟨left, split⟩ := Nat.exists_eq_add_of_lt room
  have one : debugInSize - characters.length = left + 1 := by omega
  have none : debugInSize - (characters ++ [0]).length = left := by
    rw [List.length_append, List.length_singleton]
    omega
  rw [padded, padded, one, none, List.append_assoc, List.replicate_succ]
  rfl

section Steps
variable {s : Channel}

theorem rwal_iff : s.rwal = true ↔ s.owns = true ∧ s.bank.length < debugInSize := by
  simp [Channel.rwal]

theorem owns_iff : s.owns = true ↔ s.enabled = true ∧ s.released = none := by
  simp [Channel.owns]

theorem pad_eq (owned : s.owns = true) {turns : Nat}
    (enough : debugInSize ≤ s.bank.length + turns) :
    s.pad turns = { s with bank := padded s.bank } := by
  induction turns generalizing s with
  | zero => rw [Channel.pad, padded_full enough]
  | succ turns ih =>
    rw [Channel.pad]
    split
    · rename_i writable
      have room := (rwal_iff.mp writable).2
      have later := ih (s := { s with bank := s.bank ++ [0] }) owned (by simp; omega)
      rw [later]
      simp only [padded_zero room]
    · rename_i full
      rw [rwal_iff, not_and] at full
      rw [padded_full (Nat.le_of_not_lt (full owned))]

namespace Channel

/-- The bank goes out filled up, or there is nothing to do because the last packet is
still there or the endpoint is off. -/
theorem flush_cases (s : Channel) :
    s.owns = true ∧ (s.pad debugInSize).release =
      { s with released := some (padded s.bank), bank := [] } ∨
      s.owns = false ∧ (s.pad debugInSize).release = s := by
  cases owned : s.owns with
  | true =>
    refine .inl ⟨rfl, ?_⟩
    have still : ({ s with bank := padded s.bank } : Channel).owns = true := owned
    rw [pad_eq owned (Nat.le_add_left ..), release, if_pos still]
  | false =>
    have busy : s.rwal = false := by simp [rwal, owned]
    refine .inr ⟨rfl, ?_⟩
    have kept : s.pad debugInSize = s := by
      rw [debugInSize, pad, busy]
      rfl
    rw [kept, release]
    simp [owned]

theorem empty_room : ([] : List Byte).length < debugInSize := by decide

/-- The bank as one more packet. -/
theorem Invariant.sent (holds : s.Invariant) (owned : s.owns = true) (timer : Byte)
    (small : timer ≤ 2) :
    Invariant
      { s with debugFlushTimer := timer, released := some (padded s.bank), bank := [] } := by
  obtain ⟨chunks, packets, short, flat⟩ := holds.carried
  refine ⟨empty_room, fun _ => rfl, small, fun more => absurd rfl more, chunks ++ [s.bank],
    ?_, ?_, ?_⟩
  · rw [Channel.packets, (owns_iff.mp owned).2] at packets
    simpa [Channel.packets] using packets
  · intro chunk member
    rcases List.mem_append.mp member with earlier | last
    · exact short chunk earlier
    · rw [List.mem_singleton.mp last]
      exact holds.room.le
  · simpa [Channel.accepted] using flat

theorem Invariant.busy (holds : s.Invariant) (busy : s.owns = false) (timer : Byte)
    (small : timer ≤ 2) :
    Invariant { s with debugFlushTimer := timer } :=
  ⟨holds.room, holds.owned, small, fun more => absurd (holds.owned busy) more, holds.carried⟩

/-- A call that returns without having written changes the record only. -/
theorem Invariant.refuse (holds : s.Invariant) (who : Caller) (c : Byte) :
    (s.return_ who c (-1)).Invariant := by
  obtain ⟨chunks, packets, short, flat⟩ := holds.carried
  refine ⟨holds.room, holds.owned, holds.timer, holds.due, chunks, packets, short, flat.trans ?_⟩
  simp [Channel.accepted, return_]

theorem Invariant.write (holds : s.Invariant) (writable : s.rwal = true) (who : Caller) (c : Byte) :
    ((s.write c).return_ who c 0).Invariant := by
  obtain ⟨chunks, packets, short, flat⟩ := holds.carried
  obtain ⟨owned, room⟩ := rwal_iff.mp writable
  have still : ({ s with bank := s.bank ++ [c] } : Channel).owns = true := owned
  have accepted : chunks.flatten ++ (s.bank ++ [c]) = s.accepted ++ [c] := by
    rw [← List.append_assoc, flat]
  by_cases full : s.bank.length + 1 < debugInSize
  · have written : s.write c = { s with bank := s.bank ++ [c], debugFlushTimer := 2 } := by
      simp [Channel.write, rwal, still, full]
    rw [written]
    refine ⟨by simpa [return_] using full, fun busy => ?_, by simp [return_],
      fun _ => by simp [return_], chunks, packets, short, ?_⟩
    · exact absurd (owned.symm.trans busy) (by decide)
    · simpa [Channel.accepted, return_] using accepted
  · have exact_ : s.bank.length + 1 = debugInSize := by omega
    have written : s.write c =
        { s with bank := [], released := some (s.bank ++ [c]), debugFlushTimer := 0 } := by
      simp [Channel.write, rwal, still, full, release]
    rw [written]
    refine ⟨empty_room, fun _ => rfl, by simp [return_], fun more => absurd rfl more,
      chunks ++ [s.bank ++ [c]], ?_, ?_, ?_⟩
    · have whole : padded (s.bank ++ [c]) = s.bank ++ [c] := padded_full (by simp [exact_])
      rw [Channel.packets, (owns_iff.mp owned).2] at packets
      simpa [Channel.packets, return_, whole] using packets
    · intro chunk member
      rcases List.mem_append.mp member with earlier | last
      · exact short chunk earlier
      · rw [List.mem_singleton.mp last]
        simp [exact_]
    · simpa [Channel.accepted, return_] using accepted

theorem Invariant.empty (holds : s.Invariant) (configuration : Byte) (enabled : Bool) :
    (s.empty configuration enabled).Invariant :=
  ⟨empty_room, fun _ => rfl, holds.timer, fun more => absurd rfl more, [], rfl, by simp, rfl⟩

/-- The invariant does not speak of who is in a call. -/
theorem Invariant.calling (holds : s.Invariant) (previousTimeout : Bool)
    (calls : Caller → Option Call) : Invariant { s with previousTimeout, calls } :=
  ⟨holds.room, holds.owned, holds.timer, holds.due, holds.carried⟩

theorem Invariant.putchar (holds : s.Invariant) (who : Caller) (c udfnuml : Byte) :
    (s.putchar who c udfnuml).Invariant := by
  rw [Channel.putchar]
  split
  · exact holds.refuse who c
  · split
    · exact holds.refuse who c
    · exact holds.calling _ _

theorem Invariant.look (holds : s.Invariant) (who : Caller) (call : Call) (udfnuml : Byte) :
    (s.look who call udfnuml).Invariant := by
  rw [Channel.look]
  split
  · rename_i writable
    exact holds.write writable who call.c
  · split
    · exact (holds.calling true s.calls).refuse who call.c
    · split
      · exact holds.refuse who call.c
      · exact holds

theorem Invariant.startOfFrame (holds : s.Invariant) : s.startOfFrame.Invariant := by
  rw [Channel.startOfFrame]
  split
  · rename_i running
    have small : s.debugFlushTimer - 1 ≤ 2 := by
      have before := holds.timer
      have positive := running.2
      bv_omega
    dsimp only
    split
    · rcases flush_cases { s with debugFlushTimer := s.debugFlushTimer - 1 } with
        ⟨owned, flushed⟩ | ⟨busy, kept⟩
      · exact flushed ▸ holds.sent owned _ small
      · rw [kept]
        exact holds.busy busy _ small
    · rename_i more
      exact ⟨holds.room, holds.owned, small, fun _ => more, holds.carried⟩
  · exact holds

theorem Invariant.flushOutput (holds : s.Invariant) : s.flushOutput.Invariant := by
  rw [Channel.flushOutput]
  split
  · rcases s.flush_cases with ⟨owned, flushed⟩ | ⟨busy, kept⟩
    · exact flushed ▸ holds.sent owned 0 (by decide)
    · rw [kept]
      exact holds.busy busy 0 (by decide)
  · exact holds

theorem Invariant.enable (holds : s.Invariant) : Invariant { s with enabled := true } := by
  refine ⟨holds.room, fun busy => holds.owned ?_, holds.timer, holds.due, holds.carried⟩
  simp only [owns, Bool.true_and] at busy
  rw [owns, busy, Bool.and_false]

theorem Invariant.take (holds : s.Invariant) {packet : List Byte}
    (ready : s.released = some packet) :
    Invariant { s with released := none, taken := s.taken ++ [packet] } := by
  obtain ⟨chunks, packets, short, flat⟩ := holds.carried
  have busy : s.owns = false := by simp [owns, ready]
  refine ⟨holds.room, fun _ => holds.owned busy, holds.timer, holds.due, chunks, ?_, short, flat⟩
  rw [Channel.packets, ready] at packets
  simpa [Channel.packets] using packets

theorem Invariant.act (holds : s.Invariant) (action : Action) : (s.act action).Invariant := by
  cases action with
  | putchar who c udfnuml =>
    rw [Channel.act]
    split
    · exact holds.putchar who c udfnuml
    · exact holds
  | look who udfnuml =>
    rw [Channel.act]
    cases s.calls who with
    | none => exact holds
    | some call => exact holds.look who call udfnuml
  | startOfFrame => exact holds.startOfFrame
  | flushOutput => exact holds.flushOutput
  | endOfReset => exact holds.empty 0 false
  | setConfiguration value => exact holds.empty value true
  | setFeature => exact holds.enable
  | clearFeature => exact holds.empty s.configuration true
  | hostTakes =>
    rw [Channel.act]
    cases ready : s.released with
    | none => exact holds
    | some packet => exact holds.take ready

theorem Invariant.run (holds : s.Invariant) (actions : List Action) :
    (s.run actions).Invariant := by
  induction actions generalizing s with
  | nil => exact holds
  | cons action later ih => exact ih (holds.act action)

theorem Invariant.flush_bank (holds : s.Invariant) (timer : Byte) :
    (({ s with debugFlushTimer := timer } : Channel).pad debugInSize).release.bank = [] := by
  rcases flush_cases { s with debugFlushTimer := timer } with ⟨_, flushed⟩ | ⟨busy, kept⟩
  · rw [flushed]
  · rw [kept]
    exact holds.owned busy

/-- A frame does not fill the bank, and sends it off when the timer runs out. -/
theorem Invariant.frame (holds : s.Invariant) (configured : s.configuration ≠ 0)
    (last : s.bank = [] ∨ s.debugFlushTimer = 1) : s.startOfFrame.bank = [] := by
  rw [Channel.startOfFrame]
  split
  · dsimp only
    split
    · exact holds.flush_bank _
    · rename_i more
      refine last.resolve_right fun one => more ?_
      rw [one]
      rfl
  · rename_i idle
    refine last.resolve_right fun one => idle ⟨configured, ?_⟩
    rw [one]
    decide

/-- Two frames send the bank off. -/
theorem Invariant.frames (holds : s.Invariant) (configured : s.configuration ≠ 0) :
    s.startOfFrame.startOfFrame.bank = [] := by
  have after : s.startOfFrame.Invariant := holds.act .startOfFrame
  have still : s.startOfFrame.configuration ≠ 0 := by
    rw [Channel.startOfFrame]
    split
    · dsimp only
      split
      · rcases flush_cases { s with debugFlushTimer := s.debugFlushTimer - 1 } with ⟨_,
          flushed⟩ | ⟨_, kept⟩
        · rwa [flushed]
        · rwa [kept]
      · exact configured
    · exact configured
  refine after.frame still ?_
  by_cases last : s.bank = [] ∨ s.debugFlushTimer = 1
  · exact .inl (holds.frame configured last)
  · rw [not_or] at last
    have two : s.debugFlushTimer = 2 := by
      have small := holds.timer
      have due := holds.due last.1
      have other := last.2
      bv_omega
    refine .inr ?_
    have ticking : s.configuration ≠ 0 ∧ s.debugFlushTimer ≠ 0 := ⟨configured, holds.due last.1⟩
    rw [Channel.startOfFrame, if_pos ticking, two]
    rfl

end Channel
end Steps

theorem start_invariant : start.Invariant :=
  ⟨Channel.empty_room, fun _ => rfl, by decide, fun more => absurd rfl more, [], rfl, by simp, rfl⟩

/-- Over every run: the characters reported as sent are those of the packets and the bank, in
order, each packet filled up with zeros only; and two frames send off what is in the bank. -/
theorem debug_channel (actions : List Action) :
    let s := start.run actions
    (∃ chunks : List (List Byte), s.packets = chunks.map padded ∧
        (∀ chunk ∈ chunks, chunk.length ≤ debugInSize) ∧ chunks.flatten ++ s.bank = s.accepted) ∧
      (s.configuration ≠ 0 → s.startOfFrame.startOfFrame.bank = []) := by
  have holds := start_invariant.run actions
  exact ⟨holds.carried, holds.frames⟩

end Flipper.Atmega.Debug
