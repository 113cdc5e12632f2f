import Flipper.Binary.Memory

/-! `fdebug`: one thread prints what the device sends on its debug endpoint, another what a host
program sends over the network, and a mutex says who has the terminal. The threads are taken
step by step, so that either can go on at any point of the other. -/
namespace Flipper.Fdebug
open Binary

inductive Source where
  | device | host
  deriving DecidableEq

/-- What `libusb_interrupt_transfer`, `accept` or `recv` came back with: the result, and the bytes
that are now in the buffer. A transfer that was not submitted has none, and has not written `read`;
a failed `recv` has none either. -/
structure Reply where
  e : Int
  moved : Option (List Byte)

def libusbErrorTimeout : Int := -7

inductive Printed where
  | banner (source : Source)
  | byte (source : Source) (value : Byte)
  | couldNotEstablish
  deriving DecidableEq

inductive Place where
  | accept | read | lock | banner | choose
  | print (bufp : Nat)
  | unlock
  deriving DecidableEq

structure Thread where
  place : Place
  timeout : Nat
  e : Int
  read : Int
  buf : Mem

/-- The condition under which a thread gives the terminal back. -/
def quiet (e read : Int) : Source → Bool
  | .device => e == libusbErrorTimeout || read == 0
  | .host => read < 0 || read == 0

namespace Thread
variable (who : Source) (thread : Thread)

/-- The variables after the transfer. Only the device's `read` outlives a turn of the loop. -/
def receive (reply : Reply) : Thread where
  place := if thread.timeout = 0 then .lock else .choose
  timeout := thread.timeout
  e := reply.e
  read := match reply.moved, who with
    | some bytes, _ => bytes.length
    | none, .device => thread.read
    | none, .host => -1
  buf := thread.buf.overlay (reply.moved.getD [])

def choose : Thread :=
  if quiet thread.e thread.read who then { thread with place := .unlock, timeout := 0 }
  else { thread with place := .print 0, timeout := 5 }

end Thread

structure System where
  thread : Source → Thread
  mutex : Option Source
  printed : List Printed
  /-- Every reply, in order. -/
  replies : Source → List Reply

/-- `main`, after it has created the threads. The device's `read` has no initial value. -/
def start (read : Int) (stack : Source → Mem) : System where
  thread
    | .device => ⟨.read, 0, 0, read, stack .device⟩
    | .host => ⟨.accept, 0, 0, 0, stack .host⟩
  mutex := none
  printed := []
  replies _ := []

namespace System
variable (s : System)

def move (who : Source) (thread : Thread) : System :=
  { s with thread := Function.update s.thread who thread }

/-- The next step of a thread, with the reply in case it asks for one; none while it waits
for the mutex. -/
def step (who : Source) (reply : Reply) : Option System :=
  let thread := s.thread who
  match thread.place with
  | .accept =>
    let s := s.move who { thread with place := .read }
    some (if reply.e < 0 then { s with printed := s.printed ++ [.couldNotEstablish] } else s)
  | .read =>
    let s := { s with replies := Function.update s.replies who (s.replies who ++ [reply]) }
    some (s.move who (thread.receive who reply))
  | .lock =>
    match s.mutex with
    | none => some { s.move who { thread with place := .banner } with mutex := some who }
    | some _ => none
  | .banner =>
    let s := s.move who { thread with place := .choose }
    some { s with printed := s.printed ++ [.banner who] }
  | .choose => some (s.move who (thread.choose who))
  | .print bufp =>
    -- `while (read--)`: a negative `read` is not zero and runs on past the buffer.
    if thread.read = 0 then some (s.move who { thread with place := .read, read := -1 })
    else
      let s := s.move who { thread with place := .print (bufp + 1), read := thread.read - 1 }
      some { s with printed := s.printed ++ [.byte who (thread.buf bufp)] }
  | .unlock => some { s.move who { thread with place := .read } with mutex := none }

def steps (s : System) : List (Source × Reply) → Option System
  | [] => some s
  | (who, reply) :: rest => (s.step who reply).bind fun s => s.steps rest

end System

/-! ## The mutex -/

/-- Where a thread is while it has the terminal. -/
def Thread.Holds (thread : Thread) : Prop :=
  match thread.place with
  | .accept | .lock => False
  | .read => thread.timeout ≠ 0
  | .banner | .choose | .print _ | .unlock => True

/-- Where its banner is the last one. -/
def Thread.Titled (thread : Thread) : Prop :=
  match thread.place with
  | .banner => False
  | _ => thread.Holds

/-- The source of the section that the output is in. -/
def headed (printed : List Printed) : Option Source :=
  printed.foldl (fun current => fun
    | .banner source => some source
    | _ => current) none

/-- Every byte stands in a section of its own source. -/
def Sectioned (printed : List Printed) : Prop :=
  ∀ before source value after,
    printed = before ++ .byte source value :: after → headed before = some source

def bytesOf (who : Source) (printed : List Printed) : List Byte :=
  printed.filterMap fun
    | .byte source value => if source = who then some value else none
    | _ => none

/-! ## The bytes -/

def arrived (replies : List Reply) : List Byte := replies.flatMap fun reply => reply.moved.getD []

/-- `recv` has no timeout. -/
def timedOut : Source → Reply → Bool
  | .device, reply => reply.e == libusbErrorTimeout
  | .host, _ => false

def inTime (who : Source) (replies : List Reply) : List Reply :=
  replies.filter fun reply => !timedOut who reply

def late (who : Source) (replies : List Reply) : List Reply := replies.filter (timedOut who)

/-- `read` says how many bytes came. -/
def Reported : Source → Reply → Prop
  | .device, reply => reply.moved ≠ none
  | .host, _ => True

/-- What a thread has in hand and has not printed. -/
def Thread.pending (who : Source) (thread : Thread) : List Byte :=
  match thread.place with
  | .lock | .banner | .choose =>
    if quiet thread.e thread.read who then [] else thread.buf.slice 0 thread.read.toNat
  | .print bufp => thread.buf.slice bufp thread.read.toNat
  | .accept | .read | .unlock => []

/-- The loop over `bufp` will end. -/
def Thread.Counted (who : Source) (thread : Thread) : Prop :=
  match thread.place with
  | .lock | .banner | .choose => quiet thread.e thread.read who = false → 0 ≤ thread.read
  | .print _ => 0 ≤ thread.read
  | .accept | .read | .unlock => True

/-- The variables agree with the branch that led here. -/
def Thread.Settled (thread : Thread) : Prop :=
  match thread.place with
  | .print _ => thread.timeout ≠ 0
  | .accept | .unlock => thread.timeout = 0
  | .read => thread.timeout ≠ 0 → thread.read = -1
  | .lock | .banner | .choose => True

/-- Printed and pending bytes make up what came in time. -/
def Complete (who : Source) (thread : Thread) (printed : List Printed) (replies : List Reply) :
    Prop :=
  (∀ reply ∈ replies, Reported who reply) →
    thread.Counted who ∧ bytesOf who printed ++ thread.pending who = arrived (inTime who replies)

structure Invariant (s : System) : Prop where
  owner : ∀ who, (s.thread who).Holds ↔ s.mutex = some who
  settled : ∀ who, (s.thread who).Settled
  title : ∀ who, (s.thread who).Titled → headed s.printed = some who
  sections : Sectioned s.printed
  complete : ∀ who, Complete who (s.thread who) s.printed (s.replies who)

section Lists
variable (printed : List Printed)

@[simp] theorem headed_banner (source : Source) :
    headed (printed ++ [.banner source]) = some source := by
  simp [headed]

@[simp] theorem headed_byte (source : Source) (value : Byte) :
    headed (printed ++ [.byte source value]) = headed printed := by
  simp [headed]

@[simp] theorem headed_notice : headed (printed ++ [.couldNotEstablish]) = headed printed := by
  simp [headed]

@[simp] theorem bytesOf_append (who : Source) (more : List Printed) :
    bytesOf who (printed ++ more) = bytesOf who printed ++ bytesOf who more := by
  simp [bytesOf]

theorem arrived_inTime (who : Source) (replies : List Reply) (reply : Reply) :
    arrived (inTime who (replies ++ [reply])) =
      arrived (inTime who replies) ++ if timedOut who reply then [] else reply.moved.getD [] := by
  cases late : timedOut who reply <;> simp [arrived, inTime, late]

theorem length_arrived (who : Source) (replies : List Reply) :
    (arrived (inTime who replies)).length + (arrived (late who replies)).length =
      (arrived replies).length := by
  induction replies with
  | nil => rfl
  | cons reply replies ih =>
    simp only [arrived, inTime, late, List.flatMap_cons, List.length_append] at ih ⊢
    cases timely : timedOut who reply <;>
      simp only [timely, List.filter_cons, Bool.not_true, Bool.not_false, if_true,
        Bool.false_eq_true, if_false, List.flatMap_cons, List.length_append] <;> omega

/-- What is printed is a byte of the section or no byte at all. -/
theorem Sectioned.append (sections : Sectioned printed) (next : Printed)
    (titled : ∀ source value, next = .byte source value → headed printed = some source) :
    Sectioned (printed ++ [next]) := by
  intro before source value after split
  rcases List.eq_nil_or_concat' after with rfl | ⟨after, last, rfl⟩
  · obtain ⟨rfl, same⟩ := List.append_inj' split rfl
    exact titled source value (List.singleton_inj.mp same)
  · rw [← List.cons_append, ← List.append_assoc] at split
    obtain ⟨rfl, -⟩ := List.append_inj' split rfl
    exact sections before source value after rfl

end Lists

/-- What one thread may change without the other seeing it. -/
theorem Invariant.advance (inv : Invariant s) (who : Source) (next : Thread) (mutex : Option Source)
    (printed : List Printed) (replies : List Reply) (owner : next.Holds ↔ mutex = some who)
    (others : ∀ other ≠ who, s.mutex = some other ↔ mutex = some other) (settled : next.Settled)
    (title : next.Titled → headed printed = some who)
    (kept : ∀ other ≠ who, s.mutex = some other → headed printed = headed s.printed)
    (sections : Sectioned printed) (complete : Complete who next printed replies)
    (silent : ∀ other ≠ who, bytesOf other printed = bytesOf other s.printed) :
    Invariant ⟨Function.update s.thread who next, mutex, printed,
      Function.update s.replies who replies⟩ where
  owner other := by
    by_cases same : other = who
    · subst same
      simpa using owner
    · simpa [same] using (inv.owner other).trans (others other same)
  settled other := by
    by_cases same : other = who
    · subst same
      simpa using settled
    · simpa [same] using inv.settled other
  title other titled := by
    by_cases same : other = who
    · subst same
      simp only [Function.update_self] at titled
      exact title titled
    · simp only [Function.update_of_ne same] at titled
      have holds : (s.thread other).Holds := by
        unfold Thread.Titled at titled
        split at titled
        · exact titled.elim
        · exact titled
      rw [kept other same ((inv.owner other).mp holds)]
      exact inv.title other titled
  sections := sections
  complete other := by
    by_cases same : other = who
    · subst same
      simpa using complete
    · simpa [same, Complete, silent other same] using inv.complete other

theorem quiet_length (who : Source) (e : Int) (bytes : List Byte) :
    quiet e bytes.length who = (timedOut who ⟨e, some bytes⟩ || bytes.isEmpty) := by
  cases bytes with
  | nil => cases who <;> simp [quiet, timedOut]
  | cons first more =>
    have counted : (more.length : Int) + 1 ≠ 0 := by omega
    have positive : (0 : Int) ≤ more.length + 1 := by omega
    cases who <;> simp [quiet, timedOut, counted, positive]

/-- After a transfer that said how much it moved, the bytes in hand are those that came in time. -/
theorem receive_counts (who : Source) (thread : Thread) (reported : Reported who reply) :
    (thread.receive who reply).Counted who ∧
      (thread.receive who reply).pending who =
        if timedOut who reply then [] else reply.moved.getD [] := by
  obtain ⟨e, moved⟩ := reply
  -- The two places a transfer can lead to are alike here.
  let next := thread.receive who ⟨e, moved⟩
  have counted : next.Counted who = (quiet e next.read who = false → 0 ≤ next.read) := by
    by_cases blocking : thread.timeout = 0 <;>
      simp [next, Thread.receive, Thread.Counted, blocking]
  have pending : next.pending who =
      if quiet e next.read who then [] else next.buf.slice 0 next.read.toNat := by
    by_cases blocking : thread.timeout = 0 <;>
      simp [next, Thread.receive, Thread.pending, blocking]
  rw [counted, pending]
  cases moved with
  | some bytes =>
    have all : (thread.buf.overlay bytes).slice 0 bytes.length = bytes := Mem.slice_overlay _ rfl
    refine ⟨fun _ => Int.natCast_nonneg _, ?_⟩
    change (if quiet e bytes.length who then [] else (thread.buf.overlay bytes).slice 0
      bytes.length) = _
    rw [quiet_length, all]
    cases timedOut who ⟨e, some bytes⟩ with
    | true => rfl
    | false => cases bytes <;> rfl
  | none =>
    cases who with
    | device => exact absurd rfl reported
    | host => exact ⟨nofun, rfl⟩

/-! One lemma for each place: what the step from there keeps. -/

section Steps
variable {s : System} {who : Source} {timeout : Nat} {e read : Int} {buf : Mem}

/-- A thread that keeps the mutex and what it has in hand, and prints nothing. -/
theorem Invariant.stays (inv : Invariant s) (next : Thread)
    (holds : next.Holds ↔ (s.thread who).Holds) (settled : next.Settled)
    (titled : next.Titled → (s.thread who).Titled)
    (counted : (s.thread who).Counted who → next.Counted who)
    (pending : (s.thread who).Counted who → next.pending who = (s.thread who).pending who) :
    Invariant (s.move who next) := by
  have result := inv.advance who next s.mutex s.printed (s.replies who)
    (holds.trans (inv.owner who)) (fun _ _ => Iff.rfl) settled
    (fun now => inv.title who (titled now)) (fun _ _ _ => rfl) inv.sections
    (fun reported => by
      obtain ⟨before, same⟩ := inv.complete who reported
      exact ⟨counted before, pending before ▸ same⟩)
    fun _ _ => rfl
  rwa [Function.update_eq_self] at result

theorem Invariant.notice (inv : Invariant s) :
    Invariant { s with printed := s.printed ++ [.couldNotEstablish] } where
  owner := inv.owner
  settled := inv.settled
  title other now := (headed_notice _).trans (inv.title other now)
  sections := inv.sections.append _ _ fun _ _ same => by cases same
  complete other reported := by
    rw [bytesOf_append]
    obtain ⟨counted, same⟩ := inv.complete other reported
    exact ⟨counted, (congrArg (· ++ _) (List.append_nil _)).trans same⟩

theorem Invariant.accept (inv : Invariant s)
    (here : s.thread who = ⟨.accept, timeout, e, read, buf⟩) :
    Invariant (s.move who ⟨.read, timeout, e, read, buf⟩) := by
  have blocking : timeout = 0 := by simpa [here, Thread.Settled] using inv.settled who
  refine inv.stays _ ?_ (absurd blocking) (absurd blocking) (fun _ => trivial) fun _ => ?_
  · simp [here, Thread.Holds, blocking]
  · simp [here, Thread.pending]

theorem Invariant.receive (inv : Invariant s) (reply : Reply)
    (here : s.thread who = ⟨.read, timeout, e, read, buf⟩) :
    Invariant (System.move
      { s with replies := Function.update s.replies who (s.replies who ++ [reply]) } who
      (Thread.receive who ⟨.read, timeout, e, read, buf⟩ reply)) := by
  have owner := inv.owner who
  have title := inv.title who
  have complete := inv.complete who
  rw [here] at owner title complete
  refine inv.advance who (Thread.receive who _ reply) s.mutex s.printed
    (s.replies who ++ [reply]) ?_ (fun _ _ => Iff.rfl) ?_ ?_ (fun _ _ _ => rfl) inv.sections ?_
    fun _ _ => rfl
  · refine Iff.trans ?_ owner
    by_cases blocking : timeout = 0 <;> simp [Thread.receive, Thread.Holds, blocking]
  · by_cases blocking : timeout = 0 <;> simp [Thread.receive, Thread.Settled, blocking]
  · intro now
    refine title fun blocking => ?_
    obtain rfl : timeout = 0 := blocking
    exact now
  · intro reported
    obtain ⟨-, same⟩ := complete fun reply old => reported reply (List.mem_append_left _ old)
    obtain ⟨counted, pending⟩ := receive_counts who ⟨.read, timeout, e, read, buf⟩
      (reported reply (List.mem_append_right _ (List.mem_singleton_self _)))
    refine ⟨counted, ?_⟩
    rw [pending, arrived_inTime, ← same]
    simp [Thread.pending]

theorem Invariant.lock (inv : Invariant s) (here : s.thread who = ⟨.lock, timeout, e, read, buf⟩)
    (free : s.mutex = none) :
    Invariant { s.move who ⟨.banner, timeout, e, read, buf⟩ with mutex := some who } := by
  have complete := inv.complete who
  rw [here] at complete
  have result := inv.advance who ⟨.banner, timeout, e, read, buf⟩ (some who) s.printed
    (s.replies who) (by simp [Thread.Holds]) (fun other apart => by simp [free, Ne.symm apart])
    trivial False.elim (fun _ _ _ => rfl) inv.sections complete fun _ _ => rfl
  rwa [Function.update_eq_self] at result

theorem Invariant.banner (inv : Invariant s)
    (here : s.thread who = ⟨.banner, timeout, e, read, buf⟩) :
    Invariant { s.move who ⟨.choose, timeout, e, read, buf⟩ with
      printed := s.printed ++ [.banner who] } := by
  have owner := inv.owner who
  have complete := inv.complete who
  rw [here] at owner complete
  have holds : s.mutex = some who := owner.mp trivial
  have result := inv.advance who ⟨.choose, timeout, e, read, buf⟩ s.mutex
    (s.printed ++ [.banner who]) (s.replies who) owner (fun _ _ => Iff.rfl) trivial
    (fun _ => headed_banner _ _)
    (fun other apart held => absurd (Option.some.inj (held.symm.trans holds)) apart)
    (inv.sections.append _ _ fun _ _ same => by cases same)
    (fun reported => by
      rw [bytesOf_append]
      obtain ⟨counted, same⟩ := complete reported
      exact ⟨counted, (congrArg (· ++ _) (List.append_nil _)).trans same⟩)
    fun other _ => by simp [bytesOf]
  rwa [Function.update_eq_self] at result

theorem Invariant.choose (inv : Invariant s)
    (here : s.thread who = ⟨.choose, timeout, e, read, buf⟩) :
    Invariant (s.move who (Thread.choose who ⟨.choose, timeout, e, read, buf⟩)) := by
  rw [Thread.choose]
  dsimp only
  cases silent : quiet e read who with
  | true =>
    refine inv.stays ⟨.unlock, 0, e, read, buf⟩ ?_ rfl ?_ (fun _ => trivial) ?_ <;>
      simp [here, Thread.Holds, Thread.Titled, Thread.pending, silent]
  | false =>
    refine inv.stays ⟨.print 0, 5, e, read, buf⟩ ?_ (by simp [Thread.Settled]) ?_ ?_ ?_ <;>
      simp [here, Thread.Holds, Thread.Titled, Thread.Counted, Thread.pending, silent]

theorem Invariant.printed (inv : Invariant s)
    (here : s.thread who = ⟨.print bufp, timeout, e, 0, buf⟩) :
    Invariant (s.move who ⟨.read, timeout, e, -1, buf⟩) := by
  have settled := inv.settled who
  rw [here] at settled
  refine inv.stays _ ?_ (fun _ => rfl) (fun _ => by rw [here]; trivial) (fun _ => trivial)
    fun _ => ?_
  · simpa [here, Thread.Holds, Thread.Settled] using settled
  · simp [here, Thread.pending, Mem.slice]

theorem Invariant.print (inv : Invariant s)
    (here : s.thread who = ⟨.print bufp, timeout, e, read, buf⟩) (more : read ≠ 0) :
    Invariant { s.move who ⟨.print (bufp + 1), timeout, e, read - 1, buf⟩ with
      printed := s.printed ++ [.byte who (buf bufp)] } := by
  have owner := inv.owner who
  have settled := inv.settled who
  have title := inv.title who
  have complete := inv.complete who
  rw [here] at owner settled title complete
  have result := inv.advance who ⟨.print (bufp + 1), timeout, e, read - 1, buf⟩ s.mutex
    (s.printed ++ [.byte who (buf bufp)]) (s.replies who) owner (fun _ _ => Iff.rfl) settled
    (fun now => (headed_byte _ _ _).trans (title now)) (fun _ _ _ => headed_byte _ _ _)
    (inv.sections.append _ _ fun _ _ same => by cases same; exact title trivial)
    (fun reported => by
      obtain ⟨counted, same⟩ := complete reported
      have positive : 0 ≤ read := counted
      have first : buf.slice bufp read.toNat =
          buf bufp :: buf.slice (bufp + 1) (read - 1).toNat := by
        rw [show read.toNat = 1 + (read - 1).toNat by omega, Mem.slice_append]
        rfl
      refine ⟨show 0 ≤ read - 1 by omega, ?_⟩
      rw [← same, bytesOf_append, List.append_assoc]
      simp [bytesOf, Thread.pending, first])
    fun other apart => by simp [bytesOf, Ne.symm apart]
  rwa [Function.update_eq_self] at result

theorem Invariant.unlock (inv : Invariant s)
    (here : s.thread who = ⟨.unlock, timeout, e, read, buf⟩) :
    Invariant { s.move who ⟨.read, timeout, e, read, buf⟩ with mutex := none } := by
  have owner := inv.owner who
  have settled := inv.settled who
  have complete := inv.complete who
  rw [here] at owner settled complete
  have holds : s.mutex = some who := owner.mp trivial
  have quietly : timeout = 0 := settled
  have result := inv.advance who ⟨.read, timeout, e, read, buf⟩ none s.printed (s.replies who)
    (by simp [Thread.Holds, quietly]) (fun other apart => by simp [holds, Ne.symm apart])
    (absurd quietly) (absurd quietly) (fun _ _ _ => rfl) inv.sections complete fun _ _ => rfl
  rwa [Function.update_eq_self] at result

end Steps

theorem step_invariant (inv : Invariant s) (stepped : s.step who reply = some after) :
    Invariant after := by
  unfold System.step at stepped
  cases here : s.thread who with | mk place timeout e read buf =>
  rw [here] at stepped
  cases place with
  | accept =>
    obtain rfl := Option.some.inj stepped
    have accepted := inv.accept here
    split
    · exact accepted.notice
    · exact accepted
  | read =>
    obtain rfl := Option.some.inj stepped
    exact inv.receive reply here
  | lock =>
    cases free : s.mutex with
    | some other =>
      rw [free] at stepped
      cases stepped
    | none =>
      rw [free] at stepped
      obtain rfl := Option.some.inj stepped
      exact inv.lock here free
  | banner =>
    obtain rfl := Option.some.inj stepped
    exact inv.banner here
  | choose =>
    obtain rfl := Option.some.inj stepped
    exact inv.choose here
  | print bufp =>
    dsimp only at stepped
    by_cases ended : read = 0
    · subst ended
      rw [if_pos rfl] at stepped
      obtain rfl := Option.some.inj stepped
      exact inv.printed here
    · rw [if_neg ended] at stepped
      obtain rfl := Option.some.inj stepped
      exact inv.print here ended
  | unlock =>
    obtain rfl := Option.some.inj stepped
    exact inv.unlock here

theorem start_invariant (read : Int) (stack : Source → Mem) : Invariant (start read stack) where
  owner who := by cases who <;> simp [start, Thread.Holds]
  settled who := by cases who <;> simp [start, Thread.Settled]
  title who titled := by cases who <;> simp [start, Thread.Titled, Thread.Holds] at titled
  sections before _ _ _ split := by simp [start] at split
  complete who _ := by cases who <;> exact ⟨trivial, rfl⟩

theorem steps_invariant (inv : Invariant s) (ran : s.steps schedule = some after) :
    Invariant after := by
  induction schedule generalizing s with
  | nil =>
    cases ran
    exact inv
  | cons first rest ih =>
    obtain ⟨middle, stepped, ran⟩ := Option.bind_eq_some_iff.mp ran
    exact ih (step_invariant inv stepped) ran

/-- A thread that cannot go on waits for the mutex, which the other one has. -/
theorem step_none {s : System} (blocked : s.step who reply = none) :
    (s.thread who).place = .lock ∧ ∃ holder, s.mutex = some holder := by
  unfold System.step at blocked
  generalize s.thread who = thread at *
  obtain ⟨place, timeout, e, read, buf⟩ := thread
  cases place with
  | lock =>
    cases free : s.mutex with
    | none => simp [free] at blocked
    | some holder => exact ⟨rfl, holder, rfl⟩
  | print bufp =>
    dsimp only at blocked
    split at blocked <;> cases blocked
  | accept | read | banner | choose | unlock => cases blocked

/-! ## A stale `read` -/

/-- The device prints from a negative `read`. -/
structure Runaway (s : System) : Prop where
  mutex : s.mutex = some .device
  negative : (s.thread .device).read < 0
  place : (s.thread .device).place = .choose ∧ (s.thread .device).e ≠ libusbErrorTimeout ∨
    ∃ bufp, (s.thread .device).place = .print bufp

/-- A thread can do little while the other one has the terminal. -/
theorem step_without {s : System} (held : s.mutex = some holder) (free : ¬ (s.thread who).Holds)
    (stepped : s.step who reply = some after) :
    after.mutex = s.mutex ∧ (∀ other ≠ who, after.thread other = s.thread other) ∧
      ∀ source, bytesOf source after.printed = bytesOf source s.printed := by
  have moved : ∀ next, ∀ other ≠ who, Function.update s.thread who next other = s.thread other :=
    fun next other apart => Function.update_of_ne apart _ _
  unfold System.step at stepped
  unfold Thread.Holds at free
  generalize s.thread who = thread at *
  obtain ⟨place, timeout, e, read, buf⟩ := thread
  cases place with
  | accept =>
    obtain rfl := Option.some.inj stepped
    dsimp only
    split
    · exact ⟨rfl, moved _, fun source => (bytesOf_append ..).trans (List.append_nil _)⟩
    · exact ⟨rfl, moved _, fun _ => rfl⟩
  | read =>
    obtain rfl := Option.some.inj stepped
    exact ⟨rfl, moved _, fun _ => rfl⟩
  | lock => simp [held] at stepped
  | banner | choose | print | unlock => exact absurd trivial free

theorem step_runaway (inv : Invariant s) (runaway : Runaway s)
    (stepped : s.step who reply = some after) :
    Runaway after ∧ bytesOf .host after.printed = bytesOf .host s.printed := by
  obtain ⟨mutex, negative, place⟩ := runaway
  cases who with
  | host =>
    have free : ¬ (s.thread .host).Holds := by
      rw [inv.owner, mutex]
      decide
    obtain ⟨kept, others, silent⟩ := step_without mutex free stepped
    have device := others .device (by decide)
    exact ⟨⟨kept.trans mutex, by rwa [device], by rwa [device]⟩, silent .host⟩
  | device =>
    have more : (s.thread .device).read ≠ 0 := by omega
    rcases place with ⟨choosing, timely⟩ | ⟨bufp, printing⟩
    · have loud : quiet (s.thread .device).e (s.thread .device).read .device = false := by
        simp [quiet, timely, more]
      simp only [System.step, choosing, Thread.choose, loud] at stepped
      obtain rfl := Option.some.inj stepped
      exact ⟨⟨mutex, by simpa [System.move] using negative, .inr ⟨0, by simp [System.move]⟩⟩, rfl⟩
    · simp only [System.step, printing, if_neg more] at stepped
      obtain rfl := Option.some.inj stepped
      have less : (s.thread .device).read - 1 < 0 := by omega
      exact ⟨⟨mutex, by simpa [System.move] using less, .inr ⟨bufp + 1, by simp [System.move]⟩⟩,
        by simp [System.move, bytesOf]⟩

theorem steps_runaway (inv : Invariant s) (runaway : Runaway s)
    (ran : s.steps schedule = some after) :
    Runaway after ∧ bytesOf .host after.printed = bytesOf .host s.printed := by
  induction schedule generalizing s with
  | nil =>
    cases ran
    exact ⟨runaway, rfl⟩
  | cons first rest ih =>
    obtain ⟨middle, stepped, ran⟩ := Option.bind_eq_some_iff.mp ran
    obtain ⟨still, same⟩ := step_runaway inv runaway stepped
    obtain ⟨ends, silent⟩ := ih (step_invariant inv stepped) still ran
    exact ⟨ends, silent.trans same⟩

/-- A transfer that fails inside a section leaves `read` where the last loop over `bufp` did. -/
theorem receive_runaway (inv : Invariant s) (reading : (s.thread .device).place = .read)
    (within : (s.thread .device).timeout ≠ 0) (timely : reply.e ≠ libusbErrorTimeout)
    (unsubmitted : reply.moved = none) (stepped : s.step .device reply = some after) :
    Runaway after ∧ after.printed = s.printed := by
  have holds := inv.owner .device
  have settled := inv.settled .device
  simp only [Thread.Holds, Thread.Settled, reading] at holds settled
  simp only [System.step, reading] at stepped
  obtain rfl := Option.some.inj stepped
  refine ⟨⟨holds.mp within, ?_, .inl ⟨?_, ?_⟩⟩, rfl⟩
  · simp [System.move, Thread.receive, unsubmitted, settled within]
  · simp [System.move, Thread.receive, within]
  · simpa [System.move, Thread.receive] using timely

/-! ## Whole runs -/

theorem output_sections {read : Int} (ran : (start read stack).steps schedule = some s) :
    Sectioned s.printed ∧
      (∀ who, (∀ reply ∈ s.replies who, Reported who reply) →
        bytesOf who s.printed <+: arrived (inTime who (s.replies who)) ∧
          ((s.thread who).place = .read →
            bytesOf who s.printed = arrived (inTime who (s.replies who)) ∧
              (bytesOf who s.printed).length + (arrived (late who (s.replies who))).length =
                (arrived (s.replies who)).length)) ∧
      (∀ who, (s.thread who).place = .unlock → s.mutex = some who) ∧
      (∀ who reply, s.step who reply = none → ∃ other, other ≠ who ∧ s.mutex = some other ∧
        ∀ reply, (s.step other reply).isSome) ∧
      ∀ reply : Reply, (s.thread .device).place = .read → (s.thread .device).timeout ≠ 0 →
        reply.e ≠ libusbErrorTimeout → reply.moved = none →
        ∀ rest after, s.steps ((.device, reply) :: rest) = some after →
          after.mutex = some .device ∧ bytesOf .host after.printed = bytesOf .host s.printed := by
  have inv := steps_invariant (start_invariant read stack) ran
  refine ⟨inv.sections, fun who reported => ?_, fun who leaving => ?_, ?_, ?_⟩
  · obtain ⟨-, same⟩ := inv.complete who reported
    refine ⟨⟨_, same⟩, fun reading => ?_⟩
    have all : bytesOf who s.printed = arrived (inTime who (s.replies who)) := by
      simpa [Thread.pending, reading] using same
    exact ⟨all, all ▸ length_arrived who (s.replies who)⟩
  · exact (inv.owner who).mp (by simp [Thread.Holds, leaving])
  · intro who reply blocked
    obtain ⟨place, holder, held⟩ := step_none blocked
    have holds := (inv.owner holder).mpr held
    refine ⟨holder, ?_, held, fun reply => ?_⟩
    · rintro rfl
      simp [Thread.Holds, place] at holds
    · -- The holder is not itself at the mutex.
      refine Option.isSome_iff_ne_none.mpr fun stuck => ?_
      obtain ⟨place, -⟩ := step_none stuck
      simp [Thread.Holds, place] at holds
  · intro reply reading within timely unsubmitted rest after ran
    obtain ⟨middle, stepped, ran⟩ := Option.bind_eq_some_iff.mp ran
    obtain ⟨runaway, same⟩ := receive_runaway inv reading within timely unsubmitted stepped
    obtain ⟨still, silent⟩ := steps_runaway (step_invariant inv stepped) runaway ran
    exact ⟨still.mutex, silent.trans (congrArg _ same)⟩

/-- The host has a byte while the device prints, and has to wait. The device's last byte comes too
late; it is printed when the next transfer fails, and so is what lies behind it. -/
def overlap : List (Source × Reply) :=
  let hi : Reply := ⟨0, some [0x48, 0x69]⟩
  let ok : Reply := ⟨0, some [0x21]⟩
  let closed : Reply := ⟨0, none⟩
  let timeout : Reply := ⟨libusbErrorTimeout, some [0x3F]⟩
  let noDevice : Reply := ⟨-4, none⟩
  [(.host, ok), (.device, hi), (.device, hi), (.device, hi), (.host, ok), (.device, hi),
    (.device, hi), (.device, hi), (.device, hi), (.device, timeout), (.device, timeout),
    (.device, timeout), (.host, ok), (.host, ok), (.host, ok), (.host, ok), (.host, ok),
    (.host, closed), (.host, closed), (.host, closed), (.device, noDevice), (.device, noDevice),
    (.device, noDevice), (.device, noDevice), (.device, noDevice), (.device, noDevice)]

theorem output_sections_overlap : ∃ s after, (start 0 fun _ _ => 0).steps overlap = some s ∧
    s.printed = [.banner .device, .byte .device 0x48, .byte .device 0x69, .banner .host,
      .byte .host 0x21, .banner .device, .byte .device 0x3F] ∧ Sectioned s.printed ∧
    s.steps (List.replicate 4 (.device, ⟨-4, none⟩)) = some after ∧ after.mutex = some .device ∧
    after.printed = s.printed ++ [.byte .device 0x3F, .byte .device 0x69] := by
  have first : ((start 0 fun _ _ => 0).steps overlap).map
      (fun s => (s.printed, (s.thread .device).place, (s.thread .device).timeout)) =
        some ([.banner .device, .byte .device 0x48, .byte .device 0x69, .banner .host,
          .byte .host 0x21, .banner .device, .byte .device 0x3F], .read, 5) := by decide
  have second : ((start 0 fun _ _ => 0).steps overlap).bind (fun s =>
      (s.steps (List.replicate 4 (.device, ⟨-4, none⟩))).map
        fun after => decide (after.printed = s.printed ++ [.byte .device 0x3F,
          .byte .device 0x69])) =
        some true := by decide
  obtain ⟨s, ran, same⟩ := Option.map_eq_some_iff.mp first
  obtain ⟨printed, rest⟩ := Prod.ext_iff.mp same
  obtain ⟨place, timeout⟩ := Prod.ext_iff.mp rest
  rw [ran, Option.bind_some] at second
  obtain ⟨after, more, longer⟩ := Option.map_eq_some_iff.mp second
  obtain ⟨sections, -, -, -, stale⟩ := output_sections ran
  have within : (s.thread .device).timeout ≠ 0 := by
    rw [show (s.thread .device).timeout = 5 from timeout]
    decide
  obtain ⟨held, -⟩ := stale ⟨-4, none⟩ place within (by decide) rfl _ after more
  exact ⟨s, after, ran, printed, sections, more, held, of_decide_eq_true longer⟩

end Flipper.Fdebug
