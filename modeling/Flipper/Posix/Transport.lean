import Flipper.Fvm.Clients

/-! The `read` and `write` callbacks of `platforms/posix`: one datagram for a read over
UDP, a loop of bulk transfers over USB. None of them looks at how many bytes were moved.
What the calls below them come to is a list of outcomes, taken one after another; a list
that runs out is a call that does not return. -/
namespace Flipper.Posix
open Binary Fmr Fvm

/-- The destination of a read and, for the record, the bytes that arrived, in order. -/
structure Inbound where
  dst : Mem
  received : List Byte

/-! `lf_network_read`. -/

inductive Errno where
  | eAgain | eWouldBlock | eIntr
  | other (code : Nat)

def Errno.transient : Errno → Bool
  | .eAgain | .eWouldBlock | .eIntr => true
  | .other _ => false

inductive Recvfrom where
  | datagram (bytes : List Byte) (source : Address)
  | failed (errno : Errno)

/-- The retry loop, with `retries` as the code counts them: the bytes that fit and where
they came from, or nothing when it gives up. -/
def recvRetry (length : Nat) (retries : Nat) : List Recvfrom → Option (Option (List Byte × Address))
  | [] => none
  | .datagram bytes source :: _ => some (some (bytes.take length, source))
  | .failed errno :: later =>
    if errno.transient then
      let retries := retries - 1
      if 0 < retries then recvRetry length retries later else some none
    else some none

structure NetworkRead where
  reply : WriteReply
  buffer : Inbound
  ctx : Option Address

/-- Without a context when the device or its `_ep_ctx` is NULL. -/
def lfNetworkRead (ctx : Option Address) (dst : Mem) (length : Nat) (outcomes : List Recvfrom) :
    Option NetworkRead :=
  match ctx with
  | none => some ⟨⟨lfError, some LfErr.eNull.code⟩, ⟨dst, []⟩, none⟩
  | some addr => (recvRetry length 5 outcomes).map fun
    | none => ⟨⟨lfError, none⟩, ⟨dst, []⟩, some addr⟩
    | some (bytes, source) => ⟨⟨lfSuccess, none⟩, ⟨dst.overlay bytes, bytes⟩, some source⟩

/-! `lf_libusb_read` and `lf_libusb_write`. -/

/-- What one `libusb_bulk_transfer` comes to: the int returned, `*actual`, and what the
device sent if it was asked to. -/
structure Transfer where
  status : Int
  actual : Nat
  bytes : Mem

/-- The loop of both functions for an endpoint of this size: `move` is a transfer of some
bytes at some distance from the start of the buffer. -/
def bulkLoop (size : Nat) (move : σ → Nat → Nat → Transfer → σ) :
    List Transfer → σ → (offset length : Nat) → Option (Int × σ)
  | [], s, _, length => if length = 0 then some (lfSuccess, s) else none
  | transfer :: later, s, offset, length =>
    if length = 0 then some (lfSuccess, s)
    else
      let len := if size < length then size else length
      let s := move s offset (min transfer.actual len) transfer
      if transfer.status ≠ 0 then some (lfError, s)
      else bulkLoop size move later s (offset + len) (length - len)

/-- The call around the loop: without a context when the device or its `_ep_ctx` is NULL,
else with the size of the endpoint. -/
def bulk (ctx : Option Byte) (move : σ → Nat → Nat → Transfer → σ) (transfers : List Transfer)
    (s : σ) (length : Nat) : Option (WriteReply × σ) :=
  match ctx with
  | none => some (⟨lfError, some LfErr.eNull.code⟩, s)
  | some size => (bulkLoop size.toNat move transfers s 0 length).map fun (status, s) =>
    (⟨status, if status = lfSuccess then none else some LfErr.eLibusb.code⟩, s)

def receiveBulk (buffer : Inbound) (offset count : Nat) (transfer : Transfer) : Inbound :=
  ⟨buffer.dst.copy offset count transfer.bytes, buffer.received ++ Mem.slice transfer.bytes 0 count⟩

def lfLibusbRead (inSz : Option Byte) (dst : Mem) (length : Nat) (transfers : List Transfer) :
    Option (WriteReply × Inbound) :=
  bulk inSz receiveBulk transfers ⟨dst, []⟩ length

def sendBulk (src : Mem) (out : List Byte) (offset count : Nat) (_ : Transfer) : List Byte :=
  out ++ Mem.slice src offset count

/-- With the bytes that went out, in order. -/
def lfLibusbWrite (outSz : Option Byte) (src : Mem) (length : Nat) (transfers : List Transfer) :
    Option (WriteReply × List Byte) :=
  bulk outSz (sendBulk src) transfers [] length

/-! The contract of a callback: success means that the whole buffer went over. -/

def NetworkReadFills (length : Nat) (outcomes : List Recvfrom) : Prop :=
  ∀ ctx dst returned, lfNetworkRead ctx dst length outcomes = some returned →
    returned.reply.status = lfSuccess →
      Mem.slice returned.buffer.dst 0 length = returned.buffer.received

def LibusbReadFills (inSz : Option Byte) (length : Nat) (transfers : List Transfer) : Prop :=
  ∀ dst returned, lfLibusbRead inSz dst length transfers = some returned →
    returned.1.status = lfSuccess → Mem.slice returned.2.dst 0 length = returned.2.received

def LibusbWriteSends (outSz : Option Byte) (length : Nat) (transfers : List Transfer) : Prop :=
  ∀ src returned, lfLibusbWrite outSz src length transfers = some returned →
    returned.1.status = lfSuccess → returned.2 = Mem.slice src 0 length

/-- The datagram that ends the retries, if one does, has all the bytes asked for. -/
def WholeDatagram (length : Nat) (outcomes : List Recvfrom) : Prop :=
  ∀ (errors : List Errno) bytes source later,
    outcomes = errors.map .failed ++ .datagram bytes source :: later → errors.length < 5 →
      (∀ errno ∈ errors, errno.transient) → length ≤ bytes.length

/-- Every transfer the loop asks for returns zero. -/
def Succeed (size length : Nat) (transfers : List Transfer) : Prop :=
  ∀ i, i * size < length → ∃ transfer, transfers[i]? = some transfer ∧ transfer.status = 0

/-- Every transfer the loop asks for moves what it was asked to. -/
def Whole (size length : Nat) (transfers : List Transfer) : Prop :=
  ∀ i transfer, i * size < length → transfers[i]? = some transfer →
    min size (length - i * size) ≤ transfer.actual

/-- One of the transfers fails, or none of them is short. -/
def WholeTransfers (ctx : Option Byte) (length : Nat) (transfers : List Transfer) : Prop :=
  ∀ size, ctx = some size → Succeed size.toNat length transfers → Whole size.toNat length transfers

/-! Receiving a datagram. -/

theorem recvRetry_datagram (retries length : Nat) (positive : 0 < retries)
    (outcomes : List Recvfrom) (got : List Byte) (source : Address) :
    recvRetry length retries outcomes = some (some (got, source)) ↔
      ∃ (errors : List Errno) (bytes : List Byte) (later : List Recvfrom),
        outcomes = errors.map .failed ++ .datagram bytes source :: later ∧
          errors.length < retries ∧ (∀ errno ∈ errors, errno.transient) ∧
          got = bytes.take length := by
  induction outcomes generalizing retries with
  | nil => simp [recvRetry]
  | cons outcome outcomes ih =>
    cases outcome with
    | datagram bytes source' =>
      constructor
      · intro taken
        cases taken
        exact ⟨[], bytes, outcomes, rfl, positive, by simp, rfl⟩
      · rintro ⟨errors, bytes', later, split, _, _, rfl⟩
        cases errors with
        | nil =>
          cases split
          rfl
        | cons errno errors => cases split
    | failed errno =>
      constructor
      · intro taken
        rw [recvRetry] at taken
        split at taken
        · rename_i transient
          dsimp only at taken
          split at taken
          · rename_i left
            obtain ⟨errors, bytes, later, rfl, few, all, rfl⟩ := (ih _ left).mp taken
            refine ⟨errno :: errors, bytes, later, rfl, ?_, ?_, rfl⟩
            · rw [List.length_cons]
              omega
            · simpa [transient] using all
          · cases taken
        · cases taken
      · rintro ⟨errors, bytes, later, split, few, all, rfl⟩
        cases errors with
        | nil => cases split
        | cons first errors =>
          cases split
          rw [List.length_cons] at few
          have left : 0 < retries - 1 := by omega
          have transient : errno.transient = true := all errno List.mem_cons_self
          rw [recvRetry, if_pos transient]
          dsimp only
          rw [if_pos left]
          exact (ih _ left).mpr ⟨errors, bytes, later, rfl, by omega,
            fun errno member => all errno (List.mem_cons_of_mem _ member), rfl⟩

theorem networkRead_success (ctx : Option Address) (dst : Mem) (length : Nat)
    (outcomes : List Recvfrom) (returned : NetworkRead) :
    lfNetworkRead ctx dst length outcomes = some returned ∧ returned.reply.status = lfSuccess ↔
      ∃ addr bytes source, ctx = some addr ∧
        recvRetry length 5 outcomes = some (some (bytes, source)) ∧
          returned = ⟨⟨lfSuccess, none⟩, ⟨dst.overlay bytes, bytes⟩, some source⟩ := by
  constructor
  · rintro ⟨run, success⟩
    cases ctx with
    | none =>
      cases run
      exact absurd success lfError_ne
    | some addr =>
      simp only [lfNetworkRead, Option.map_eq_some_iff] at run
      obtain ⟨outcome, received, rfl⟩ := run
      cases outcome with
      | none => exact absurd success lfError_ne
      | some pair => exact ⟨addr, pair.1, pair.2, rfl, received, rfl⟩
  · rintro ⟨addr, bytes, source, rfl, received, rfl⟩
    exact ⟨by simp [lfNetworkRead, received], rfl⟩

theorem networkReadFills_iff (length : Nat) (outcomes : List Recvfrom) :
    NetworkReadFills length outcomes ↔ WholeDatagram length outcomes := by
  constructor
  · intro fills errors bytes source later split few transient
    have received := (recvRetry_datagram 5 length (by decide) outcomes
      (bytes.take length) source).mpr
      ⟨errors, bytes, later, split, few, transient, rfl⟩
    obtain ⟨run, success⟩ := (networkRead_success (some source) (fun _ => 0) length outcomes _).mpr
      ⟨source, _, _, rfl, received, rfl⟩
    have lengths := congrArg List.length (fills _ _ _ run success)
    simp only [Mem.slice_length, List.length_take] at lengths
    omega
  · intro whole ctx dst returned run success
    obtain ⟨addr, got, source, _, received, rfl⟩ :=
      (networkRead_success ctx dst length outcomes returned).mp ⟨run, success⟩
    obtain ⟨errors, bytes, later, split, few, transient, rfl⟩ :=
      (recvRetry_datagram 5 length (by decide) outcomes got source).mp received
    have long := whole errors bytes source later split few transient
    exact Mem.slice_overlay dst (by simp [long])

/-! Bulk transfers. -/

theorem succeed_cons (size : Nat) (transfer : Transfer) (later : List Transfer)
    (more : 0 < length) :
    Succeed size length (transfer :: later) ↔
      transfer.status = 0 ∧ Succeed size (length - size) later := by
  constructor
  · intro succeed
    constructor
    · simpa using succeed 0 (by simpa using more)
    · intro i asked
      simpa using succeed (i + 1) (by rw [Nat.succ_mul]; omega)
  · rintro ⟨zero, rest⟩ i asked
    cases i with
    | zero => exact ⟨transfer, rfl, zero⟩
    | succ i =>
      rw [Nat.succ_mul] at asked
      simpa using rest i (by omega)

theorem whole_cons (size : Nat) (transfer : Transfer) (later : List Transfer) (more : 0 < length) :
    Whole size length (transfer :: later) ↔
      min size length ≤ transfer.actual ∧ Whole size (length - size) later := by
  constructor
  · intro whole
    constructor
    · simpa using whole 0 transfer (by simpa using more) rfl
    · intro i next asked found
      have full := whole (i + 1) next (by rw [Nat.succ_mul]; omega) (by simpa using found)
      rw [Nat.succ_mul] at full
      omega
  · rintro ⟨first, rest⟩ i next asked found
    cases i with
    | zero =>
      cases found
      simpa using first
    | succ i =>
      rw [Nat.succ_mul] at asked ⊢
      have full := rest i next (by omega) (by simpa using found)
      omega

section Bulk
variable (size : Nat) (move : σ → Nat → Nat → Transfer → σ)

theorem bulkLoop_cons (transfer : Transfer) (later : List Transfer) (s : σ) (offset : Nat)
    (more : 0 < length) :
    bulkLoop size move (transfer :: later) s offset length =
      let len := min size length
      let s := move s offset (min transfer.actual len) transfer
      if transfer.status ≠ 0 then some (lfError, s)
      else bulkLoop size move later s (offset + len) (length - size) := by
  have len : (if size < length then size else length) = min size length := by
    split <;> omega
  have left : length - min size length = length - size := by omega
  simp only [bulkLoop, if_neg (Nat.ne_of_gt more), len, left]

/-- A loop that succeeds is done, or has made a transfer that returned zero and goes on. -/
theorem bulkLoop_induction (motive : List Transfer → σ → Nat → Nat → Prop)
    (done : ∀ transfers offset, motive transfers s' offset 0)
    (step : ∀ transfer later s offset length, 0 < length → transfer.status = 0 →
      motive later (move s offset (min transfer.actual (min size length)) transfer)
        (offset + min size length) (length - size) → motive (transfer :: later) s offset length)
    (run : bulkLoop size move transfers s offset length = some (lfSuccess, s')) :
    motive transfers s offset length := by
  induction transfers generalizing s offset length with
  | nil =>
    cases length with
    | zero =>
      cases run
      exact done _ _
    | succ length => cases run
  | cons transfer later ih =>
    cases length with
    | zero =>
      cases run
      exact done _ _
    | succ length =>
      simp only [bulkLoop_cons size move _ _ _ _ (Nat.succ_pos _)] at run
      split at run
      · cases run
      · rename_i zero
        exact step _ _ _ _ _ (Nat.succ_pos _) (not_not.mp zero) (ih run)

theorem bulkLoop_completes (s : σ) (offset : Nat) (succeed : Succeed size length transfers) :
    ∃ s', bulkLoop size move transfers s offset length = some (lfSuccess, s') := by
  induction transfers generalizing s offset length with
  | nil =>
    cases length with
    | zero => exact ⟨s, rfl⟩
    | succ length =>
      obtain ⟨transfer, found, _⟩ := succeed 0 (by omega)
      cases found
  | cons transfer later ih =>
    cases length with
    | zero => exact ⟨s, rfl⟩
    | succ length =>
      obtain ⟨zero, rest⟩ := (succeed_cons _ _ _ (Nat.succ_pos _)).mp succeed
      simp only [bulkLoop_cons size move _ _ _ _ (Nat.succ_pos _), zero, ne_eq, not_true_eq_false,
        if_false]
      exact ih _ _ rest

theorem bulkLoop_success (transfers : List Transfer) (s : σ) (offset length : Nat) :
    (∃ s', bulkLoop size move transfers s offset length = some (lfSuccess, s')) ↔
      Succeed size length transfers := by
  constructor
  · rintro ⟨s', run⟩
    refine bulkLoop_induction size move (fun transfers _ _ length => Succeed size length transfers)
      ?_ ?_ run
    · intro transfers offset i asked
      exact absurd asked (Nat.not_lt_zero _)
    · intro transfer later s offset length more zero rest
      exact (succeed_cons _ _ _ more).mpr ⟨zero, rest⟩
  · exact bulkLoop_completes size move s offset

/-- A successful loop moves at most the length, and all of it just when no transfer is
short. -/
theorem bulkLoop_count (count : σ → Nat)
    (counted : ∀ s offset n transfer, count (move s offset n transfer) = count s + n)
    (run : bulkLoop size move transfers s offset length = some (lfSuccess, s')) :
    count s' ≤ count s + length ∧ (count s' = count s + length ↔ Whole size length transfers) := by
  refine bulkLoop_induction size move (fun transfers s _ length =>
    count s' ≤ count s + length ∧ (count s' = count s + length ↔ Whole size length transfers))
      ?_ ?_ run
  · intro transfers offset
    simp [Whole]
  · intro transfer later s offset length more _ ih
    rw [counted] at ih
    rw [whole_cons _ _ _ more, ← ih.2]
    omega

/-- What a transfer of any size keeps holds after a loop in which none was short. -/
theorem bulkLoop_invariant (holds : σ → Nat → Prop)
    (step : ∀ s offset n transfer, holds s offset → holds (move s offset n transfer) (offset + n))
    (start : holds s offset) (whole : Whole size length transfers)
    (run : bulkLoop size move transfers s offset length = some (lfSuccess, s')) :
    holds s' (offset + length) := by
  refine bulkLoop_induction size move (fun transfers s offset length =>
    holds s offset → Whole size length transfers → holds s' (offset + length)) ?_ ?_ run start whole
  · intro transfers offset start _
    exact start
  · intro transfer later s offset length more _ ih start whole
    obtain ⟨first, rest⟩ := (whole_cons _ _ _ more).mp whole
    rw [Nat.min_eq_right first] at ih
    have moved := ih (step _ _ _ _ start) rest
    rwa [show offset + min size length + (length - size) = offset + length by omega] at moved

end Bulk

theorem bulk_success (ctx : Option Byte) (move : σ → Nat → Nat → Transfer → σ)
    (transfers : List Transfer) (s : σ) (length : Nat) (returned : WriteReply × σ) :
    bulk ctx move transfers s length = some returned ∧ returned.1.status = lfSuccess ↔
      ∃ size, ctx = some size ∧ returned.1 = ⟨lfSuccess, none⟩ ∧
        bulkLoop size.toNat move transfers s 0 length = some (lfSuccess, returned.2) := by
  obtain ⟨reply, s'⟩ := returned
  constructor
  · rintro ⟨run, success⟩
    cases ctx with
    | none =>
      cases run
      exact absurd success lfError_ne
    | some size =>
      simp only [bulk, Option.map_eq_some_iff, Prod.exists, Prod.mk.injEq] at run
      obtain ⟨status, moved, run, rfl, rfl⟩ := run
      dsimp only at success
      subst success
      exact ⟨size, rfl, rfl, run⟩
  · rintro ⟨size, rfl, success, run⟩
    dsimp only at success run
    subst success
    exact ⟨by simp [bulk, run], rfl⟩

/-- A state that only a whole transfer brings to `complete` reaches it in every successful
call just when no transfer is short. -/
theorem bulk_complete_iff (ctx : Option Byte) (move : σ → Nat → Nat → Transfer → σ)
    (transfers : List Transfer) (s : σ) (length : Nat) (complete : σ → Nat → Prop) (count : σ → Nat)
    (counted : ∀ s offset n transfer, count (move s offset n transfer) = count s + n)
    (step : ∀ s offset n transfer, complete s offset →
      complete (move s offset n transfer) (offset + n))
    (sized : ∀ s length, complete s length → count s = length) (start : complete s 0) :
    (∀ returned, bulk ctx move transfers s length = some returned → returned.1.status = lfSuccess →
      complete returned.2 length) ↔ WholeTransfers ctx length transfers := by
  have empty : count s = 0 := sized s 0 start
  constructor
  · rintro fills size rfl succeed
    obtain ⟨s', run⟩ := (bulkLoop_success size.toNat move transfers s 0 length).mpr succeed
    obtain ⟨returns, success⟩ := (bulk_success (some size) move transfers s length
      (⟨lfSuccess, none⟩, s')).mpr ⟨size, rfl, rfl, run⟩
    have counts := (bulkLoop_count size.toNat move count counted run).2
    rw [empty, Nat.zero_add] at counts
    exact counts.mp (sized _ _ (fills _ returns success))
  · intro whole returned run success
    obtain ⟨size, rfl, _, run⟩ :=
      (bulk_success ctx move transfers s length returned).mp ⟨run, success⟩
    have succeed := (bulkLoop_success size.toNat move transfers s 0 length).mp ⟨_, run⟩
    have moved := bulkLoop_invariant size.toNat move complete step start
      (whole size rfl succeed) run
    rwa [Nat.zero_add] at moved

theorem libusbReadFills_iff (inSz : Option Byte) (length : Nat) (transfers : List Transfer) :
    LibusbReadFills inSz length transfers ↔ WholeTransfers inSz length transfers := by
  have fills (dst : Mem) := bulk_complete_iff inSz receiveBulk transfers ⟨dst, []⟩ length
    (fun buffer length => Mem.slice buffer.dst 0 length = buffer.received)
    (fun buffer => buffer.received.length)
    (fun buffer offset n transfer => by simp [receiveBulk])
    (fun buffer offset n transfer same => by rw [receiveBulk, Mem.slice_copy, same])
    (fun buffer length same => by rw [← same, Mem.slice_length])
    rfl
  constructor
  · intro all
    exact (fills fun _ => 0).mp (all _)
  · intro whole dst
    exact (fills dst).mpr whole

theorem libusbWriteSends_iff (outSz : Option Byte) (length : Nat) (transfers : List Transfer) :
    LibusbWriteSends outSz length transfers ↔ WholeTransfers outSz length transfers := by
  have sends (src : Mem) := bulk_complete_iff outSz (sendBulk src) transfers [] length
    (fun out length => out = Mem.slice src 0 length) List.length
    (fun out offset n transfer => by simp [sendBulk])
    (fun out offset n transfer same => by rw [sendBulk, Mem.slice_append, same, Nat.zero_add])
    (fun out length same => by rw [same, Mem.slice_length])
    rfl
  constructor
  · intro all
    exact (sends fun _ => 0).mp (all _)
  · intro whole src
    exact (sends src).mpr whole

/-- Success stands for a whole buffer just when the datagram, or every transfer of a loop
that does not fail, has the size asked for. -/
theorem transport_fills_iff (length : Nat) (ctx : Option Byte) (outcomes : List Recvfrom)
    (transfers : List Transfer) :
    (NetworkReadFills length outcomes ↔ WholeDatagram length outcomes) ∧
      (LibusbReadFills ctx length transfers ↔ WholeTransfers ctx length transfers) ∧
      (LibusbWriteSends ctx length transfers ↔ WholeTransfers ctx length transfers) :=
  ⟨networkReadFills_iff length outcomes, libusbReadFills_iff ctx length transfers,
    libusbWriteSends_iff ctx length transfers⟩

/-- One byte of a nine-byte result, and transfers of nothing, are reported as success. -/
theorem short_transport_succeeds :
    ((lfNetworkRead (some ⟨1, 1⟩) (fun _ => 0xAA) 9 [.datagram [1] ⟨1, 1⟩]).map fun returned =>
        (returned.reply.status, Mem.slice returned.buffer.dst 0 2, returned.buffer.received)) =
      some (lfSuccess, [1, 0xAA], [1]) ∧
    ((lfLibusbRead (some 64) (fun _ => 0xAA) 9 [⟨0, 0, fun _ => 1⟩]).map fun returned =>
        (returned.1.status, Mem.slice returned.2.dst 0 1, returned.2.received)) =
      some (lfSuccess, [0xAA], []) ∧
    ((lfLibusbWrite (some 64) (fun _ => 1) 9 [⟨0, 0, fun _ => 1⟩]).map fun returned =>
        (returned.1.status, returned.2)) = some (lfSuccess, []) ∧
    ¬ NetworkReadFills 9 [.datagram [1] ⟨1, 1⟩] ∧
      ¬ LibusbReadFills (some 64) 9 [⟨0, 0, fun _ => 1⟩] ∧
      ¬ LibusbWriteSends (some 64) 9 [⟨0, 0, fun _ => 1⟩] := by
  refine ⟨by decide +kernel, by decide +kernel, by decide +kernel, ?_, ?_, ?_⟩
  · intro fills
    have lengths := congrArg List.length (fills (some ⟨1, 1⟩) (fun _ => 0xAA) _ rfl rfl)
    exact absurd lengths (by decide)
  · intro fills
    have lengths := congrArg List.length (fills (fun _ => 0xAA) _ rfl rfl)
    exact absurd lengths (by decide)
  · intro sends
    have lengths := congrArg List.length (sends (fun _ => 1) _ rfl rfl)
    exact absurd lengths (by decide)

/-- The endpoint sizes are never read from the device and stay zero: no transfer of a
positive length ends. -/
theorem bulk_unsized (move : σ → Nat → Nat → Transfer → σ) (transfers : List Transfer) (s s' : σ)
    (more : 0 < length) : bulk (some 0) move transfers s length ≠ some (⟨lfSuccess, none⟩, s') := by
  intro returns
  obtain ⟨size, same, _, run⟩ := (bulk_success _ _ _ _ _ _).mp ⟨returns, rfl⟩
  cases same
  obtain ⟨transfer, found, _⟩ :=
    (bulkLoop_success _ _ _ _ _ _).mp ⟨_, run⟩ transfers.length (by simpa using more)
  simp at found

end Flipper.Posix
