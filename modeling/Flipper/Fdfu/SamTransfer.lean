import Flipper.Fdfu.Verify
import Flipper.Fmr.Error

/-! `sam_read` and `sam_write` of `utils/fdfu`. Every call below them returns a status, and
every status is asserted as if it were a truth value. -/
namespace Flipper.Fdfu
open Binary Fmr

inductive Status where
  | success | error
  deriving DecidableEq

def Status.code : Status → Int
  | .success => lfSuccess
  | .error => lfError

/-- The truth value of a status in C. -/
def Status.holds (status : Status) : Bool := status.code ≠ 0

@[simp] theorem Status.holds_success : Status.success.holds = false := rfl

@[simp] theorem Status.holds_error : Status.error.holds = true := rfl

inductive SamCall where
  | malloc (size : Nat)
  | uart0Read (len : Nat)
  | pull (len : Nat)
  | push (len : Nat)
  | uart0Write (len : Nat)
  | free
  deriving DecidableEq

structure SamReturn where
  status : Int
  calls : List SamCall

/-- From the label `fail` on, after some calls; the call made after `n` others returns
`statuses n`. The assertion at the label jumps to the label. -/
def samFail (statuses : Nat → Status) : (fuel : Nat) → List SamCall → Option SamReturn
  | 0, _ => none
  | fuel + 1, made =>
    if (statuses made.length).holds then some ⟨lfError, made ++ [.free]⟩
    else samFail statuses fuel (made ++ [.free])

def samBuffer : Nat := 128

structure ChunkCalls where
  first : Nat → SamCall
  second : Nat → SamCall

def samLoop (chunk : ChunkCalls) (statuses : Nat → Status) (fuel length : Nat)
    (made : List SamCall) :
    Option SamReturn :=
  if length = 0 then
    if (statuses made.length).holds then some ⟨lfSuccess, made ++ [.free]⟩
    else samFail statuses fuel (made ++ [.free])
  else
    let len := if samBuffer ≤ length then samBuffer else length
    if ¬(statuses made.length).holds then samFail statuses fuel (made ++ [chunk.first len])
    else if ¬(statuses (made.length + 1)).holds then
      samFail statuses fuel (made ++ [chunk.first len, chunk.second len])
    else samLoop chunk statuses fuel (length - len) (made ++ [chunk.first len, chunk.second len])
termination_by length
decreasing_by
  unfold samBuffer at *
  split <;> omega

/-- Both functions; nothing when the fuel does not last for the jumps. -/
def samTransfer (chunk : ChunkCalls) (statuses : Nat → Status) (length fuel : Nat) :
    Option SamReturn :=
  if (statuses 0).holds then samLoop chunk statuses fuel length [.malloc samBuffer]
  else samFail statuses fuel [.malloc samBuffer]

def samRead : (statuses : Nat → Status) → (length fuel : Nat) → Option SamReturn :=
  samTransfer ⟨.uart0Read, .pull⟩

def samWrite : (statuses : Nat → Status) → (length fuel : Nat) → Option SamReturn :=
  samTransfer ⟨.push, .uart0Write⟩

/-! The contract. -/

/-- The function returns, frees its buffer at most once, and returns `lf_success` just when
all its calls did. -/
def Disciplined (statuses : Nat → Status) (run : (fuel : Nat) → Option SamReturn) : Prop :=
  ∃ fuel returned, run fuel = some returned ∧ returned.calls.count .free ≤ 1 ∧
    (returned.status = lfSuccess ↔ ∀ i < returned.calls.length, statuses i = .success)

/-- From a call on, the first of some calls to succeed exists and is followed by one that
fails. -/
def FailsAfterSuccess (statuses : Nat → Status) (start bound : Nat) : Prop :=
  ∃ k < bound, (∀ i < k, statuses (start + i) = .error) ∧ statuses (start + k) = .success ∧
    statuses (start + k + 1) = .error

/-! Returning at all takes a call that fails, the last one. -/

section Returns
variable {statuses : Nat → Status}

theorem Status.holds_iff (status : Status) : status.holds = true ↔ status = .error := by
  cases status <;> simp

/-- A run from the label frees the buffer once more than before, or oftener. -/
theorem samFail_returns (run : samFail statuses fuel made = some returned) :
    returned.status = lfError ∧ made.count .free + 1 ≤ returned.calls.count .free ∧
      ∃ i < returned.calls.length, statuses i = .error := by
  induction fuel generalizing made with
  | zero => cases run
  | succ fuel ih =>
    rw [samFail] at run
    split at run
    · rename_i holds
      cases run
      refine ⟨rfl, by simp, made.length, by simp, (Status.holds_iff _).mp holds⟩
    · obtain ⟨status, frees, fails⟩ := ih run
      refine ⟨status, ?_, fails⟩
      rw [List.count_append, List.count_singleton_self] at frees
      omega

theorem samLoop_returns {chunk : ChunkCalls}
    (run : samLoop chunk statuses fuel length made = some returned) :
    ∃ i < returned.calls.length, statuses i = .error := by
  fun_induction samLoop chunk statuses fuel length made with
  | case1 made holds =>
    cases run
    exact ⟨made.length, by simp, (Status.holds_iff _).mp holds⟩
  | case2 made _ => exact (samFail_returns run).2.2
  | case3 length made _ len _ => exact (samFail_returns run).2.2
  | case4 length made _ len _ _ => exact (samFail_returns run).2.2
  | case5 length made _ len _ _ ih => exact ih run

theorem samTransfer_returns {chunk : ChunkCalls}
    (run : samTransfer chunk statuses length fuel = some returned) :
    ∃ i < returned.calls.length, statuses i = .error := by
  unfold samTransfer at run
  split at run
  · exact samLoop_returns run
  · exact (samFail_returns run).2.2

/-- So a run is disciplined if it returns `lf_error` and frees the buffer at most once. -/
def Gives (run : (fuel : Nat) → Option SamReturn) : Prop :=
  ∃ fuel returned, run fuel = some returned ∧ returned.calls.count .free ≤ 1 ∧
    returned.status ≠ lfSuccess

theorem disciplined_iff (chunk : ChunkCalls) (length : Nat) :
    Disciplined statuses (samTransfer chunk statuses length) ↔
    Gives (samTransfer chunk statuses length) := by
  constructor
  · rintro ⟨fuel, returned, run, once, honest⟩
    obtain ⟨i, inside, fails⟩ := samTransfer_returns run
    refine ⟨fuel, returned, run, once, fun success => ?_⟩
    rw [honest.mp success i inside] at fails
    cases fails
  · rintro ⟨fuel, returned, run, once, error⟩
    obtain ⟨i, inside, fails⟩ := samTransfer_returns run
    refine ⟨fuel, returned, run, once, iff_of_false error fun all => ?_⟩
    rw [all i inside] at fails
    cases fails

/-! Which runs give up with one release. -/

theorem gives_fail (made : List SamCall) :
    Gives (fun fuel => samFail statuses fuel made) ↔
      made.count .free = 0 ∧ statuses made.length = .error := by
  constructor
  · rintro ⟨fuel, returned, run, once, _⟩
    have frees := (samFail_returns run).2.1
    refine ⟨by omega, ?_⟩
    by_contra succeeds
    -- The second release is one too many.
    cases fuel with
    | zero => cases run
    | succ fuel =>
      change samFail statuses (fuel + 1) made = some returned at run
      rw [samFail, if_neg (by rwa [Status.holds_iff])] at run
      have more := (samFail_returns run).2.1
      rw [List.count_append, List.count_singleton_self] at more
      omega
  · rintro ⟨none, fails⟩
    refine ⟨1, ⟨lfError, made ++ [.free]⟩, ?_, ?_, lfError_ne⟩
    · simp [samFail, fails]
    · simp [none]

theorem failsAfterSuccess_zero (statuses : Nat → Status) (start : Nat) :
    ¬FailsAfterSuccess statuses start 0 := by
  rintro ⟨k, less, _⟩
  cases less

theorem failsAfterSuccess_succ (statuses : Nat → Status) (start bound : Nat) :
    FailsAfterSuccess statuses start (bound + 1) ↔
      (statuses start = .success ∧ statuses (start + 1) = .error) ∨
        (statuses start = .error ∧ FailsAfterSuccess statuses (start + 1) bound) := by
  constructor
  · rintro ⟨k, less, before, succeeds, fails⟩
    cases k with
    | zero => exact .inl ⟨succeeds, fails⟩
    | succ k =>
      refine .inr ⟨before 0 (Nat.succ_pos _), k, by omega, fun i inside => ?_, ?_, ?_⟩
      · rw [Nat.add_right_comm]
        exact before (i + 1) (by omega)
      · rwa [Nat.add_right_comm]
      · rwa [Nat.add_right_comm start 1 k]
  · rintro (⟨succeeds, fails⟩ | ⟨first, k, less, before, succeeds, fails⟩)
    · exact ⟨0, Nat.succ_pos _, fun i none => absurd none (Nat.not_lt_zero _), succeeds, fails⟩
    · refine ⟨k + 1, by omega, fun i inside => ?_, ?_, ?_⟩
      · cases i with
        | zero => exact first
        | succ i =>
          have later := before i (by omega)
          rwa [Nat.add_right_comm] at later
      · rwa [Nat.add_right_comm] at succeeds
      · rwa [Nat.add_right_comm start 1 k] at fails

theorem gives_congr {run run' : Nat → Option SamReturn} (same : ∀ fuel, run fuel = run' fuel) :
    Gives run ↔ Gives run' := by
  rw [funext same]

/-- A loop without an error before the release, or with two releases, does not give up. -/
theorem not_gives_done (chunk : ChunkCalls) (made : List SamCall) :
    ¬Gives (fun fuel => samLoop chunk statuses fuel 0 made) := by
  cases status : statuses made.length with
  | success =>
    have run : ∀ fuel, samLoop chunk statuses fuel 0 made = samFail statuses fuel
        (made ++ [.free]) := by
      intro fuel
      simp [samLoop, status]
    rw [gives_congr run, gives_fail]
    simp
  | error =>
    have run : ∀ fuel, samLoop chunk statuses fuel 0 made = some ⟨lfSuccess, made ++ [.free]⟩ := by
      intro fuel
      simp [samLoop, status]
    rw [gives_congr run]
    rintro ⟨fuel, returned, ran, _, error⟩
    cases ran
    exact error rfl

/-- The chunks of a call, two calls each. -/
theorem gives_loop (chunk : ChunkCalls)
    (plain : ∀ len, chunk.first len ≠ .free ∧ chunk.second len ≠ .free)
    (length : Nat) (made : List SamCall) (none : made.count .free = 0) :
    Gives (fun fuel => samLoop chunk statuses fuel length made) ↔
      FailsAfterSuccess statuses made.length (2 * lfCeiling length samBuffer) := by
  induction length using Nat.strongRecOn generalizing made with
  | ind length ih =>
    by_cases done : length = 0
    · subst done
      exact iff_of_false (not_gives_done chunk made) (failsAfterSuccess_zero _ _)
    · let len := if samBuffer ≤ length then samBuffer else length
      obtain ⟨first, second⟩ := plain len
      have chunks : 2 * lfCeiling length samBuffer = 2 * lfCeiling (length - len) samBuffer +
          1 + 1 := by
        unfold len lfCeiling samBuffer
        split <;> omega
      rw [chunks, failsAfterSuccess_succ, failsAfterSuccess_succ]
      -- Each of the two calls jumps to the label on success; else the loop goes on.
      cases status : statuses made.length with
      | success =>
        have run : ∀ fuel, samLoop chunk statuses fuel length made =
            samFail statuses fuel (made ++ [chunk.first len]) := by
          intro fuel
          rw [samLoop]
          simp [done, status, len]
        rw [gives_congr run, gives_fail]
        simp [none, first]
      | error =>
        cases next : statuses (made.length + 1) with
        | success =>
          have run : ∀ fuel, samLoop chunk statuses fuel length made =
              samFail statuses fuel (made ++ [chunk.first len, chunk.second len]) := by
            intro fuel
            rw [samLoop]
            simp [done, status, next, len]
          rw [gives_congr run, gives_fail]
          simp [none, first, second]
        | error =>
          have run : ∀ fuel, samLoop chunk statuses fuel length made =
              samLoop chunk statuses fuel (length - len)
                (made ++ [chunk.first len, chunk.second len]) := by
            intro fuel
            rw [samLoop]
            simp [done, status, next, len]
          have shorter : length - len < length := by
            unfold len samBuffer
            split <;> omega
          rw [gives_congr run, ih (length - len) shorter _ (by simp [none, first, second])]
          simp

theorem gives_transfer (chunk : ChunkCalls)
    (plain : ∀ len, chunk.first len ≠ .free ∧ chunk.second len ≠ .free) (length : Nat) :
    Gives (samTransfer chunk statuses length) ↔
      FailsAfterSuccess statuses 0 (2 * lfCeiling length samBuffer + 1) := by
  rw [failsAfterSuccess_succ]
  cases status : statuses 0 with
  | success =>
    have run : ∀ fuel, samTransfer chunk statuses length fuel = samFail statuses fuel
        [.malloc samBuffer] := by
      intro fuel
      simp [samTransfer, status]
    rw [gives_congr run, gives_fail]
    simp
  | error =>
    have run : ∀ fuel, samTransfer chunk statuses length fuel =
        samLoop chunk statuses fuel length [.malloc samBuffer] := by
      intro fuel
      simp [samTransfer, status]
    rw [gives_congr run, gives_loop chunk plain length _ (by simp)]
    simp

end Returns

/-- Both functions keep their contract only if the first of the allocation and the
transfers to succeed is followed by a release that fails. -/
theorem sam_disciplined_iff (length : Nat) (statuses : Nat → Status) :
    Disciplined statuses (samRead statuses length) ∧
    Disciplined statuses (samWrite statuses length) ↔
      FailsAfterSuccess statuses 0 (2 * lfCeiling length samBuffer + 1) := by
  rw [samRead, samWrite, disciplined_iff, disciplined_iff, gives_transfer _ (by simp),
    gives_transfer _ (by simp), and_self]

theorem samFail_success (fuel : Nat) (made : List SamCall) :
    samFail (fun _ => .success) fuel made = none := by
  induction fuel generalizing made with
  | zero => rfl
  | succ fuel ih => exact ih _

/-- Where every call succeeds, the buffer is freed again and again. -/
theorem sam_never_returns :
    (∀ fuel, samRead (fun _ => .success) 1 fuel = none) ∧
      (∀ fuel, samWrite (fun _ => .success) 1 fuel = none) ∧
        ¬(Disciplined (fun _ => .success) (samRead (fun _ => .success) 1) ∧
          Disciplined (fun _ => .success) (samWrite (fun _ => .success) 1)) := by
  have runs : ∀ chunk fuel, samTransfer chunk (fun _ => .success) 1 fuel = none := fun _ fuel =>
    samFail_success fuel _
  refine ⟨runs _, runs _, ?_⟩
  rintro ⟨⟨fuel, returned, run, _⟩, _⟩
  rw [samRead, runs] at run
  cases run

end Flipper.Fdfu
