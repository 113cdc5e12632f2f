import Flipper.Os.Scheduler

/-! Releasing a task. The loop of `os_task_release` that should find the predecessor of the
task never leaves the head, so only the task right after the head is ever unlinked. -/
namespace Flipper.Os
open Linked Fmr

/-- A release of the task that succeeds takes it out of the ring and out of both task
pointers, and does nothing else to them. -/
def ReleaseKeepsRing (s : OsState) (tasks : List Ptr) (task : Ptr) : Prop :=
  ∀ fuel released, osTaskRelease fuel s task = some released → released.status = lfSuccess →
    Scheduled released.os (tasks.erase task) ∧
      released.os.schedule.count.toNat + 1 = s.schedule.count.toNat ∧
      released.os.osCurrentTask ≠ task ∧ released.os.osNextTask ≠ task

/-- The state in which the search for the next task starts: the links of the head are the
only ones looked at. -/
def unlinked (s : OsState) (task : Ptr) : OsState :=
  if s.next s.schedule.head = task then s.setNext s.schedule.head (s.next task) else s

theorem unlinkFrom_eq (s : OsState) (looped : remaining ≠ 0) :
    unlinkFrom s s.schedule.head task remaining = unlinked s task := by
  induction remaining with
  | zero => exact absurd rfl looped
  | succ remaining ih =>
    rw [unlinkFrom, unlinked]
    split
    case isTrue => rfl
    case isFalse other =>
      cases remaining with
      | zero => rfl
      | succ remaining => rw [ih (Nat.succ_ne_zero _), unlinked, if_neg other]

section Release
variable {s : OsState} {tasks : List Ptr} {task : Ptr}

theorem Scheduled.count_ne_zero (scheduled : Scheduled s tasks) : s.schedule.count.toNat ≠ 0 := by
  rw [scheduled.counted]
  exact fun empty => scheduled.ring.nonempty (List.length_eq_zero_iff.mp empty)

theorem osTaskRelease_member (scheduled : Scheduled s tasks) (member : task ∈ tasks)
    (other : task ≠ s.schedule.head) (fuel : Nat) :
    osTaskRelease fuel s task = (moveOn fuel (unlinked s task) task).map fun after =>
      ⟨lfSuccess, uncount after, releaseEvents task (s.tasks task)⟩ := by
  have allocated : task ≠ 0 := fun null => scheduled.allocated (null ▸ member)
  rw [osTaskRelease, if_neg (by simp [allocated, other]), unlinkFrom_eq s scheduled.count_ne_zero]

/-- The task right after the head is unlinked. -/
theorem unlinked_ring (scheduled : Scheduled s tasks) (other : task ≠ s.schedule.head)
    (follows : s.next s.schedule.head = task) :
    Ring (unlinked s task).next s.schedule.head (tasks.erase task) ∧
      s.next task ∈ tasks.erase task := by
  obtain ⟨rest, rfl⟩ := scheduled.ring.head_cons
  have path := scheduled.ring.path
  cases rest with
  | nil => exact absurd (follows.symm.trans path.2) other
  | cons second rest =>
    obtain rfl : task = second := follows.symm.trans path.2.1
    rw [List.erase_cons_tail (by simpa using other.symm), List.erase_cons_head]
    have distinct := scheduled.ring.distinct
    constructor
    · apply scheduled.ring.unlink
      · intro node member
        have moved : node ≠ s.schedule.head := by
          rintro rfl
          simp [member] at distinct
        simp [unlinked, follows, moved]
      · simp [unlinked, follows]
    · rcases path.2.2.first_mem with inside | again
      · exact List.mem_cons_of_mem _ inside
      · rw [again]
        exact List.mem_cons_self

/-- A task that is still linked is still in the ring. -/
theorem linked_not_erased (scheduled : Scheduled s tasks) (member : task ∈ tasks) {after : OsState}
    (same : after.next = s.next) (head : after.schedule.head = s.schedule.head) :
    ¬ Scheduled after (tasks.erase task) := by
  intro erased
  have ring := erased.ring
  rw [same, head] at ring
  exact scheduled.ring.distinct.not_mem_erase (scheduled.ring.subset ring member)

theorem moveOn_running (running : s.osCurrentTask = task) (fuel : Nat) :
    moveOn fuel s task = (seek s.next s.runnable fuel (s.next task)).map
      (select { s with osCurrentTask := 0, osNextTask := s.next task }) := by
  rw [moveOn, if_pos running.symm]
  rfl

theorem moveOn_other (other : s.osCurrentTask ≠ task) (fuel : Nat) : moveOn fuel s task = some s :=
  if_neg other.symm

/-- Moving on changes no link and no count. -/
theorem moveOn_frame {after : OsState} (returned : moveOn fuel s task = some after) :
    after.next = s.next ∧ after.schedule = s.schedule := by
  by_cases running : s.osCurrentTask = task
  · rw [moveOn_running running] at returned
    obtain ⟨found, _, rfl⟩ := Option.map_eq_some_iff.mp returned
    exact ⟨next_select _, rfl⟩
  · rw [moveOn_other running] at returned
    obtain rfl := Option.some.inj returned
    exact ⟨rfl, rfl⟩

/-- The pointers leave a task that the search cannot come back to. -/
theorem moveOn_leaves {after : OsState} (returned : moveOn fuel s task = some after)
    (allocated : task ≠ 0) (ring : Ring s.next head nodes) (start : s.next task ∈ nodes)
    (outside : task ∉ nodes) (clear : s.osCurrentTask = task ∨ s.osNextTask ≠ task) :
    after.osCurrentTask ≠ task ∧ after.osNextTask ≠ task := by
  by_cases running : s.osCurrentTask = task
  · rw [moveOn_running running] at returned
    obtain ⟨found, sought, rfl⟩ := Option.map_eq_some_iff.mp returned
    have inside := (seek_invariant (· ∈ nodes) start (fun _ inside _ => ring.next_mem inside)
      sought).1
    exact ⟨allocated.symm, fun same => outside (same ▸ inside)⟩
  · rw [moveOn_other running] at returned
    obtain rfl := Option.some.inj returned
    exact ⟨running, clear.resolve_left running⟩

theorem unlinked_frame (s : OsState) (task : Ptr) :
    (unlinked s task).schedule = s.schedule ∧ (unlinked s task).osCurrentTask = s.osCurrentTask ∧
      (unlinked s task).osNextTask = s.osNextTask := by
  unfold unlinked
  split <;> exact ⟨rfl, rfl, rfl⟩

theorem Scheduled.uncount {after : OsState} (scheduled : Scheduled s tasks) (member : task ∈ tasks)
    (ring : Ring after.next s.schedule.head (tasks.erase task))
    (same : after.schedule = s.schedule) :
    Scheduled (uncount after) (tasks.erase task) ∧
      (Os.uncount after).schedule.count.toNat + 1 = s.schedule.count.toNat := by
  have counted : (Os.uncount after).schedule.count.toNat + 1 = s.schedule.count.toNat := by
    have positive := scheduled.count_ne_zero
    have below := s.schedule.count.isLt
    rw [Os.uncount, same, BitVec.toNat_sub]
    change (2 ^ 8 - 1 + s.schedule.count.toNat) % 2 ^ 8 + 1 = _
    omega
  refine ⟨⟨?_, ?_, fun null => scheduled.allocated (List.mem_of_mem_erase null)⟩, counted⟩
  · rw [← same] at ring
    exact ring
  · have shorter := List.length_erase_add_one member
    rw [scheduled.counted] at counted
    omega

/-- Releasing the task after the head. -/
theorem release_follows (scheduled : Scheduled s tasks) (member : task ∈ tasks)
    (other : task ≠ s.schedule.head) (follows : s.next s.schedule.head = task) :
    ReleaseKeepsRing s tasks task ↔ s.osCurrentTask = task ∨ s.osNextTask ≠ task := by
  have allocated : task ≠ 0 := fun null => scheduled.allocated (null ▸ member)
  obtain ⟨ring, inside⟩ := unlinked_ring scheduled other follows
  obtain ⟨schedule, current, chosen⟩ := unlinked_frame s task
  constructor
  · intro keeps
    by_contra! pending
    obtain ⟨elsewhere, selected⟩ := pending
    have returned := osTaskRelease_member scheduled member other 0
    rw [moveOn_other (current.symm ▸ elsewhere)] at returned
    exact (keeps 0 _ returned rfl).2.2.2 (chosen.trans selected)
  · intro clear fuel released returned _
    rw [osTaskRelease_member scheduled member other] at returned
    obtain ⟨after, moved, rfl⟩ := Option.map_eq_some_iff.mp returned
    obtain ⟨links, count⟩ := moveOn_frame moved
    obtain ⟨kept, counted⟩ := scheduled.uncount member (links ▸ ring) (count.trans schedule)
    have start : (unlinked s task).next task ∈ tasks.erase task := by
      simpa [unlinked, follows, other] using inside
    have left := moveOn_leaves moved allocated ring start scheduled.ring.distinct.not_mem_erase
      (by rwa [current, chosen])
    exact ⟨kept, counted, left⟩

/-- A task further on stays linked; only a release that never returns does no harm. -/
theorem release_passes (scheduled : Scheduled s tasks) (member : task ∈ tasks)
    (other : task ≠ s.schedule.head) (further : s.next s.schedule.head ≠ task) :
    ReleaseKeepsRing s tasks task ↔
      s.osCurrentTask = task ∧ ∀ member ∈ tasks, s.status member = .paused := by
  have unchanged : unlinked s task = s := if_neg further
  have released (fuel : Nat) := osTaskRelease_member scheduled member other fuel
  rw [unchanged] at released
  constructor
  · intro keeps
    have never (fuel : Nat) : moveOn fuel s task = none := by
      cases moved : moveOn fuel s task with
      | none => rfl
      | some after =>
        obtain ⟨links, count⟩ := moveOn_frame moved
        have kept := (keeps fuel _ (by rw [released, moved]; rfl) rfl).1
        have head : after.schedule.head = s.schedule.head := by rw [count]
        exact absurd kept (linked_not_erased scheduled member links head)
    have running : s.osCurrentTask = task := by
      by_contra elsewhere
      have returned := never 0
      rw [moveOn_other elsewhere] at returned
      cases returned
    refine ⟨running, fun node inside => ?_⟩
    by_contra idle
    have start : s.next task ∈ tasks := scheduled.ring.next_mem member
    obtain ⟨found, sought⟩ := scheduled.ring.seek_some start s.runnable
      ⟨node, inside, decide_eq_true idle⟩ tasks.length le_rfl
    have returned := never tasks.length
    rw [moveOn_running running, sought] at returned
    cases returned
  · rintro ⟨running, paused⟩ fuel released' returned _
    have start : s.next task ∈ tasks := scheduled.ring.next_mem member
    have never := scheduled.ring.seek_none start s.runnable
      (fun node inside => decide_eq_false (not_not_intro (paused node inside))) fuel
    rw [released, moveOn_running running, never] at returned
    cases returned

/-- A pid that one task of the ring has finds that task. -/
theorem Scheduled.fromPid_unique (scheduled : Scheduled s tasks) (member : task ∈ tasks)
    (unique : ∀ member ∈ tasks, s.pid member = s.pid task → member = task) :
    osTaskFromPid s (s.pid task) = task := by
  rcases scheduled.fromPid (s.pid task) with ⟨node, inside, matched, found⟩ | ⟨missing, _⟩
  · rw [found]
    exact unique node inside matched
  · exact absurd rfl (missing task member)

end Release

/-- A released task leaves the ring and both pointers exactly when it is the one after the
head and is running or not yet selected, or when the release never comes back. -/
theorem release_keeps_ring_iff {s : OsState} {tasks : List Ptr} {task : Ptr}
    (scheduled : Scheduled s tasks) (member : task ∈ tasks) (other : task ≠ s.schedule.head) :
    (ReleaseKeepsRing s tasks task ↔
      (s.osCurrentTask = task ∧ ∀ member ∈ tasks, s.status member = .paused) ∨
        s.next s.schedule.head = task ∧ (s.osCurrentTask = task ∨ s.osNextTask ≠ task)) ∧
      (s.pid task ≠ 0 → (∀ member ∈ tasks, s.pid member = s.pid task → member = task) →
        ∀ fuel, osTaskStop fuel s (s.pid task) = osTaskRelease fuel s task) := by
  constructor
  · by_cases follows : s.next s.schedule.head = task
    · rw [release_follows scheduled member other follows]
      constructor
      · exact fun clear => Or.inr ⟨follows, clear⟩
      · rintro (⟨running, _⟩ | ⟨_, clear⟩)
        · exact Or.inl running
        · exact clear
    · rw [release_passes scheduled member other follows]
      simp [follows]
  · intro system unique fuel
    rw [osTaskStop, if_neg system, scheduled.fromPid_unique member unique]

theorem first_application_released :
    Scheduled threeTasks [1, 2, 3] ∧ ReleaseKeepsRing threeTasks [1, 2, 3] 2 ∧
      osTaskStop 0 threeTasks 1 = osTaskRelease 0 threeTasks 2 := by
  obtain ⟨keeps, stop⟩ := release_keeps_ring_iff threeTasks_scheduled
    (show 2 ∈ [1, 2, 3] by decide) (by decide)
  exact ⟨threeTasks_scheduled, keeps.mpr (Or.inr ⟨rfl, Or.inr (by decide)⟩),
    stop (by decide) (by decide) 0⟩

/-- The second application is freed and stays the task after the first. -/
theorem second_application_dangles :
    Scheduled threeTasks [1, 2, 3] ∧ ¬ ReleaseKeepsRing threeTasks [1, 2, 3] 3 ∧
      ∃ released, osTaskRelease 0 threeTasks 3 = some released ∧ released.status = lfSuccess ∧
        .free 3 ∈ released.events ∧ released.os.next 2 = 3 := by
  refine ⟨threeTasks_scheduled, fun keeps => ?_, _, rfl, rfl, by decide, rfl⟩
  have scheduled := (keeps 0 _ rfl rfl).1
  exact absurd scheduled.ring.path (by decide)

end Flipper.Os
