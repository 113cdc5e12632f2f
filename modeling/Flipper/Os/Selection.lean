import Flipper.Os.RoundRobin

/-! Which task `os_task_next` selects, from any state whose tasks form a ring, and that a
second call before PendSV changes nothing. -/
namespace Flipper.Os
open Linked Fmr

section Marks
variable (s : OsState)

theorem setStatus_self (held : s.status task = status) : s.setStatus task status = s := by
  have record : { s.tasks task with status := status } = s.tasks task := by
    rw [← held]
    rfl
  rw [OsState.setStatus, record, Function.update_eq_self]

theorem setStatus_setStatus (task : Ptr) (first second : OsTaskStatus) :
    (s.setStatus task first).setStatus task second = s.setStatus task second := by
  simp [OsState.setStatus]

/-- Behind the running task, which has just become a candidate itself. -/
theorem runnable_leaveCurrent (running : s.osCurrentTask ≠ 0) :
    (leaveCurrent s).runnable = fun task =>
    decide (task = s.osCurrentTask ∨ s.status task ≠ .paused) := by
  funext task
  rw [leaveCurrent_running s running]
  change decide ((s.setStatus s.osCurrentTask .idle).status task ≠ .paused) = _
  by_cases same : task = s.osCurrentTask
  · simp [same]
  · simp [same]

theorem osCurrentTask_leaveCurrent : (leaveCurrent s).osCurrentTask = s.osCurrentTask := by
  by_cases null : s.osCurrentTask = 0
  · rw [leaveCurrent_null s null]
  · rw [leaveCurrent_running s null]
    rfl

theorem status_leaveCurrent (other : s.osCurrentTask = 0 ∨ task ≠ s.osCurrentTask) :
    (leaveCurrent s).status task = s.status task := by
  by_cases null : s.osCurrentTask = 0
  · rw [leaveCurrent_null s null]
  · rw [leaveCurrent_running s null]
    change (s.setStatus s.osCurrentTask .idle).status task = s.status task
    simp [other.resolve_left null]

end Marks

section Twice
variable (s : OsState)

/-- Selecting what is selected already changes nothing. -/
theorem select_again (found : Ptr) :
    select (leaveCurrent (select (leaveCurrent s) found)) found =
      select (leaveCurrent s) found := by
  set after := select (leaveCurrent s) found with selected
  have current : after.osCurrentTask = s.osCurrentTask := osCurrentTask_leaveCurrent s
  have active : after.status found = .active := by simp [selected]
  have store : (leaveCurrent after).setStatus found .active =
      { after with osNextTask := (leaveCurrent after).osNextTask } := by
    by_cases null : after.osCurrentTask = 0
    · rw [leaveCurrent_null after null, setStatus_self after active]
    · rw [leaveCurrent_running after null]
      by_cases same : after.osCurrentTask = found
      -- The only candidate was the running task: it is marked idle and then active again.
      · rw [← same] at active ⊢
        have again := setStatus_setStatus after after.osCurrentTask .idle .active
        rw [setStatus_self after active] at again
        exact congrArg (fun marked : OsState =>
          { marked with osNextTask := after.next after.osCurrentTask }) again
      · have idle : after.status after.osCurrentTask = .idle := by
          have running : s.osCurrentTask ≠ 0 := current ▸ null
          rw [current] at same ⊢
          rw [selected, status_select, Function.update_of_ne same, leaveCurrent_running s running]
          change (s.setStatus s.osCurrentTask .idle).status s.osCurrentTask = .idle
          simp
        rw [setStatus_self after idle]
        exact congrArg (fun marked : OsState =>
          { marked with osNextTask := after.next after.osCurrentTask })
          (setStatus_self after active)
  rw [select, store]
  rfl

/-- The search of a second call passes and stops at the same tasks. -/
theorem runnable_again (running : (leaveCurrent s).runnable found = true) :
    (leaveCurrent (select (leaveCurrent s) found)).runnable = (leaveCurrent s).runnable := by
  set after := select (leaveCurrent s) found with selected
  have current : after.osCurrentTask = s.osCurrentTask := osCurrentTask_leaveCurrent s
  have kept : after.runnable = (leaveCurrent s).runnable :=
    runnable_setStatus found running OsTaskStatus.noConfusion
  by_cases null : after.osCurrentTask = 0
  · rw [leaveCurrent_null after null, kept]
  · have candidate : after.runnable after.osCurrentTask = true := by
      rw [kept, current, runnable_leaveCurrent s (current ▸ null)]
      simp
    rw [leaveCurrent_running after null, ← kept]
    exact runnable_setStatus after.osCurrentTask candidate OsTaskStatus.noConfusion

theorem osTaskNext_again {s after : OsState} (returned : osTaskNext fuel s = some after) :
    osTaskNext fuel after = some after := by
  obtain ⟨found, sought, selected⟩ := osTaskNext_some s returned
  have running := seek_stops sought
  have current : after.osCurrentTask = s.osCurrentTask := selected ▸ osCurrentTask_leaveCurrent s
  have next : after.next = s.next := next_of_layout (osTaskNext_layout s returned)
  have again : seek s.next (leaveCurrent s).runnable fuel (leaveCurrent after).osNextTask =
      some found := by
    by_cases null : after.osCurrentTask = 0
    -- Nothing runs, so the search starts where the first one stopped.
    · rw [leaveCurrent_null after null]
      cases fuel with
      | zero => cases sought
      | succ fuel =>
        rw [selected]
        exact if_pos running
    · have start : (leaveCurrent after).osNextTask = (leaveCurrent s).osNextTask := by
        rw [leaveCurrent_running after null, leaveCurrent_running s (current ▸ null), next, current]
      rw [start]
      exact sought
  rw [osTaskNext, next_leaveCurrent, next]
  have candidates : (leaveCurrent after).runnable = (leaveCurrent s).runnable :=
    selected ▸ runnable_again s running
  rw [candidates, again, Option.map_some, selected, select_again]

end Twice

section Selection
variable {s : OsState} {tasks : List Ptr}

/-- The tasks in the order in which `os_task_next` looks at them: with a running task from
the one behind it, and it last; else from `os_next_task`. -/
inductive Candidates (s : OsState) (tasks : List Ptr) : List Ptr → Prop
  | running (before rest : List Ptr) (current : s.osCurrentTask ≠ 0)
      (split : tasks = before ++ s.osCurrentTask :: rest) :
      Candidates s tasks (rest ++ before ++ [s.osCurrentTask])
  | resting (before rest : List Ptr) (null : s.osCurrentTask = 0)
      (split : tasks = before ++ s.osNextTask :: rest) :
      Candidates s tasks (s.osNextTask :: rest ++ before)

theorem Candidates.exists (allocated : 0 ∉ tasks)
    (pointed : s.osCurrentTask ∈ tasks ∨ s.osCurrentTask = 0 ∧ s.osNextTask ∈ tasks) :
    ∃ order, Candidates s tasks order := by
  rcases pointed with inside | ⟨null, inside⟩
  · obtain ⟨before, rest, split⟩ := List.append_of_mem inside
    exact ⟨_, .running before rest (fun null => allocated (null ▸ inside)) split⟩
  · obtain ⟨before, rest, split⟩ := List.append_of_mem inside
    exact ⟨_, .resting before rest null split⟩

theorem Candidates.perm (candidates : Candidates s tasks order) : tasks.Perm order := by
  cases candidates with
  | running before rest current split =>
    rw [split, List.append_assoc]
    exact List.perm_append_comm.trans ((List.perm_append_singleton _ _).symm.trans (by simp))
  | resting before rest null split =>
    rw [split]
    exact List.perm_append_comm

/-- They are the whole ring, and it starts where the search does. -/
theorem Candidates.ring (candidates : Candidates s tasks order) (ring : Ring s.next head tasks) :
    Ring s.next (leaveCurrent s).osNextTask order := by
  cases candidates with
  | running before rest current split =>
    rw [leaveCurrent_running s current]
    exact (split ▸ ring).rotate.turn
  | resting before rest null split =>
    rw [leaveCurrent_null s null]
    exact (split ▸ ring).rotate

theorem Candidates.runnable (candidates : Candidates s tasks order) (task : Ptr)
    (unpaused : s.status task ≠ .paused) : (leaveCurrent s).runnable task = true := by
  cases candidates with
  | running before rest current split =>
    rw [runnable_leaveCurrent s current]
    simp [unpaused]
  | resting before rest null split =>
    rw [leaveCurrent_null s null]
    simp [OsState.runnable, unpaused]

/-- With a task of the ring that is not paused the search ends, at the first candidate that
can run. -/
theorem Candidates.osTaskNext (candidates : Candidates s tasks order)
    (ring : Ring s.next head tasks) (unpaused : s.status head ≠ .paused) :
    ∃ found, order.find? (leaveCurrent s).runnable = some found ∧
      ∀ fuel, order.length ≤ fuel →
      Os.osTaskNext fuel s = some (select (leaveCurrent s) found) := by
  have turned := candidates.ring ring
  have head_mem : head ∈ order := (candidates.perm.mem_iff).mp ring.head_mem
  have exists_found : (order.find? (leaveCurrent s).runnable).isSome := by
    rw [List.find?_isSome]
    exact ⟨head, head_mem, candidates.runnable head unpaused⟩
  obtain ⟨found, first⟩ := Option.isSome_iff_exists.mp exists_found
  refine ⟨found, first, fun fuel enough => ?_⟩
  have sought := seek_mono ((turned.path.seek (leaveCurrent s).runnable).trans first) enough
  rw [Os.osTaskNext, next_leaveCurrent, sought, Option.map_some]

/-- `os_task_next` returns from every ring whose head is not paused, whatever other tasks
are. It selects the first task that can run, from the one behind the running task on and
with that task last, or from `os_next_task` on when none runs. -/
theorem osTaskNext_selects (s : OsState) (tasks : List Ptr)
    (ring : Ring s.next s.schedule.head tasks) (allocated : 0 ∉ tasks)
    (unpaused : s.status s.schedule.head ≠ .paused)
    (pointed : s.osCurrentTask ∈ tasks ∨ s.osCurrentTask = 0 ∧ s.osNextTask ∈ tasks) :
    ∃ after, (∀ fuel, tasks.length ≤ fuel → osTaskNext fuel s = some after ∧
      osTaskNext fuel after = some after) ∧
      (∀ before rest, tasks = before ++ s.osCurrentTask :: rest →
        (rest ++ before ++ [s.osCurrentTask]).find?
        (fun task => task = s.osCurrentTask ∨ s.status task ≠ .paused) =
          some after.osNextTask) ∧
      (s.osCurrentTask = 0 → ∀ before rest, tasks = before ++ s.osNextTask :: rest →
        (s.osNextTask :: rest ++ before).find? (fun task => s.status task ≠ .paused) =
        some after.osNextTask) ∧
      ∀ task, (s.osCurrentTask = 0 ∨ task ≠ s.osCurrentTask) → task ≠ after.osNextTask →
        after.status task = s.status task := by
  obtain ⟨order, candidates⟩ := Candidates.exists allocated pointed
  obtain ⟨found, _, returns⟩ := candidates.osTaskNext ring unpaused
  have first_found : ∀ others, Candidates s tasks others → others.find? (leaveCurrent s).runnable =
      some found := by
    intro others listed
    obtain ⟨again, first, returns_again⟩ := listed.osTaskNext ring unpaused
    have same := (returns tasks.length candidates.perm.length_eq.ge).symm.trans
      (returns_again tasks.length listed.perm.length_eq.ge)
    rw [first]
    exact congrArg (Option.map OsState.osNextTask) same.symm
  refine ⟨select (leaveCurrent s) found, ?returns, ?running, ?resting, ?frame⟩
  case returns =>
    intro fuel enough
    have returned := returns fuel (candidates.perm.length_eq ▸ enough)
    exact ⟨returned, osTaskNext_again returned⟩
  case running =>
    intro before rest split
    have current : s.osCurrentTask ≠ 0 := fun null => allocated (by simp [split, null])
    rw [← runnable_leaveCurrent s current]
    exact first_found _ (.running before rest current split)
  case resting =>
    intro null before rest split
    have first := first_found _ (.resting before rest null split)
    rw [leaveCurrent_null s null] at first
    exact first
  case frame =>
    intro task other unselected
    rw [status_select]
    exact (Function.update_of_ne unselected _ _).trans (status_leaveCurrent s other)

/-- Three tasks, of which the one behind the running head is paused: the third is next. -/
theorem threeTasks_selects_third :
    ∃ after, (∀ fuel, 3 ≤ fuel → osTaskNext fuel (threeTasks.setStatus 2 .paused) = some after) ∧
      after.osNextTask = 3 := by
  obtain ⟨after, returns, running, _, _⟩ :=
    osTaskNext_selects (threeTasks.setStatus 2 .paused) [1, 2, 3]
    ⟨by decide, by decide, by decide⟩ (by decide) (by decide) (by decide)
  refine ⟨after, fun fuel enough => (returns fuel enough).1, ?_⟩
  have third := running [] [2, 3] rfl
  exact (Option.some.inj third).symm

end Selection

end Flipper.Os
