import Flipper.Os.TaskRing

/-! How long a pause lasts. `os_task_next` and `os_task_resume` mark whatever
`os_current_task` points to as idle, so a paused task that is still, or has just become, the
current one loses its pause. -/
namespace Flipper.Os
open Linked Fmr

section Calls
variable {s after : OsState} {created added : List Ptr}

/-- The search passes a paused task, unless that is the one it marks idle. -/
theorem osTaskNext_paused (paused : s.status task = .paused) (other : s.osCurrentTask ≠ task)
    (returned : osTaskNext fuel s = some after) :
    after.status task = .paused ∧ after.osNextTask ≠ task := by
  obtain ⟨found, sought, rfl⟩ := osTaskNext_some s returned
  have left : (leaveCurrent s).status task = .paused := by
    by_cases null : s.osCurrentTask = 0
    · rw [leaveCurrent_null s null]
      exact paused
    · rw [leaveCurrent_running s null]
      change (s.setStatus s.osCurrentTask .idle).status task = .paused
      rw [status_setStatus, Function.update_of_ne other.symm]
      exact paused
  have passed : found ≠ task := by
    rintro rfl
    have stops := seek_stops sought
    exact of_decide_eq_true stops left
  refine ⟨?_, passed⟩
  rw [status_select, Function.update_of_ne passed.symm]
  exact left

/-- From behind a task the search reaches the head before it could come back. -/
theorem osTaskNext_leaves (chained : Chained s.links created added) (pointed : Pointed s added)
    (member : s.osCurrentTask ∈ added) (application : s.osCurrentTask ≠ s.schedule.head)
    (returned : osTaskNext fuel s = some after) : after.osNextTask ≠ s.osCurrentTask := by
  obtain ⟨found, sought, rfl⟩ := osTaskNext_some s returned
  obtain ⟨before, rest, split⟩ := List.append_of_mem member
  have awake : (leaveCurrent s).runnable s.schedule.head = true := by
    have same : (leaveCurrent s).schedule = s.schedule :=
      congrArg Layout.schedule (layout_leaveCurrent s)
    exact decide_eq_true (same ▸ (pointed.leaveCurrent chained).1.awake)
  have start : (leaveCurrent s).osNextTask = s.next s.osCurrentTask := by
    rw [leaveCurrent_running s (chained.ne_zero member)]
  rw [start] at sought
  -- The search stays among the tasks added later until it stops, at the head at the latest.
  have ahead : found = s.schedule.head ∨ found ∈ rest := by
    refine (seek_invariant (fun node => node = s.schedule.head ∨ node ∈ rest)
      (chained.later split List.mem_cons_self) (fun node ahead passes => ?_) sought).1
    rcases ahead with rfl | later
    · exact absurd (awake.symm.trans passes) (by decide)
    · exact chained.later split (List.mem_cons_of_mem _ later)
  have once := chained.once
  rw [split, List.nodup_append, List.nodup_cons] at once
  rcases ahead with rfl | later
  · exact application.symm
  · exact ne_of_mem_of_not_mem later once.2.1.1

end Calls

/-- The task was paused under this pid. -/
structure Paused (m : Machine) (pid : Int) (task : Ptr) : Prop where
  sound : Sound m
  member : task ∈ m.added
  user : pid ≠ 0
  number : m.os.pid task = pid
  status : m.os.status task = .paused

/-- The pid is not resumed, and nothing marks the running task idle while that is the
paused one. -/
def Respects (pid : Int) (task : Ptr) (m : Machine) : Action → Prop
  | .next => m.os.osCurrentTask ≠ task
  | .systick => m.os.osCurrentTask ≠ task
  | .resume other =>
    other ≠ pid ∧ (other = 0 ∨ osTaskFromPid m.os other = 0 ∨ m.os.osCurrentTask ≠ task)
  | _ => True

section Steps
variable {m after : Machine} {pid : Int} {task : Ptr}

theorem Paused.application (paused : Paused m pid task) : task ≠ m.os.schedule.head := by
  rintro rfl
  exact paused.user (paused.number.symm.trans paused.sound.chained.numbered.system)

theorem osTaskPause_keeps (paused : Paused m pid task) {os : OsState}
    (returned : osTaskPause fuel m.os other = some (status, os)) :
    os.status task = .paused ∧ (os.osNextTask = task → m.os.osNextTask = task) := by
  rcases osTaskPause_some returned with ⟨_, rfl, _⟩ | ⟨_, _, found, moved, rfl, progress⟩
  · exact ⟨paused.status, fun selected => selected⟩
  · rcases progress with ⟨running, next⟩ | ⟨_, rfl⟩
    · by_cases same : m.os.osCurrentTask = task
      · -- Pausing the task again while it runs: the search leaves it behind.
        have left := osTaskNext_leaves paused.sound.chained paused.sound.pointed
          (same ▸ paused.member) (same ▸ paused.application) next
        refine ⟨?_, fun selected => absurd selected (same ▸ left)⟩
        rw [← running, same, status_setStatus, Function.update_self]
      · obtain ⟨kept, passed⟩ := osTaskNext_paused paused.status same next
        refine ⟨?_, fun selected => absurd selected passed⟩
        rw [status_setStatus, Function.update_of_ne (running ▸ Ne.symm same)]
        exact kept
    · refine ⟨?_, fun selected => selected⟩
      rw [status_setStatus]
      by_cases same : task = osTaskFromPid m.os other
      · rw [same, Function.update_self]
      · rw [Function.update_of_ne same]
        exact paused.status

theorem osTaskResume_keeps (paused : Paused m pid task) {os : OsState}
    (respects : Respects pid task m (.resume other))
    (returned : osTaskResume fuel m.os other = some (status, os)) :
    os.status task = .paused ∧ (os.osNextTask = task → m.os.osNextTask = task) := by
  obtain ⟨different, respects⟩ := respects
  rcases osTaskResume_some returned with ⟨_, rfl, _⟩ | ⟨_, user, found, next⟩
  · exact ⟨paused.status, fun selected => selected⟩
  · have elsewhere : m.os.osCurrentTask ≠ task := (respects.resolve_left user).resolve_left found
    have distinct : task ≠ osTaskFromPid m.os other := by
      intro same
      have number := (fromPid_found paused.sound.chained found).2
      rw [← same, paused.number] at number
      exact different number.symm
    have kept : (resuming m.os (osTaskFromPid m.os other)).status task = .paused := by
      change ((m.os.setStatus (osTaskFromPid m.os other) .idle).setStatus m.os.osCurrentTask
        .idle).status task = .paused
      rw [status_setStatus, Function.update_of_ne elsewhere.symm, status_setStatus,
        Function.update_of_ne distinct]
      exact paused.status
    have allocated : 0 ≠ task := (paused.sound.chained.ne_zero paused.member).symm
    obtain ⟨status, passed⟩ := osTaskNext_paused kept allocated next
    exact ⟨status, fun selected => absurd selected passed⟩

/-- A step that respects the pause keeps it, and does not select the task. -/
theorem Paused.act (paused : Paused m pid task) (respects : Respects pid task m action)
    (step : act image fuel m action = some after) :
    Paused after pid task ∧ (after.os.osNextTask = task → m.os.osNextTask = task) := by
  have sound := paused.sound.act step
  have known := paused.sound.chained.known task paused.member
  have number := (act_pid known step).trans paused.number
  have member := (act_added step).subset paused.member
  have keeps : after.os.status task = .paused ∧
      (after.os.osNextTask = task → m.os.osNextTask = task) := by
    cases action with
    | create taskBlock stackBlock entry header =>
      rcases act_create step with rfl | ⟨new, stack, ⟨_, fresh, _⟩, rfl⟩
      · exact ⟨paused.status, fun selected => selected⟩
      · have distinct : task ≠ new := ne_of_mem_of_not_mem known fresh
        refine ⟨?_, fun selected => selected⟩
        rw [← paused.status]
        exact congrArg OsTask.status (Function.update_of_ne distinct _ _)
    | add new =>
      obtain ⟨_, rfl⟩ := act_add step
      have status := osTaskAdd_field m.os new OsTask.status fun _ _ => rfl
      have pointers := (osTaskAdd_frame m.os new).2
      exact ⟨(congrFun status task).trans paused.status, fun selected => by
        rw [← selected]
        exact (congrArg (fun pointers => pointers.2.1) pointers).symm⟩
    | next | systick =>
      obtain ⟨os, next, rfl⟩ := Option.map_eq_some_iff.mp step
      obtain ⟨status, passed⟩ := osTaskNext_paused paused.status respects next
      exact ⟨status, fun selected => absurd selected passed⟩
    | pause other =>
      obtain ⟨⟨status, os⟩, returned, rfl⟩ := Option.map_eq_some_iff.mp step
      exact osTaskPause_keeps paused returned
    | resume other =>
      obtain ⟨⟨status, os⟩, returned, rfl⟩ := Option.map_eq_some_iff.mp step
      exact osTaskResume_keeps paused respects returned
    | pendsv =>
      obtain ⟨_, rfl⟩ := act_pendsv step
      exact ⟨(congrFun (switch_status m) task).trans paused.status, fun selected => selected⟩
    | execute cpu memory =>
      obtain ⟨_, rfl⟩ := act_execute step
      exact ⟨paused.status, fun selected => selected⟩
  exact ⟨⟨sound, member, paused.user, number, keeps.1⟩, keeps.2⟩

theorem Paused.runs (paused : Paused m pid task) (run : Runs image (Respects pid task) m after) :
    Paused after pid task := by
  induction run with
  | refl => exact paused
  | tail _ step ih =>
    obtain ⟨fuel, action, respects, step⟩ := step
    exact (ih.act respects step).1

end Steps

/-- A pause holds for as long as nothing marks the running task idle while that is the
paused one: the task stays paused and is not selected again. -/
theorem pause_holds (boots : Boots image start) (before : Runs image anyStep start m)
    (returned : osTaskPause fuel m.os pid = some (lfSuccess, os))
    (run : Runs image (Respects pid (osTaskFromPid m.os pid)) { m with os } later) :
    let task := osTaskFromPid m.os pid
    later.os.pid task = pid ∧ later.os.status task = .paused ∧
      ∀ fuel action after, Respects pid task later action →
        act image fuel later action = some after →
        after.os.osNextTask = task → later.os.osNextTask = task := by
  intro task
  have sound := (boots.sound.runs before).1
  have paused : Paused { m with os } pid task := by
    have step : act image fuel m (.pause pid) = some { m with os } := by
      rw [act, returned]
      rfl
    rcases osTaskPause_some returned with ⟨failed, _⟩ | ⟨_, user, found, moved, rfl, _⟩
    · cases failed
    · obtain ⟨member, number⟩ := fromPid_found sound.chained found
      refine ⟨sound.act step, member, user, ?_, ?_⟩
      · exact (act_pid (sound.chained.known _ member) step).trans number
      · change (moved.setStatus task .paused).status task = .paused
        rw [status_setStatus, Function.update_self]
  have held := paused.runs run
  exact ⟨held.number, held.status, fun fuel action after respects step =>
    (held.act respects step).2⟩

theorem paused_after_switch :
    ∃ m os later, actAll plainImage 2 booted loadApplication = some m ∧
      osTaskPause 2 m.os 1 = some (lfSuccess, os) ∧
      Runs plainImage (Respects 1 (osTaskFromPid m.os 1)) { m with os } later ∧
      later.os.status (osTaskFromPid m.os 1) = .paused := by
  have ran : ((actAll plainImage 2 booted loadApplication).bind fun m =>
      (osTaskPause 2 m.os 1).bind fun returned =>
      (act plainImage 2 { m with os := returned.2 } .pendsv).bind fun switched =>
        (act plainImage 2 switched .systick).map fun _ =>
          (returned.1, switched.os.osCurrentTask, osTaskFromPid m.os 1)) =
            some (lfSuccess, 1, 2) := by
    decide +kernel
  obtain ⟨m, loaded, ran⟩ := Option.bind_eq_some_iff.mp ran
  obtain ⟨⟨status, os⟩, returned, ran⟩ := Option.bind_eq_some_iff.mp ran
  obtain ⟨switched, first, ran⟩ := Option.bind_eq_some_iff.mp ran
  obtain ⟨later, second, state⟩ := Option.map_eq_some_iff.mp ran
  simp only [Prod.mk.injEq] at state
  obtain ⟨rfl, current, found⟩ := state
  have respects : Respects 1 (osTaskFromPid m.os 1) switched .systick := by
    change switched.os.osCurrentTask ≠ osTaskFromPid m.os 1
    rw [current, found]
    decide
  have run : Runs plainImage (Respects 1 (osTaskFromPid m.os 1)) { m with os } later :=
    .head ⟨2, .pendsv, trivial, first⟩ (.single ⟨2, .systick, respects, second⟩)
  have before : Runs plainImage anyStep booted m := actAll_runs (fun _ _ _ => trivial) loaded
  exact ⟨m, os, later, loaded, returned, run, (pause_holds booted_boots before returned run).2.1⟩

/-- A tick between the pause and the switch makes the task idle again; after the switch the
next tick selects it. -/
theorem tick_lifts_pause :
    (∃ m os, actAll plainImage 2 booted loadApplication = some m ∧ osTaskFromPid m.os 1 = 2 ∧
      osTaskPause 2 m.os 1 = some (lfSuccess, os) ∧ os.status 2 = .paused) ∧
    (∃ m, actAll plainImage 2 booted (loadApplication ++ [.pause 1, .systick]) = some m ∧
      m.os.status 2 = .idle) ∧
    ∃ m, actAll plainImage 2 booted (loadApplication ++ [.pause 1, .systick, .pendsv, .systick]) =
      some m ∧
      m.os.osNextTask = 2 := by
  refine ⟨?_, ?_, ?_⟩
  · have ran : ((actAll plainImage 2 booted loadApplication).bind fun m =>
        (osTaskPause 2 m.os 1).map fun returned => (osTaskFromPid m.os 1, returned.1,
          returned.2.status 2)) =
          some (2, lfSuccess, .paused) := by decide +kernel
    obtain ⟨m, loaded, ran⟩ := Option.bind_eq_some_iff.mp ran
    obtain ⟨⟨status, os⟩, returned, state⟩ := Option.map_eq_some_iff.mp ran
    simp only [Prod.mk.injEq] at state
    obtain ⟨found, rfl, paused⟩ := state
    exact ⟨m, os, loaded, found, returned, paused⟩
  · have ran : (actAll plainImage 2 booted (loadApplication ++ [.pause 1, .systick])).map
        (fun m => m.os.status 2) = some .idle := by decide +kernel
    exact Option.map_eq_some_iff.mp ran
  · have ran : (actAll plainImage 2 booted
        (loadApplication ++ [.pause 1, .systick, .pendsv, .systick])).map
        (fun m => m.os.osNextTask) = some 2 := by decide +kernel
    exact Option.map_eq_some_iff.mp ran

end Flipper.Os
