import Flipper.Os.Scheduler

/-! Rounds of the scheduler: a tick chooses the next task, PendSV makes it the running one. -/
namespace Flipper.Os
open Linked Fmr

/-- `systick_exception` and then the pointer update of PendSV, whose pending bit the
exception clears. -/
def round (fuel : Nat) (s : OsState) : Option OsState :=
  (systickException fuel s).map fun s => { osUpdateTaskPointers s with pendsvset := false }

def rounds (fuel : Nat) : Nat → OsState → Option OsState
  | 0, s => some s
  | count + 1, s => (rounds fuel count s).bind (round fuel)

/-- The ring as seen from the running task, which is not paused. -/
structure Turning (s : OsState) (cycle : List Ptr) : Prop where
  ring : Ring s.next s.osCurrentTask cycle
  running : s.runnable s.osCurrentTask = true
  allocated : 0 ∉ cycle

section Round
variable {s : OsState}

theorem runnable_eq {after : OsState} (same : ∀ task, after.status task = .paused ↔
    s.status task = .paused) :
    after.runnable = s.runnable := by
  funext task
  simp [OsState.runnable, same]

/-- Marking a task that is not paused hides no task from the search. -/
theorem runnable_setStatus (task : Ptr) (running : s.runnable task = true)
    (unpaused : status ≠ .paused) :
    (s.setStatus task status).runnable = s.runnable := by
  apply runnable_eq
  intro other
  by_cases same : other = task
  · subst same
    have idle : s.status other ≠ .paused := of_decide_eq_true running
    simp [unpaused, idle]
  · simp [same]

/-- Turning the list of tasks past those that are paused turns the list of the others by
one. -/
theorem filter_turned {live : α → Bool} {rest skipped others : List α}
    (running : live current = true)
    (split : rest ++ [current] = skipped ++ found :: others)
    (passed : ∀ task ∈ skipped, live task = false) :
    (found :: others ++ skipped).filter live = ((current :: rest).filter live).rotate 1 := by
  have none : skipped.filter live = [] := List.filter_eq_nil_iff.mpr fun task member => by
    rw [passed task member]
    decide
  calc (found :: others ++ skipped).filter live
      = (skipped ++ found :: others).filter live := by
        simp only [List.filter_append, none, List.append_nil, List.nil_append]
    _ = rest.filter live ++ [current] := by
        rw [← split, List.filter_append, List.filter_cons_of_pos running, List.filter_nil]
    _ = ((current :: rest).filter live).rotate 1 := by
        rw [List.filter_cons_of_pos running, List.rotate_cons_succ, List.rotate_zero]

/-- `os_task_next` selects the first task behind the running one that is not paused. -/
theorem Turning.osTaskNext (turning : Turning s (s.osCurrentTask :: rest))
    (enough : rest.length < fuel) :
    ∃ found skipped others, Os.osTaskNext fuel s = some (select (leaveCurrent s) found) ∧
      (leaveCurrent s).runnable = s.runnable ∧ s.runnable found = true ∧
      rest ++ [s.osCurrentTask] = skipped ++ found :: others ∧ ∀ task ∈ skipped,
        s.runnable task = false := by
  have allocated : s.osCurrentTask ≠ 0 := fun null => turning.allocated (null ▸ List.mem_cons_self)
  have left := leaveCurrent_running s allocated
  have unhidden : (leaveCurrent s).runnable = s.runnable := by
    rw [left]
    exact runnable_setStatus s.osCurrentTask turning.running (by decide)
  have behind := turning.ring.turn
  have candidates : ((rest ++ [s.osCurrentTask]).find? s.runnable).isSome := by
    rw [List.find?_isSome]
    exact ⟨s.osCurrentTask, by simp, turning.running⟩
  obtain ⟨found, chosen⟩ := Option.isSome_iff_exists.mp candidates
  have sought : seek s.next s.runnable fuel (s.next s.osCurrentTask) = some found := by
    apply seek_mono ((behind.path.seek s.runnable).trans chosen)
    simpa using Nat.succ_le_of_lt enough
  obtain ⟨stops, skipped, others, split, passed⟩ := List.find?_eq_some_iff_append.mp chosen
  refine ⟨found, skipped, others, ?_, unhidden, stops, split, by simpa using passed⟩
  rw [Os.osTaskNext, next_leaveCurrent, unhidden, left]
  exact congrArg (Option.map _) sought

/-- One round keeps the ring and who is paused, and turns the list of the others by one. -/
theorem Turning.round (turning : Turning s cycle) (enough : cycle.length ≤ fuel) :
    ∃ after turned, Os.round fuel s = some after ∧ Turning after turned ∧
      turned.length = cycle.length ∧
      after.runnable = s.runnable ∧
      turned.filter s.runnable = (cycle.filter s.runnable).rotate 1 := by
  obtain ⟨rest, rfl⟩ := turning.ring.head_cons
  obtain ⟨found, skipped, others, next, unhidden, stops, split, passed⟩ := turning.osTaskNext enough
  have unpaused : (select (leaveCurrent s) found).runnable = s.runnable := by
    rw [← unhidden]
    exact runnable_setStatus found (unhidden ▸ stops) (by decide)
  have behind := turning.ring.turn
  have allocated := turning.allocated
  rw [split] at behind
  have shuffled : (found :: others ++ skipped).Perm (s.osCurrentTask :: rest) :=
    List.perm_append_comm.trans (split ▸ List.perm_append_singleton _ _)
  refine ⟨{ osUpdateTaskPointers (select (leaveCurrent s) found) with pendsvset := false },
    found :: others ++ skipped, ?_, ⟨?_, ?_, ?_⟩, shuffled.length_eq, unpaused,
    filter_turned turning.running split passed⟩
  · rw [Os.round, systickException, next]
    rfl
  · exact behind.rotate.congr fun task _ => by
      change (select (leaveCurrent s) found).next task = s.next task
      simp
  · exact (congrFun unpaused found).trans stops
  · rwa [shuffled.mem_iff]

/-- The running task comes first among those that are not paused. -/
theorem Turning.head (turning : Turning s cycle) :
    (cycle.filter s.runnable).head? = some s.osCurrentTask := by
  obtain ⟨rest, rfl⟩ := turning.ring.head_cons
  rw [List.filter_cons_of_pos turning.running]
  rfl

theorem Turning.rounds (turning : Turning s cycle) (enough : cycle.length ≤ fuel) (count : Nat) :
    ∃ after turned, Os.rounds fuel count s = some after ∧ Turning after turned ∧
      turned.length = cycle.length ∧
      after.runnable = s.runnable ∧
      turned.filter s.runnable = (cycle.filter s.runnable).rotate count := by
  induction count with
  | zero => exact ⟨s, cycle, rfl, turning, rfl, rfl, (List.rotate_zero _).symm⟩
  | succ count ih =>
    obtain ⟨middle, cycle', ran, turning', length, same, filtered⟩ := ih
    obtain ⟨after, turned, ran', turning'', length', same', filtered'⟩ :=
      turning'.round (length ▸ enough)
    refine ⟨after, turned, ?_, turning'', length'.trans length, same'.trans same, ?_⟩
    · rw [Os.rounds, ran]
      exact ran'
    · rw [same, filtered, List.rotate_rotate] at filtered'
      exact filtered'

end Round

/-- After any number of rounds the running task is the next one in turn among those that
are not paused; over as many rounds as there are such tasks, each of them runs once. -/
theorem round_robin {s : OsState} {before after : List Ptr}
    (scheduled : Scheduled s (before ++ s.osCurrentTask :: after))
    (running : s.status s.osCurrentTask ≠ .paused) (enough : s.schedule.count.toNat ≤ fuel) :
    let live := (s.osCurrentTask :: after ++ before).filter s.runnable
    (∀ count, ∃ reached, rounds fuel count s = some reached ∧
      live[count % live.length]? = some reached.osCurrentTask ∧ reached.runnable = s.runnable) ∧
    ((List.range live.length).map fun count =>
      (rounds fuel (count + 1) s).map OsState.osCurrentTask).Perm
      (((before ++ s.osCurrentTask :: after).filter s.runnable).map some) := by
  intro live
  have turning : Turning s (s.osCurrentTask :: after ++ before) :=
    ⟨scheduled.ring.rotate, decide_eq_true running, fun null =>
      scheduled.allocated (List.perm_append_comm.mem_iff.mp null)⟩
  have length : (s.osCurrentTask :: after ++ before).length ≤ fuel := by
    rw [scheduled.counted] at enough
    simp only [List.length_append, List.length_cons] at enough ⊢
    omega
  have positive : live ≠ [] := by
    simp [live, turning.running]
  have reached (count : Nat) : ∃ reached, rounds fuel count s = some reached ∧
      live[count % live.length]? = some reached.osCurrentTask ∧ reached.runnable = s.runnable := by
    obtain ⟨reached, turned, ran, turning, _, same, filtered⟩ := turning.rounds length count
    refine ⟨reached, ran, ?_, same⟩
    have first := turning.head
    rw [same, filtered, ← List.rotate_mod, List.head?_rotate] at first
    · exact first
    · exact Nat.mod_lt _ (List.length_pos_iff.mpr positive)
  refine ⟨reached, ?_⟩
  have turns : (List.range live.length).map
      (fun count => (rounds fuel (count + 1) s).map OsState.osCurrentTask) =
      (live.rotate 1).map some := by
    apply List.ext_getElem
    · simp
    · intro i _ inside
      obtain ⟨reached, ran, current, _⟩ := reached (i + 1)
      simp only [List.getElem_map, List.getElem_range, ran, Option.map_some, List.getElem_rotate]
      rw [← current, List.getElem?_eq_getElem]
  rw [turns]
  exact ((List.rotate_perm live 1).trans (List.perm_append_comm.filter s.runnable)).map some

theorem paused_application_skipped :
    let s := threeTasks.setStatus 2 .paused
    Scheduled s [1, 2, 3] ∧ s.status 1 ≠ .paused ∧
      ∃ reached, rounds 3 5 s = some reached ∧ reached.osCurrentTask = 3 := by
  intro s
  have scheduled : Scheduled s ([] ++ s.osCurrentTask :: [2, 3]) :=
    ⟨⟨by decide, by decide, by decide⟩, rfl, by decide⟩
  obtain ⟨reached, ran, current, _⟩ := (round_robin scheduled (by decide) (Nat.le_refl 3)).1 5
  have live : (s.osCurrentTask :: [2, 3] ++ []).filter s.runnable = [1, 3] := by decide
  rw [live] at current
  exact ⟨scheduled, by decide, reached, ran, (Option.some.inj current).symm⟩

end Flipper.Os
