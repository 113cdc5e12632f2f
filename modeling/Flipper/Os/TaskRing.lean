import Flipper.Os.Machine

/-! The shape of the schedule in every reachable state. -/
namespace Flipper.Os
open Linked Fmr

/-- Pid 0 is the head's; the others were handed out one after the other. -/
structure Numbered (links : Links) (created : List Ptr) : Prop where
  system : links.pid links.schedule.head = 0
  below : ∀ task ∈ created, links.pid task < links.schedule.nextPid
  unique : ∀ task ∈ created, ∀ other ∈ created, links.pid task = links.pid other → task = other

/-- The records are linked in order of addition. A successor is the head or was added
later, also when there are more tasks than the counter can count. -/
structure Chained (links : Links) (created added : List Ptr) : Prop where
  first : ∃ rest, added = links.schedule.head :: rest
  once : added.Nodup
  known : ∀ task ∈ added, task ∈ created
  allocated : 0 ∉ created
  waiting : ∀ task ∈ created, task ∉ added → links.next task = links.schedule.head
  onward : ∀ before task after, added = before ++ task :: after →
    links.next task = links.schedule.head ∨ links.next task ∈ after
  ring : added.length ≤ 255 →
    Ring links.next links.schedule.head added ∧ links.schedule.count.toNat = added.length
  numbered : Numbered links created

/-- The head can run, and the task pointers are tasks of the schedule or `NULL`. -/
structure Pointed (s : OsState) (added : List Ptr) : Prop where
  awake : s.status s.schedule.head ≠ .paused
  current : s.osCurrentTask ∈ added ∨ s.osCurrentTask = 0 ∧ s.osNextTask ∈ added
  selected : s.osNextTask ∈ added ∨ s.osNextTask = 0 ∧ s.pendsvset = false

structure Sound (m : Machine) : Prop where
  chained : Chained m.os.links m.created m.added
  pointed : Pointed m.os m.added

section Chained
variable {links : Links} {created added : List Ptr}

theorem Chained.head_mem (chained : Chained links created added) : links.schedule.head ∈ added := by
  obtain ⟨rest, rfl⟩ := chained.first
  exact List.mem_cons_self

theorem Chained.next_mem (chained : Chained links created added) (member : task ∈ added) :
    links.next task ∈ added := by
  obtain ⟨before, after, rfl⟩ := List.append_of_mem member
  rcases chained.onward before task after rfl with closes | later
  · rw [closes]
    exact chained.head_mem
  · exact List.mem_append_right _ (List.mem_cons_of_mem _ later)

/-- From any task on, the links lead to the head or further on. -/
theorem Chained.later (chained : Chained links created added)
    (split : added = before ++ task :: rest)
    (inside : node ∈ task :: rest) : links.next node = links.schedule.head ∨
    links.next node ∈ rest := by
  rcases List.mem_cons.mp inside with rfl | later
  · exact chained.onward before node rest split
  · obtain ⟨between, after, rfl⟩ := List.append_of_mem later
    have further := chained.onward (before ++ task :: between) node after (by simp [split])
    exact further.imp_right fun member => List.mem_append_right _ (List.mem_cons_of_mem _ member)

theorem Chained.ne_zero (chained : Chained links created added) (member : task ∈ added) :
    task ≠ 0 :=
  fun null => chained.allocated (null ▸ chained.known task member)

end Chained

section Calls
variable {s after : OsState} {created added : List Ptr}

/-- PendSV is only requested for a task. -/
theorem Pointed.pending (pointed : Pointed s added) (pending : s.pendsvset = true) :
    s.osNextTask ∈ added :=
  pointed.selected.resolve_right fun clear => by simp [clear.2] at pending

theorem Pointed.setStatus (pointed : Pointed s added) (task : Ptr) (status : OsTaskStatus)
    (awake : task ≠ s.schedule.head ∨ status ≠ .paused) :
    Pointed (s.setStatus task status) added := by
  refine ⟨?_, pointed.current, pointed.selected⟩
  change (s.setStatus task status).status s.schedule.head ≠ .paused
  rw [status_setStatus]
  by_cases same : s.schedule.head = task
  · rw [same, Function.update_self]
    exact awake.resolve_left fun other => other same.symm
  · rw [Function.update_of_ne same]
    exact pointed.awake

/-- The pointers are not touched, and neither is the status of the head. -/
theorem Pointed.extend (pointed : Pointed s added) (more : added ⊆ all)
    (head : after.schedule.head = s.schedule.head)
    (status : after.status s.schedule.head = s.status s.schedule.head)
    (pointers : (after.osCurrentTask, after.osNextTask, after.pendsvset) =
      (s.osCurrentTask, s.osNextTask, s.pendsvset)) : Pointed after all := by
  simp only [Prod.mk.injEq] at pointers
  obtain ⟨current, next, pending⟩ := pointers
  constructor
  · rw [head, status]
    exact pointed.awake
  · rw [current, next]
    exact pointed.current.imp (fun member => more member) fun null => ⟨null.1, more null.2⟩
  · rw [next, pending]
    exact pointed.selected.imp_left fun member => more member

/-- The search starts at a task of the schedule. -/
theorem Pointed.leaveCurrent (pointed : Pointed s added) (chained : Chained s.links created added) :
    Pointed (leaveCurrent s) added ∧ (Os.leaveCurrent s).osNextTask ∈ added := by
  rcases pointed.current with running | ⟨null, chosen⟩
  · rw [leaveCurrent_running s (chained.ne_zero running)]
    have marked := pointed.setStatus s.osCurrentTask .idle (Or.inr (by decide))
    have start : s.next s.osCurrentTask ∈ added := chained.next_mem running
    exact ⟨⟨marked.awake, Or.inl running, Or.inl start⟩, start⟩
  · rw [leaveCurrent_null s null]
    exact ⟨pointed, chosen⟩

theorem Pointed.osTaskNext (pointed : Pointed s added) (chained : Chained s.links created added)
    (returned : osTaskNext fuel s = some after) :
    Pointed after added ∧ after.osNextTask ∈ added := by
  obtain ⟨found, sought, rfl⟩ := osTaskNext_some s returned
  obtain ⟨left, start⟩ := pointed.leaveCurrent chained
  obtain ⟨inside, _⟩ := seek_invariant (· ∈ added) start
    (fun _ member _ => chained.next_mem member) sought
  have marked := left.setStatus found .active (Or.inr (by decide))
  refine ⟨⟨marked.awake, ?_, Or.inl inside⟩, inside⟩
  exact left.current.imp_right fun null => ⟨null.1, inside⟩

/-- In a ring with a head that can run the search for the next task ends. -/
theorem Pointed.osTaskNext_returns (pointed : Pointed s added)
    (chained : Chained s.links created added)
    (few : added.length ≤ 255) : (Os.osTaskNext added.length s).isSome := by
  obtain ⟨left, start⟩ := pointed.leaveCurrent chained
  have awake : (Os.leaveCurrent s).runnable s.schedule.head = true := by
    have same : (Os.leaveCurrent s).schedule = s.schedule :=
      congrArg Layout.schedule (layout_leaveCurrent s)
    exact decide_eq_true (same ▸ left.awake)
  obtain ⟨found, sought⟩ := (chained.ring few).1.seek_some start (Os.leaveCurrent s).runnable
    ⟨s.schedule.head, chained.head_mem, awake⟩ added.length le_rfl
  have sought : seek s.next (Os.leaveCurrent s).runnable added.length
      (Os.leaveCurrent s).osNextTask = some found := sought
  simp [Os.osTaskNext, sought]

/-- A pid is only found at a task of the schedule that has it. -/
theorem fromPid_found (chained : Chained s.links created added) (found : osTaskFromPid s pid ≠ 0) :
    osTaskFromPid s pid ∈ added ∧ s.pid (osTaskFromPid s pid) = pid := by
  unfold osTaskFromPid at *
  cases sought : seek s.next (fun task => s.pid task = pid) s.schedule.count.toNat
    s.schedule.head with
  | none =>
    rw [sought] at found
    exact absurd rfl found
  | some task =>
    obtain ⟨member, matched⟩ := seek_invariant (· ∈ added) chained.head_mem
      (fun _ member _ => chained.next_mem member) sought
    exact ⟨member, of_decide_eq_true matched⟩

theorem fromPid_application (chained : Chained s.links created added) (user : pid ≠ 0)
    (found : osTaskFromPid s pid ≠ 0) : osTaskFromPid s pid ≠ s.schedule.head := by
  intro head
  have number := (fromPid_found chained found).2
  rw [head] at number
  exact user (number.symm.trans chained.numbered.system)

theorem Pointed.osTaskPause (pointed : Pointed s added) (chained : Chained s.links created added)
    (returned : osTaskPause fuel s pid = some (status, after)) : Pointed after added := by
  rcases osTaskPause_some returned with ⟨_, rfl, _⟩ | ⟨_, user, found, moved, rfl, progress⟩
  · exact pointed
  · have application := fromPid_application chained user found
    rcases progress with ⟨_, next⟩ | ⟨_, rfl⟩
    · have same : moved.schedule = s.schedule := congrArg Layout.schedule (osTaskNext_layout s next)
      exact (pointed.osTaskNext chained next).1.setStatus _ _ (Or.inl (same ▸ application))
    · exact pointed.setStatus _ _ (Or.inl application)

theorem Pointed.osTaskResume (pointed : Pointed s added) (chained : Chained s.links created added)
    (returned : osTaskResume fuel s pid = some (status, after)) : Pointed after added := by
  rcases osTaskResume_some returned with ⟨_, rfl, _⟩ | ⟨_, _, found, next⟩
  · exact pointed
  · have member := (fromPid_found chained found).1
    have marked := (pointed.setStatus (osTaskFromPid s pid) .idle (Or.inr (by decide))).setStatus
      s.osCurrentTask .idle (Or.inr (by decide))
    have ready : Pointed (resuming s (osTaskFromPid s pid)) added :=
      ⟨marked.awake, Or.inr ⟨rfl, member⟩, Or.inl member⟩
    have linked : Chained (resuming s (osTaskFromPid s pid)).links created added :=
      (links_of_layout (resuming_layout s _)).symm ▸ chained
    exact (ready.osTaskNext linked next).1

end Calls

/-- What `os_task_create` does to the links: a new record leads to the head. -/
structure Creates (links after : Links) (task : Ptr) : Prop where
  head : after.schedule.head = links.schedule.head
  count : after.schedule.count = links.schedule.count
  nextPid : after.schedule.nextPid = links.schedule.nextPid + 1
  link : after.next task = links.schedule.head
  pid : after.pid task = links.schedule.nextPid
  others : ∀ other, other ≠ task → after.next other = links.next other
  pids : ∀ other, other ≠ task → after.pid other = links.pid other

/-- What `os_task_add` does to the links: the task that the walk ends at leads to the new
one. -/
structure Adds (links after : Links) (task : Ptr) : Prop where
  pid : after.pid = links.pid
  head : after.schedule.head = links.schedule.head
  nextPid : after.schedule.nextPid = links.schedule.nextPid
  count : after.schedule.count = links.schedule.count + 1
  empty : links.schedule.count = 0 → after.next = links.next
  link : links.schedule.count ≠ 0 → after.next =
    Function.update links.next
      (links.next^[links.schedule.count.toNat - 1] links.schedule.head) task

section Loading
variable {links after : Links} {created added : List Ptr}

theorem Numbered.create (numbered : Numbered links created) (creates : Creates links after task)
    (known : links.schedule.head ∈ created) (fresh : task ∉ created) :
    Numbered after (created ++ [task]) := by
  have old (member : Ptr) (known : member ∈ created) : after.pid member = links.pid member :=
    creates.pids member (ne_of_mem_of_not_mem known fresh)
  constructor
  · rw [creates.head, old _ known]
    exact numbered.system
  · intro member inside
    rw [creates.nextPid]
    rcases List.mem_append.mp inside with known | added
    · have below := numbered.below member known
      rw [old member known]
      omega
    · rw [List.mem_singleton.mp added, creates.pid]
      omega
  · intro first one second two same
    rcases List.mem_append.mp one with known | added <;>
      rcases List.mem_append.mp two with known' | added'
    · rw [old first known, old second known'] at same
      exact numbered.unique first known second known' same
    · have below := numbered.below first known
      rw [List.mem_singleton.mp added', old first known, creates.pid] at same
      omega
    · have below := numbered.below second known'
      rw [List.mem_singleton.mp added, old second known', creates.pid] at same
      omega
    · rw [List.mem_singleton.mp added, List.mem_singleton.mp added']

theorem Chained.create (chained : Chained links created added) (creates : Creates links after task)
    (fresh : task ∉ created) (allocated : task ≠ 0) : Chained after (created ++ [task]) added := by
  have old (member : Ptr) (known : member ∈ created) : after.next member = links.next member :=
    creates.others member (ne_of_mem_of_not_mem known fresh)
  refine ⟨?_, chained.once, ?_, ?_, ?_, ?_, ?_, ?_⟩
  · rw [creates.head]
    exact chained.first
  · exact fun member inside => List.mem_append_left _ (chained.known member inside)
  · simpa [allocated.symm] using chained.allocated
  · intro member inside outside
    rw [creates.head]
    rcases List.mem_append.mp inside with known | added
    · rw [old member known]
      exact chained.waiting member known outside
    · rw [List.mem_singleton.mp added]
      exact creates.link
  · intro before member rest split
    rw [creates.head, old member (chained.known member (by simp [split]))]
    exact chained.onward before member rest split
  · intro short
    obtain ⟨ring, counted⟩ := chained.ring short
    rw [creates.head, creates.count]
    exact ⟨ring.congr fun member inside => old member (chained.known member inside), counted⟩
  · exact chained.numbered.create creates (chained.known _ chained.head_mem) fresh

theorem Chained.iterate_mem (chained : Chained links created added) (member : task ∈ added)
    (count : Nat) :
    links.next^[count] task ∈ added := by
  induction count generalizing task with
  | zero => exact member
  | succ count ih => exact ih (chained.next_mem member)

/-- A link that changes belongs to a task of the schedule and leads to the new one. -/
theorem Adds.next_cases (adds : Adds links after task) (chained : Chained links created added)
    (member : Ptr) :
    after.next member = links.next member ∨ member ∈ added ∧ after.next member = task := by
  by_cases empty : links.schedule.count = 0
  · rw [adds.empty empty]
    exact Or.inl rfl
  · rw [adds.link empty]
    by_cases tail : member = links.next^[links.schedule.count.toNat - 1] links.schedule.head
    · right
      rw [tail, Function.update_self]
      exact ⟨chained.iterate_mem chained.head_mem _, rfl⟩
    · exact Or.inl (Function.update_of_ne tail _ _)

/-- While the counter can count the tasks, the walk ends at the last one. -/
theorem Chained.ring_add (chained : Chained links created added) (adds : Adds links after task)
    (known : task ∈ created) (fresh : task ∉ added) (short : added.length < 255) :
    Ring after.next after.schedule.head (added ++ [task]) ∧
      after.schedule.count.toNat = (added ++ [task]).length := by
  obtain ⟨ring, counted⟩ := chained.ring (Nat.le_of_lt short)
  constructor
  · obtain ⟨nodes, last, rfl⟩ := (List.eq_nil_or_concat' added).resolve_left ring.nonempty
    rw [List.length_append, List.length_singleton] at counted
    have running : links.schedule.count ≠ 0 := by
      intro zero
      rw [zero] at counted
      exact absurd counted (Nat.succ_ne_zero _).symm
    have tail : links.next^[links.schedule.count.toNat - 1] links.schedule.head = last := by
      rw [counted]
      exact ring.iterate_last
    have linked := adds.link running
    rw [tail] at linked
    have distinct := ring.distinct
    rw [List.nodup_append] at distinct
    rw [adds.head, linked]
    apply ring.snoc fresh
    · intro other inside
      exact Function.update_of_ne (distinct.2.2 other inside last (by simp)) _ _
    · exact Function.update_self _ _ _
    · rw [Function.update_of_ne (by simpa using fun same => fresh (by simp [same]))]
      exact chained.waiting task known fresh
  · rw [adds.count, BitVec.toNat_add, counted, List.length_append]
    change (added.length + 1) % 256 = added.length + 1
    omega

theorem Chained.add (chained : Chained links created added) (adds : Adds links after task)
    (known : task ∈ created) (fresh : task ∉ added) : Chained after created (added ++ [task]) := by
  refine ⟨?_, ?_, ?_, chained.allocated, ?_, ?_, ?_, ?_⟩
  · obtain ⟨rest, first⟩ := chained.first
    exact ⟨rest ++ [task], by rw [adds.head, first]; rfl⟩
  · rw [List.nodup_append]
    refine ⟨chained.once, List.nodup_singleton _, fun member inside other new => ?_⟩
    rw [List.mem_singleton.mp new]
    exact ne_of_mem_of_not_mem inside fresh
  · intro member inside
    rcases List.mem_append.mp inside with old | new
    · exact chained.known member old
    · rwa [List.mem_singleton.mp new]
  · intro member inside outside
    rw [List.mem_append, not_or] at outside
    rw [adds.head]
    rcases adds.next_cases chained member with same | ⟨old, _⟩
    · rw [same]
      exact chained.waiting member inside outside.1
    · exact absurd old outside.1
  · intro before member rest split
    rw [adds.head]
    rcases List.eq_nil_or_concat' rest with rfl | ⟨rest, last, rfl⟩
    · obtain ⟨rfl, rfl⟩ : added = before ∧ task = member := by simpa using split
      rcases adds.next_cases chained task with same | ⟨old, _⟩
      · exact Or.inl (same.trans (chained.waiting task known fresh))
      · exact absurd old fresh
    · rw [← List.cons_append, ← List.append_assoc] at split
      obtain ⟨rfl, ends⟩ := List.append_inj' split rfl
      obtain rfl := List.singleton_inj.mp ends
      rcases adds.next_cases chained member with same | ⟨_, linked⟩
      · rw [same]
        exact (chained.onward before member rest rfl).imp_right (List.mem_append_left _)
      · exact Or.inr (linked ▸ List.mem_append_right _ List.mem_cons_self)
  · intro short
    rw [List.length_append, List.length_singleton] at short
    exact chained.ring_add adds known fresh short
  · obtain ⟨system, below, unique⟩ := chained.numbered
    exact ⟨by rwa [adds.pid, adds.head], by rwa [adds.pid, adds.nextPid], by rwa [adds.pid]⟩

end Loading

section Steps
variable {m after : Machine}

theorem osTaskCreate_creates (image : Image) (s : OsState) (task stack : Ptr) (entry exit : Word)
    (header size : Nat) :
    Creates s.links (osTaskCreate image s (some task) (some stack) entry exit header size).2.links
      task where
  head := rfl
  count := rfl
  nextPid := rfl
  link := by simp [osTaskCreate, OsState.links, OsState.next]
  pid := by simp [osTaskCreate, OsState.links, OsState.pid]
  others := fun other distinct => by simp [osTaskCreate, OsState.links, OsState.next, distinct]
  pids := fun other distinct => by simp [osTaskCreate, OsState.links, OsState.pid, distinct]

theorem osTaskAdd_adds (s : OsState) (task : Ptr) :
    Adds s.links (osTaskAdd s task).2.links task := by
  by_cases empty : s.schedule.count = 0
  · have same : (osTaskAdd s task).2.links =
        ⟨s.next, s.pid, { s.schedule with count := s.schedule.count + 1 }⟩ := by
      simp only [osTaskAdd, if_pos empty]
      rfl
    rw [same]
    exact ⟨rfl, rfl, rfl, rfl, fun _ => rfl, fun counted => absurd empty counted⟩
  · have same : (osTaskAdd s task).2.links =
        ⟨Function.update s.next (s.next^[s.schedule.count.toNat - 1] s.schedule.head) task, s.pid,
          { s.schedule with count := s.schedule.count + 1 }⟩ := by
      simp only [osTaskAdd, if_neg empty]
      exact congrArg₂ (fun next pid =>
        (⟨next, pid, { s.schedule with count := s.schedule.count + 1 }⟩ : Links))
        (next_setNext s) (pid_setNext s)
    rw [same]
    exact ⟨rfl, rfl, rfl, rfl, fun zero => absurd zero empty, fun _ => rfl⟩

/-- Of the records, `os_task_add` changes links only. -/
theorem osTaskAdd_field (s : OsState) (task : Ptr) (field : OsTask → β)
    (unlinked : ∀ record next, field { record with next } = field record) :
    field ∘ (osTaskAdd s task).2.tasks = field ∘ s.tasks := by
  by_cases empty : s.schedule.count = 0
  · rw [osTaskAdd, if_pos empty]
  · rw [osTaskAdd, if_neg empty]
    exact frame_store s.tasks field (unlinked _ _)

/-- What `os_task_add` does not touch at all. -/
theorem osTaskAdd_frame (s : OsState) (task : Ptr) :
    (osTaskAdd s task).2.memory = s.memory ∧
      ((osTaskAdd s task).2.osCurrentTask, (osTaskAdd s task).2.osNextTask,
        (osTaskAdd s task).2.pendsvset) =
        (s.osCurrentTask, s.osNextTask, s.pendsvset) := by
  by_cases empty : s.schedule.count = 0
  · rw [osTaskAdd, if_pos empty]
    exact ⟨rfl, rfl⟩
  · rw [osTaskAdd, if_neg empty]
    exact ⟨rfl, rfl⟩

theorem boot_sound (image : Image) (tasks : Ptr → OsTask) (memory : Memory) (stack : Ptr)
    (regs : Registers)
    (allocated : task ≠ 0) : Sound (boot image tasks memory task stack regs) := by
  have kernel := osSchedulerInit_kernel image tasks memory task stack
  have next : (osSchedulerInit image tasks memory task stack).next task = task :=
    congrArg OsTask.next kernel
  have pid : (osSchedulerInit image tasks memory task stack).pid task = 0 :=
    congrArg OsTask.pid kernel
  refine ⟨⟨⟨[], rfl⟩, List.nodup_singleton _, fun _ member => member, ?_, ?_, ?_, ?_, ?_⟩,
    ⟨?_, Or.inl List.mem_cons_self, Or.inr ⟨rfl, rfl⟩⟩⟩
  · simpa [boot] using allocated.symm
  · exact fun member inside outside => absurd inside outside
  · intro before member rest split
    have inside : member ∈ [task] := by
      rw [show [task] = before ++ member :: rest from split]
      simp
    rw [List.mem_singleton.mp inside]
    exact Or.inl next
  · exact fun _ => ⟨⟨⟨rfl, next⟩, List.cons_ne_nil _ _, List.nodup_singleton _⟩, rfl⟩
  · refine ⟨pid, fun member inside => ?_, fun first one second two _ => ?_⟩
    · rw [List.mem_singleton.mp inside]
      exact lt_of_eq_of_lt pid Int.zero_lt_one
    · rw [List.mem_singleton.mp one, List.mem_singleton.mp two]
  · change ((osSchedulerInit image tasks memory task stack).tasks task).status ≠ .paused
    rw [kernel]
    simp

theorem switch_links (m : Machine) : m.switch.os.links = m.os.links := by
  have next : m.switch.os.next = m.os.next := frame_store m.os.tasks OsTask.next rfl
  have pid : m.switch.os.pid = m.os.pid := frame_store m.os.tasks OsTask.pid rfl
  rw [OsState.links, next, pid]
  rfl

theorem switch_status (m : Machine) : m.switch.os.status = m.os.status :=
  frame_store m.os.tasks OsTask.status rfl

/-- Every step keeps the schedule sound. -/
theorem Sound.act (sound : Sound m) (step : act image fuel m action = some after) :
    Sound after := by
  obtain ⟨chained, pointed⟩ := sound
  cases action with
  | create taskBlock stackBlock entry header =>
    rcases act_create step with rfl | ⟨task, stack, ⟨allocated, fresh, _⟩, rfl⟩
    · exact ⟨chained, pointed⟩
    · have creates := osTaskCreate_creates image m.os task stack entry image.osAppExit header
        applicationStackSizeWords
      have head : m.os.schedule.head ≠ task :=
        ne_of_mem_of_not_mem (chained.known _ chained.head_mem) fresh
      refine ⟨chained.create creates fresh allocated,
        pointed.extend (fun _ member => member) rfl ?_ rfl⟩
      simp [osTaskCreate, OsState.status, head]
  | add task =>
    obtain ⟨⟨known, fresh⟩, rfl⟩ := act_add step
    have adds := osTaskAdd_adds m.os task
    have status := osTaskAdd_field m.os task OsTask.status fun _ _ => rfl
    exact ⟨chained.add adds known fresh, pointed.extend (List.subset_append_left _ _) adds.head
      (congrFun status _) (osTaskAdd_frame m.os task).2⟩
  | next =>
    obtain ⟨os, next, rfl⟩ := Option.map_eq_some_iff.mp step
    exact ⟨(links_of_layout (osTaskNext_layout _ next)).symm ▸ chained,
      (pointed.osTaskNext chained next).1⟩
  | pause pid =>
    obtain ⟨⟨status, os⟩, paused, rfl⟩ := Option.map_eq_some_iff.mp step
    exact ⟨(links_of_layout (osTaskPause_layout paused)).symm ▸ chained,
      pointed.osTaskPause chained paused⟩
  | resume pid =>
    obtain ⟨⟨status, os⟩, resumed, rfl⟩ := Option.map_eq_some_iff.mp step
    exact ⟨(links_of_layout (osTaskResume_layout resumed)).symm ▸ chained,
      pointed.osTaskResume chained resumed⟩
  | systick =>
    obtain ⟨os, next, rfl⟩ := Option.map_eq_some_iff.mp step
    exact ⟨(links_of_layout (osTaskNext_layout _ next)).symm ▸ chained,
      (pointed.osTaskNext chained next).1⟩
  | pendsv =>
    obtain ⟨pending, rfl⟩ := act_pendsv step
    have selected := pointed.pending pending
    refine ⟨(switch_links m).symm ▸ chained, ?_, Or.inl selected, Or.inl selected⟩
    rw [switch_status]
    exact pointed.awake
  | execute cpu memory =>
    obtain ⟨_, rfl⟩ := act_execute step
    exact ⟨chained, pointed.extend (fun _ member => member) rfl rfl rfl⟩

/-- Only loading changes links, numbers and the lists of tasks. -/
theorem act_links (step : act image fuel m action = some after) (other : ¬ action.Loads) :
    after.os.links = m.os.links ∧ after.created = m.created ∧ after.added = m.added := by
  cases action with
  | create taskBlock stackBlock entry header => exact absurd trivial other
  | add task => exact absurd trivial other
  | next | systick =>
    obtain ⟨os, next, rfl⟩ := Option.map_eq_some_iff.mp step
    exact ⟨links_of_layout (osTaskNext_layout _ next), rfl, rfl⟩
  | pause pid =>
    obtain ⟨⟨status, os⟩, paused, rfl⟩ := Option.map_eq_some_iff.mp step
    exact ⟨links_of_layout (osTaskPause_layout paused), rfl, rfl⟩
  | resume pid =>
    obtain ⟨⟨status, os⟩, resumed, rfl⟩ := Option.map_eq_some_iff.mp step
    exact ⟨links_of_layout (osTaskResume_layout resumed), rfl, rfl⟩
  | pendsv =>
    obtain ⟨_, rfl⟩ := act_pendsv step
    exact ⟨switch_links m, rfl, rfl⟩
  | execute cpu memory =>
    obtain ⟨_, rfl⟩ := act_execute step
    exact ⟨rfl, rfl, rfl⟩

/-- Tasks are only ever appended to the schedule. -/
theorem act_added (step : act image fuel m action = some after) : m.added <+: after.added := by
  cases action with
  | create taskBlock stackBlock entry header =>
    rcases act_create step with rfl | ⟨task, stack, _, rfl⟩
    · exact List.prefix_rfl
    · exact List.prefix_rfl
  | add task =>
    obtain ⟨_, rfl⟩ := act_add step
    exact List.prefix_append _ _
  | next | pause pid | resume pid | systick | pendsv | execute cpu memory =>
    rw [(act_links step id).2.2]

/-- Pids are never reassigned. -/
theorem act_pid (known : task ∈ m.created) (step : act image fuel m action = some after) :
    after.os.pid task = m.os.pid task := by
  cases action with
  | create taskBlock stackBlock entry header =>
    rcases act_create step with rfl | ⟨new, stack, ⟨_, fresh, _⟩, rfl⟩
    · rfl
    · exact (osTaskCreate_creates image m.os new stack entry image.osAppExit header _).pids task
        (ne_of_mem_of_not_mem known fresh)
  | add new =>
    obtain ⟨_, rfl⟩ := act_add step
    exact congrFun (osTaskAdd_adds m.os new).pid task
  | next | pause pid | resume pid | systick | pendsv | execute cpu memory =>
    exact congrArg (fun links => links.pid task) (act_links step id).1

theorem Boots.sound (boots : Boots image m) : Sound m := by
  obtain ⟨tasks, memory, task, stack, regs, allocated, rfl⟩ := boots
  exact boot_sound image tasks memory stack regs allocated

theorem Sound.runs (sound : Sound m) (run : Runs image allowed m after) :
    Sound after ∧ m.added <+: after.added := by
  induction run with
  | refl => exact ⟨sound, List.prefix_rfl⟩
  | tail _ step ih =>
    obtain ⟨fuel, action, _, step⟩ := step
    exact ⟨ih.1.act step, ih.2.trans (act_added step)⟩

theorem Sound.scheduled (sound : Sound m) (few : m.added.length ≤ 255) :
    Scheduled m.os m.added := by
  obtain ⟨ring, counted⟩ := sound.chained.ring few
  exact ⟨ring, counted, fun null => sound.chained.ne_zero null rfl⟩

end Steps

/-- The schedule after any run from `os_scheduler_init`. -/
theorem task_ring (boots : Boots image start) (run : Runs image anyStep start m)
    (few : m.added.length ≤ 255) :
    Scheduled m.os m.added ∧ m.os.schedule.head = start.executing ∧
      m.os.pid m.os.schedule.head = 0 ∧ m.os.status m.os.schedule.head ≠ .paused ∧
      (m.added.map m.os.pid).Nodup ∧
      (m.os.osCurrentTask = 0 ∨ m.os.osCurrentTask ∈ m.added) ∧
      (m.os.osNextTask = 0 ∨ m.os.osNextTask ∈ m.added) ∧
      (∀ pid, (∃ task ∈ m.added, m.os.pid task = pid ∧ osTaskFromPid m.os pid = task) ∨
        (∀ task ∈ m.added, m.os.pid task ≠ pid) ∧ osTaskFromPid m.os pid = 0) ∧
      (osTaskNext m.added.length m.os).isSome := by
  obtain ⟨sound, older⟩ := boots.sound.runs run
  have scheduled := sound.scheduled few
  obtain ⟨chained, pointed⟩ := sound
  have head : m.os.schedule.head = start.executing := by
    obtain ⟨tasks, memory, task, stack, regs, _, rfl⟩ := boots
    obtain ⟨rest, first⟩ := chained.first
    obtain ⟨later, split⟩ := older
    exact (List.cons.inj (split.trans first)).1.symm
  refine ⟨scheduled, head, chained.numbered.system, pointed.awake, ?_, ?_, ?_, scheduled.fromPid,
    pointed.osTaskNext_returns chained few⟩
  · exact chained.once.map_on fun first one second two same =>
      chained.numbered.unique first (chained.known first one) second (chained.known second two) same
  · exact pointed.current.symm.imp_left And.left
  · exact pointed.selected.symm.imp_left And.left

theorem application_joins_ring :
    ∃ m, actAll plainImage 2 booted loadApplication = some m ∧ m.added.length ≤ 255 ∧
      Scheduled m.os [1, 2] := by
  have added : (actAll plainImage 2 booted loadApplication).map Machine.added = some [1, 2] := by
    decide +kernel
  obtain ⟨m, ran, added⟩ := Option.map_eq_some_iff.mp added
  have few : m.added.length ≤ 255 := by simp [added]
  have scheduled := (task_ring booted_boots (actAll_runs (fun _ _ _ => trivial) ran) few).1
  rw [added] at scheduled
  exact ⟨m, ran, few, scheduled⟩

end Flipper.Os
