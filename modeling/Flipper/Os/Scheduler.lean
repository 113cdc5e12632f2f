import Flipper.Fmr.Error
import Flipper.Linked.Ring

/-! The scheduler of `os/arch/armv7/scheduler.c`: task records linked into a ring, two
global task pointers, and the request for the PendSV exception that switches between them. -/
namespace Flipper.Os
open Linked Fmr

/-- Addresses of records; 0 is `NULL`. A store through `NULL` reaches a record that is no
task. -/
abbrev Ptr := Nat

abbrev Word := BitVec 32

/-- The memory of the stacks. The stack pointer is always word aligned, so addresses in it
count words. -/
abbrev Memory := Nat → Word

/-- `stmia address!, {words}`. -/
def stmia (memory : Memory) (address : Nat) (words : List Word) : Memory := fun i =>
  if address ≤ i then words[i - address]?.getD (memory i) else memory i

inductive OsTaskStatus where
  | unallocated | idle | active | paused
  deriving DecidableEq

structure OsTask where
  sp : Nat
  pid : Int
  handler : Word
  status : OsTaskStatus
  stack : Ptr
  exit : Word
  header : Ptr
  next : Ptr
  deriving DecidableEq

structure OsSchedule where
  nextPid : Int
  head : Ptr
  count : BitVec 8
  deriving DecidableEq

/-- The globals of the scheduler, the task records, the stacks and the pending bit of
PendSV. -/
structure OsState where
  tasks : Ptr → OsTask
  memory : Memory
  schedule : OsSchedule
  osCurrentTask : Ptr
  osNextTask : Ptr
  pendsvset : Bool

namespace OsState

def next (s : OsState) (task : Ptr) : Ptr := (s.tasks task).next

def status (s : OsState) (task : Ptr) : OsTaskStatus := (s.tasks task).status

def pid (s : OsState) (task : Ptr) : Int := (s.tasks task).pid

def runnable (s : OsState) (task : Ptr) : Bool := s.status task ≠ .paused

def setStatus (s : OsState) (task : Ptr) (status : OsTaskStatus) : OsState :=
  { s with tasks := Function.update s.tasks task { s.tasks task with status } }

def setSp (s : OsState) (task : Ptr) (sp : Nat) : OsState :=
  { s with tasks := Function.update s.tasks task { s.tasks task with sp } }

def setNext (s : OsState) (task next : Ptr) : OsState :=
  { s with tasks := Function.update s.tasks task { s.tasks task with next } }

end OsState

/-- Addresses the linker gives to the functions that end up in task records and frames. -/
structure Image where
  osKernelTask : Word
  osTaskFinished : Word
  osAppExit : Word

def stackCtxSize : Nat := 8

def taskCtxSize : Nat := 8

def osTaskAdd (s : OsState) (task : Ptr) : Int × OsState :=
  let linked :=
    if s.schedule.count = 0 then s
    else s.setNext (s.next^[s.schedule.count.toNat - 1] s.schedule.head) task
  (lfSuccess,
    { linked with schedule := { linked.schedule with count := linked.schedule.count + 1 } })

/-- `os_task_create`, given what its two allocations return. -/
def osTaskCreate (image : Image) (s : OsState) (taskBlock stackBlock : Option Ptr)
    (entry exit : Word) (header : Ptr) (stackSize : Nat) : Ptr × OsState :=
  match taskBlock, stackBlock with
  | some task, some stack =>
    let frame := stack + stackSize - stackCtxSize
    -- lr, pc and psr are the last three of the eight words; the others keep what malloc left.
    let memory := stmia s.memory (frame + 5) [image.osTaskFinished, entry, 0x01000000]
    let sp := frame - taskCtxSize
    let memory := stmia memory sp [4, 5, 6, 7, 8, 9, 10, 11]
    let record : OsTask :=
      { sp, pid := s.schedule.nextPid, handler := entry, status := .idle, stack, exit, header,
        next := s.schedule.head }
    (task, { s with
      tasks := Function.update s.tasks task record
      memory
      schedule := { s.schedule with nextPid := s.schedule.nextPid + 1 } })
  | _, _ => (0, s)

/-- The first part of `os_task_next`: the running task, if there is one, becomes idle and
the search starts behind it. -/
def leaveCurrent (s : OsState) : OsState :=
  if s.osCurrentTask ≠ 0 then
    { s.setStatus s.osCurrentTask .idle with osNextTask := s.next s.osCurrentTask }
  else s

def select (s : OsState) (task : Ptr) : OsState :=
  { s.setStatus task .active with osNextTask := task, pendsvset := true }

/-- `os_task_next`. It does not return when the search for a task that is not paused never
ends. -/
def osTaskNext (fuel : Nat) (s : OsState) : Option OsState :=
  let s := leaveCurrent s
  (seek s.next s.runnable fuel s.osNextTask).map (select s)

def osUpdateTaskPointers (s : OsState) : OsState := { s with osCurrentTask := s.osNextTask }

def osTaskFromPid (s : OsState) (pid : Int) : Ptr :=
  (seek s.next (fun task => s.pid task = pid) s.schedule.count.toNat s.schedule.head).getD 0

def osTaskPause (fuel : Nat) (s : OsState) (pid : Int) : Option (Int × OsState) :=
  if pid = 0 then some (lfError, s)
  else
    let task := osTaskFromPid s pid
    if task = 0 then some (lfError, s)
    else do
      let s ← if s.osCurrentTask = task then osTaskNext fuel s else some s
      some (lfSuccess, s.setStatus task .paused)

def osTaskResume (fuel : Nat) (s : OsState) (pid : Int) : Option (Int × OsState) :=
  if pid = 0 then some (lfError, s)
  else
    let task := osTaskFromPid s pid
    if task = 0 then some (lfError, s)
    else do
      let s := s.setStatus task .idle
      let s := s.setStatus s.osCurrentTask .idle
      let s ← osTaskNext fuel { s with osCurrentTask := 0, osNextTask := task }
      some (lfSuccess, s)

/-- What a release does outside the scheduler, in order. -/
inductive ReleaseEvent where
  | exit (function : Word) (header : Ptr)
  | free (block : Ptr)
  deriving DecidableEq

structure Released where
  status : Int
  os : OsState
  events : List ReleaseEvent

/-- The loop over `parent`, which stands at the head throughout. -/
def unlinkFrom (s : OsState) (parent task : Ptr) : Nat → OsState
  | 0 => s
  | remaining + 1 =>
    if s.next parent = task then s.setNext parent (s.next task)
    else unlinkFrom s parent task remaining

/-- The released task was the running one: move on to the task after it. -/
def moveOn (fuel : Nat) (s : OsState) (task : Ptr) : Option OsState :=
  if task = s.osCurrentTask then
    osTaskNext fuel { s with osCurrentTask := 0, osNextTask := s.next task }
  else some s

/-- The exit function runs, then the stack and the record are freed. -/
def releaseEvents (task : Ptr) (record : OsTask) : List ReleaseEvent :=
  (if record.exit ≠ 0 then [.exit record.exit record.header] else []) ++
    (if record.stack ≠ 0 then [.free record.stack] else []) ++ [.free task]

def uncount (s : OsState) : OsState :=
  { s with schedule := { s.schedule with count := s.schedule.count - 1 } }

def osTaskRelease (fuel : Nat) (s : OsState) (task : Ptr) : Option Released :=
  if task = 0 ∨ task = s.schedule.head then some ⟨lfError, s, []⟩
  else
    let unlinked := unlinkFrom s s.schedule.head task s.schedule.count.toNat
    (moveOn fuel unlinked task).map fun after =>
      ⟨lfSuccess, uncount after, releaseEvents task (s.tasks task)⟩

def osTaskStop (fuel : Nat) (s : OsState) (pid : Int) : Option Released :=
  if pid = 0 then some ⟨lfError, s, []⟩ else osTaskRelease fuel s (osTaskFromPid s pid)

def kernelTaskStackSizeWords : Nat := 128

def applicationStackSizeWords : Nat := 256

/-- `os_scheduler_init` up to the call of the kernel task, given its two allocations. The
records and the memory it finds are arbitrary. -/
def osSchedulerInit (image : Image) (tasks : Ptr → OsTask) (memory : Memory) (task stack : Ptr) :
    OsState :=
  let s : OsState := ⟨tasks, memory, ⟨0, 0, 0⟩, 0, 0, false⟩
  let (task, s) := osTaskCreate image s (some task) (some stack) image.osKernelTask 0 0
    kernelTaskStackSizeWords
  let s := (osTaskAdd s task).2
  let s := { s with osCurrentTask := task, schedule := { s.schedule with head := task } }
  s.setNext task task

def systickException (fuel : Nat) (s : OsState) : Option OsState := osTaskNext fuel s

/-- Following `next` from the head visits exactly `count` distinct tasks. -/
structure Scheduled (s : OsState) (tasks : List Ptr) : Prop where
  ring : Ring s.next s.schedule.head tasks
  counted : s.schedule.count.toNat = tasks.length
  allocated : 0 ∉ tasks

section Stores
variable (s : OsState)

/-- A store to a record leaves the fields that it does not name. -/
theorem frame_store (tasks : Ptr → OsTask) (field : OsTask → β)
    (same : field record = field (tasks task)) :
    field ∘ Function.update tasks task record = field ∘ tasks := by
  rw [Function.comp_update, same]
  exact Function.update_eq_self _ _

@[simp] theorem status_setStatus :
    (s.setStatus task status).status = Function.update s.status task status :=
  Function.comp_update OsTask.status _ _ _

@[simp] theorem next_setNext : (s.setNext task next).next = Function.update s.next task next :=
  Function.comp_update OsTask.next _ _ _

@[simp] theorem pid_setNext : (s.setNext task next).pid = s.pid :=
  frame_store s.tasks OsTask.pid rfl

end Stores

def OsTask.unmarked (record : OsTask) : OsTask := { record with status := .unallocated }

/-- All of the state but the statuses, the two task pointers and the pending bit. -/
structure Layout where
  records : Ptr → OsTask
  memory : Memory
  schedule : OsSchedule

def OsState.layout (s : OsState) : Layout := ⟨OsTask.unmarked ∘ s.tasks, s.memory, s.schedule⟩

structure Links where
  next : Ptr → Ptr
  pid : Ptr → Int
  schedule : OsSchedule

def OsState.links (s : OsState) : Links := ⟨s.next, s.pid, s.schedule⟩

section Layout
variable {s after : OsState}

theorem layout_setStatus (s : OsState) : (s.setStatus task status).layout = s.layout := by
  have records : OsTask.unmarked ∘ (s.setStatus task status).tasks = OsTask.unmarked ∘ s.tasks :=
    frame_store s.tasks OsTask.unmarked rfl
  rw [OsState.layout, records]
  rfl

theorem next_of_layout (same : after.layout = s.layout) : after.next = s.next :=
  congrArg (fun layout task => (layout.records task).next) same

theorem links_of_layout (same : after.layout = s.layout) : after.links = s.links :=
  congrArg (fun layout => (⟨fun task => (layout.records task).next,
    fun task => (layout.records task).pid, layout.schedule⟩ : Links)) same

end Layout

section Next
variable (s : OsState)

theorem leaveCurrent_running (running : s.osCurrentTask ≠ 0) :
    leaveCurrent s =
      { s.setStatus s.osCurrentTask .idle with osNextTask := s.next s.osCurrentTask } :=
  if_pos running

theorem leaveCurrent_null (null : s.osCurrentTask = 0) : leaveCurrent s = s :=
  if_neg (not_not_intro null)

theorem layout_leaveCurrent : (leaveCurrent s).layout = s.layout := by
  by_cases null : s.osCurrentTask = 0
  · rw [leaveCurrent_null s null]
  · rw [leaveCurrent_running s null]
    exact layout_setStatus s

theorem layout_select : (select s task).layout = s.layout := layout_setStatus s

@[simp] theorem next_leaveCurrent : (leaveCurrent s).next = s.next :=
  next_of_layout (layout_leaveCurrent s)

@[simp] theorem next_select : (select s task).next = s.next := next_of_layout (layout_select s)

@[simp] theorem status_select : (select s task).status = Function.update s.status task .active :=
  status_setStatus s

/-- What `os_task_next` does, when it returns. -/
theorem osTaskNext_some {after : OsState} (returned : osTaskNext fuel s = some after) :
    ∃ found, seek s.next (leaveCurrent s).runnable fuel (leaveCurrent s).osNextTask = some found ∧
      after = select (leaveCurrent s) found := by
  obtain ⟨found, sought, rfl⟩ := Option.map_eq_some_iff.mp returned
  rw [next_leaveCurrent] at sought
  exact ⟨found, sought, rfl⟩

theorem osTaskNext_layout {after : OsState} (returned : osTaskNext fuel s = some after) :
    after.layout = s.layout := by
  obtain ⟨found, _, rfl⟩ := osTaskNext_some s returned
  exact (layout_select _).trans (layout_leaveCurrent s)

end Next

section Calls
variable {s after : OsState}

/-- What a call of `os_task_pause` does, when it returns. -/
theorem osTaskPause_some (returned : osTaskPause fuel s pid = some (status, after)) :
    (status = lfError ∧ after = s ∧ (pid = 0 ∨ osTaskFromPid s pid = 0)) ∨
    (status = lfSuccess ∧ pid ≠ 0 ∧ osTaskFromPid s pid ≠ 0 ∧ ∃ moved,
      after = moved.setStatus (osTaskFromPid s pid) .paused ∧
      (s.osCurrentTask = osTaskFromPid s pid ∧ osTaskNext fuel s = some moved ∨
        s.osCurrentTask ≠ osTaskFromPid s pid ∧ moved = s)) := by
  rw [osTaskPause] at returned
  split at returned
  case isTrue system =>
    cases returned
    exact Or.inl ⟨rfl, rfl, Or.inl system⟩
  case isFalse user =>
    dsimp only at returned
    split at returned
    case isTrue missing =>
      cases returned
      exact Or.inl ⟨rfl, rfl, Or.inr missing⟩
    case isFalse found =>
      right
      split at returned
      case isTrue running =>
        obtain ⟨moved, next, same⟩ := Option.bind_eq_some_iff.mp returned
        cases same
        exact ⟨rfl, user, found, moved, rfl, Or.inl ⟨running, next⟩⟩
      case isFalse other =>
        cases returned
        exact ⟨rfl, user, found, s, rfl, Or.inr ⟨other, rfl⟩⟩

/-- The state in which `os_task_resume` calls `os_task_next`. -/
def resuming (s : OsState) (task : Ptr) : OsState :=
  { (s.setStatus task .idle).setStatus s.osCurrentTask .idle with
    osCurrentTask := 0
    osNextTask := task }

theorem osTaskResume_some (returned : osTaskResume fuel s pid = some (status, after)) :
    (status = lfError ∧ after = s ∧ (pid = 0 ∨ osTaskFromPid s pid = 0)) ∨
    (status = lfSuccess ∧ pid ≠ 0 ∧ osTaskFromPid s pid ≠ 0 ∧
      osTaskNext fuel (resuming s (osTaskFromPid s pid)) = some after) := by
  rw [osTaskResume] at returned
  split at returned
  case isTrue system =>
    cases returned
    exact Or.inl ⟨rfl, rfl, Or.inl system⟩
  case isFalse user =>
    dsimp only at returned
    split at returned
    case isTrue missing =>
      cases returned
      exact Or.inl ⟨rfl, rfl, Or.inr missing⟩
    case isFalse found =>
      obtain ⟨moved, next, same⟩ := Option.bind_eq_some_iff.mp returned
      cases same
      exact Or.inr ⟨rfl, user, found, next⟩

theorem resuming_layout (s : OsState) (task : Ptr) : (resuming s task).layout = s.layout :=
  (layout_setStatus _).trans (layout_setStatus s)

theorem osTaskPause_layout (returned : osTaskPause fuel s pid = some (status, after)) :
    after.layout = s.layout := by
  rcases osTaskPause_some returned with ⟨_, rfl, _⟩ | ⟨_, _, _, moved, rfl, ⟨_, next⟩ | ⟨_, rfl⟩⟩
  · rfl
  · exact (layout_setStatus moved).trans (osTaskNext_layout s next)
  · exact layout_setStatus moved

theorem osTaskResume_layout (returned : osTaskResume fuel s pid = some (status, after)) :
    after.layout = s.layout := by
  rcases osTaskResume_some returned with ⟨_, rfl, _⟩ | ⟨_, _, _, next⟩
  · rfl
  · exact (osTaskNext_layout _ next).trans (resuming_layout s _)

/-- A pid is found at a task of the ring that has it, if there is one. -/
theorem Scheduled.fromPid (scheduled : Scheduled s tasks) (pid : Int) :
    (∃ task ∈ tasks, s.pid task = pid ∧ osTaskFromPid s pid = task) ∨
      (∀ task ∈ tasks, s.pid task ≠ pid) ∧ osTaskFromPid s pid = 0 := by
  rw [osTaskFromPid, scheduled.counted, scheduled.ring.path.seek]
  cases found : tasks.find? fun node => s.pid node = pid with
  | none =>
    rw [List.find?_eq_none] at found
    exact Or.inr ⟨fun task member same => found task member (decide_eq_true same), rfl⟩
  | some task =>
    have matched := List.find?_some found
    exact Or.inl ⟨task, List.mem_of_find?_eq_some found, of_decide_eq_true matched, rfl⟩

end Calls

/-- A record with nothing but a pid and a successor. -/
def idleTask (pid : Int) (next : Ptr) : OsTask :=
  { sp := 0, pid, handler := 0, status := .idle, stack := 0, exit := 0, header := 0, next }

def threeTasks : OsState where
  tasks
    | 1 => idleTask 0 2
    | 2 => idleTask 1 3
    | 3 => idleTask 2 1
    | _ => idleTask 0 0
  memory _ := 0
  schedule := ⟨3, 1, 3⟩
  osCurrentTask := 1
  osNextTask := 1
  pendsvset := false

theorem threeTasks_scheduled : Scheduled threeTasks [1, 2, 3] :=
  ⟨⟨by decide, by decide, by decide⟩, rfl, by decide⟩

end Flipper.Os
