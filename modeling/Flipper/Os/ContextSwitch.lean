import Flipper.Os.TaskRing

/-! What PendSV saves and what it restores. The C code and the assembly agree on the task to
save through `os_current_task`, which `os_task_resume` sets to `NULL` before the switch. -/
namespace Flipper.Os
open Linked Fmr

section Memory
variable (memory : Memory)

theorem stmia_outside (outside : i < address ∨ address + words.length ≤ i) :
    stmia memory address words i = memory i := by
  unfold stmia
  split
  · rw [List.getElem?_eq_none (by omega)]
    rfl
  · rfl

theorem loadContext_congr {other : Memory} (same : ∀ i < 8, other (sp + i) = memory (sp + i)) :
    loadContext other sp = loadContext memory sp := by
  have first : other sp = memory sp := same 0 (by decide)
  simp only [loadContext, first, same 1 (by decide), same 2 (by decide), same 3 (by decide),
    same 4 (by decide), same 5 (by decide), same 6 (by decide), same 7 (by decide)]

/-- The stack of the running task after PendSV has pushed its registers. -/
def pushed (cpu : Context) : Memory :=
  stmia (stmia memory (cpu.psp - 4) [cpu.regs.r4, cpu.regs.r5, cpu.regs.r6, cpu.regs.r7])
    (cpu.psp - 8) [cpu.regs.r8, cpu.regs.r9, cpu.regs.r10, cpu.regs.r11]

/-- What was pushed is loaded back, each register from its own word. -/
theorem loadContext_pushed (room : 8 ≤ cpu.psp) :
    loadContext (pushed memory cpu) (cpu.psp - 8) = cpu := by
  obtain ⟨⟨r4, r5, r6, r7, r8, r9, r10, r11⟩, psp⟩ := cpu
  obtain ⟨base, rfl⟩ := Nat.exists_eq_add_of_le' (show 8 ≤ psp from room)
  simp [loadContext, pushed, stmia]

theorem pushed_outside (outside : i < cpu.psp - 8 ∨ cpu.psp ≤ i) (room : 8 ≤ cpu.psp) :
    pushed memory cpu i = memory i := by
  rw [pushed, stmia_outside _ (by simp; omega), stmia_outside _ (by simp; omega)]

end Memory

/-- Where a task's stack lies and where its frame starts. -/
structure Frame where
  base : Nat
  top : Nat
  sp : Nat

def Machine.frame (m : Machine) (task : Ptr) : Frame :=
  ⟨m.base task, m.top task, (m.os.tasks task).sp⟩

/-- The stacks lie apart, and each task that was switched out finds its context in its own. -/
structure Stacked (frame : Ptr → Frame) (memory : Memory) (created : List Ptr) (executing : Ptr)
    (cpu : Context) (switchedOut : Ptr → Option Context) : Prop where
  known : executing ∈ created
  room : (frame executing).base + 8 ≤ cpu.psp ∧ cpu.psp ≤ (frame executing).top
  apart : ∀ first ∈ created, ∀ second ∈ created, first ≠ second →
    (frame first).top ≤ (frame second).base ∨ (frame second).top ≤ (frame first).base
  framed : ∀ task ∈ created, task ≠ executing →
    (frame task).base ≤ (frame task).sp ∧ (frame task).sp + 8 ≤ (frame task).top
  saved : ∀ task ∈ created, task ≠ executing → ∀ context, switchedOut task = some context →
    loadContext memory (frame task).sp = context
  unborn : ∀ task, task ∉ created → switchedOut task = none

section Stacks
variable {frame : Ptr → Frame} {memory : Memory} {created : List Ptr} {executing : Ptr}
  {cpu : Context}
  {switchedOut : Ptr → Option Context}

/-- Writes to one stack do not reach the frame in another. -/
theorem Stacked.unreached (stacked : Stacked frame memory created executing cpu switchedOut)
    {other : Memory} (known : task ∈ created) (distinct : task ≠ executing)
    (same : ∀ i, i < (frame executing).base ∨ (frame executing).top ≤ i → other i = memory i) :
    loadContext other (frame task).sp = loadContext memory (frame task).sp := by
  obtain ⟨lower, upper⟩ := stacked.framed task known distinct
  apply loadContext_congr
  intro i inside
  apply same
  rcases stacked.apart task known executing stacked.known distinct with below | above
  · left
    omega
  · right
    omega

theorem Stacked.execute (stacked : Stacked frame memory created executing cpu switchedOut)
    {other : Memory}
    (room : (frame executing).base + 8 ≤ next.psp ∧ next.psp ≤ (frame executing).top)
    (same : ∀ i, i < (frame executing).base ∨ (frame executing).top ≤ i → other i = memory i) :
    Stacked frame other created executing next switchedOut where
  known := stacked.known
  room := room
  apart := stacked.apart
  framed := stacked.framed
  saved task known distinct context out :=
    (stacked.unreached known distinct same).trans (stacked.saved task known distinct context out)
  unborn := stacked.unborn

theorem Stacked.create (stacked : Stacked frame memory created executing cpu switchedOut)
    {wider : Ptr → Frame} {other : Memory} (fresh : task ∉ created)
    (old : ∀ member, member ≠ task → wider member = frame member)
    (new : (wider task).base ≤ (wider task).sp ∧ (wider task).sp + 8 ≤ (wider task).top)
    (apart : ∀ member ∈ created, (wider task).top ≤ (frame member).base ∨
      (frame member).top ≤ (wider task).base)
    (same : ∀ i, i < (wider task).base ∨ (wider task).top ≤ i → other i = memory i) :
    Stacked wider other (created ++ [task]) executing cpu switchedOut := by
  have kept (member : Ptr) (known : member ∈ created) : wider member = frame member :=
    old member (ne_of_mem_of_not_mem known fresh)
  refine ⟨List.mem_append_left _ stacked.known, ?_, ?_, ?_, ?_, ?_⟩
  · rw [kept executing stacked.known]
    exact stacked.room
  · intro first one second two distinct
    rcases List.mem_append.mp one with known | added <;>
      rcases List.mem_append.mp two with known' | added'
    · rw [kept first known, kept second known']
      exact stacked.apart first known second known' distinct
    · rw [List.mem_singleton.mp added', kept first known]
      exact (apart first known).symm
    · rw [List.mem_singleton.mp added, kept second known']
      exact apart second known'
    · exact absurd ((List.mem_singleton.mp added).trans (List.mem_singleton.mp added').symm)
        distinct
  · intro member inside distinct
    rcases List.mem_append.mp inside with known | added
    · rw [kept member known]
      exact stacked.framed member known distinct
    · rw [List.mem_singleton.mp added]
      exact new
  · intro member inside distinct context out
    rcases List.mem_append.mp inside with known | added
    · rw [kept member known, ← stacked.saved member known distinct context out]
      obtain ⟨lower, upper⟩ := stacked.framed member known distinct
      apply loadContext_congr
      intro i inside
      apply same
      rcases apart member known with below | above
      · right
        omega
      · left
        omega
    · rw [List.mem_singleton.mp added, stacked.unborn task fresh] at out
      cases out
  · intro member outside
    exact stacked.unborn member fun known => outside (List.mem_append_left _ known)

/-- The running task's context goes to its own stack; the next task's comes from where it
was put. -/
theorem Stacked.switch (stacked : Stacked frame memory created executing cpu switchedOut)
    {after : Ptr → Frame} (next : chosen ∈ created)
    (left : after executing = { frame executing with sp := cpu.psp - 8 })
    (others : ∀ task, task ≠ executing → after task = frame task) :
    let out := Function.update switchedOut executing (some cpu)
    let restored := loadContext (pushed memory cpu) (after chosen).sp
    Stacked after (pushed memory cpu) created chosen restored out ∧
      ∀ context, out chosen = some context → restored = context := by
  intro out restored
  obtain ⟨lower, upper⟩ := stacked.room
  have room : 8 ≤ cpu.psp := by omega
  have outside (i : Nat) (far : i < (frame executing).base ∨ (frame executing).top ≤ i) :
      pushed memory cpu i = memory i := pushed_outside memory (by omega) room
  have regions (task : Ptr) : (after task).base = (frame task).base ∧
      (after task).top = (frame task).top := by
    by_cases same : task = executing
    · rw [same, left]
      exact ⟨rfl, rfl⟩
    · rw [others task same]
      exact ⟨rfl, rfl⟩
  have framed (task : Ptr) (known : task ∈ created) :
      (after task).base ≤ (after task).sp ∧ (after task).sp + 8 ≤ (after task).top := by
    by_cases same : task = executing
    · rw [same, left]
      dsimp only
      omega
    · rw [others task same]
      exact stacked.framed task known same
  have saved (task : Ptr) (known : task ∈ created) (context : Context)
      (held : out task = some context) :
      loadContext (pushed memory cpu) (after task).sp = context := by
    by_cases same : task = executing
    · subst same
      simp only [out, Function.update_self] at held
      rw [left, ← Option.some.inj held]
      exact loadContext_pushed memory room
    · simp only [out, Function.update_of_ne same] at held
      rw [others task same, stacked.unreached known same outside]
      exact stacked.saved task known same context held
  refine ⟨⟨next, ?_, ?_, fun task known _ => framed task known,
    fun task known _ => saved task known, ?_⟩, saved chosen next⟩
  · obtain ⟨first, last⟩ := framed chosen next
    exact ⟨Nat.add_le_add_right first 8, last⟩
  · intro first one second two distinct
    rw [(regions first).1, (regions first).2, (regions second).1, (regions second).2]
    exact stacked.apart first one second two distinct
  · intro task unknown
    have distinct := (ne_of_mem_of_not_mem stacked.known unknown).symm
    exact (Function.update_of_ne distinct _ _).trans (stacked.unborn task unknown)

end Stacks

/-- The step is not an `os_task_resume` that finds its task. -/
def ResumesNothing (m : Machine) : Action → Prop
  | .resume pid => pid = 0 ∨ osTaskFromPid m.os pid = 0
  | _ => True

/-- The running task is the one the scheduler takes for running, and no context is lost. -/
structure Kept (m : Machine) : Prop where
  sound : Sound m
  running : m.os.osCurrentTask = m.executing
  executes : m.executing ∈ m.added
  stacked : Stacked m.frame m.os.memory m.created m.executing m.cpu m.switchedOut

section Steps
variable {m after : Machine}

theorem frame_of_layout {os : OsState} (same : os.layout = m.os.layout) :
    Machine.frame { m with os } = m.frame :=
  congrArg (fun layout task => (⟨(layout.records task).stack, (layout.records task).stack +
    (if task = layout.schedule.head then kernelTaskStackSizeWords else applicationStackSizeWords),
    (layout.records task).sp⟩ : Frame)) same

/-- Calls that keep the layout and the running task keep all contexts. -/
theorem Kept.call (kept : Kept m) {os : OsState} (sound : Sound { m with os })
    (same : os.layout = m.os.layout)
    (current : os.osCurrentTask = m.os.osCurrentTask) : Kept { m with os } := by
  refine ⟨sound, current.trans kept.running, kept.executes, ?_⟩
  have memory : os.memory = m.os.memory := congrArg Layout.memory same
  rw [frame_of_layout same]
  exact memory.symm ▸ kept.stacked

theorem osTaskNext_current (s : OsState) {after : OsState}
    (returned : osTaskNext fuel s = some after) :
    after.osCurrentTask = s.osCurrentTask := by
  obtain ⟨found, _, rfl⟩ := osTaskNext_some s returned
  by_cases null : s.osCurrentTask = 0
  · rw [leaveCurrent_null s null]
    rfl
  · rw [leaveCurrent_running s null]
    rfl

theorem osTaskPause_current {s after : OsState}
    (returned : osTaskPause fuel s pid = some (status, after)) :
    after.osCurrentTask = s.osCurrentTask := by
  rcases osTaskPause_some returned with ⟨_, rfl, _⟩ | ⟨_, _, _, moved, rfl, ⟨_, next⟩ | ⟨_, rfl⟩⟩
  · rfl
  · have current := osTaskNext_current s next
    exact current
  · rfl

theorem frame_add (m : Machine) (task : Ptr) :
    Machine.frame { m with os := (osTaskAdd m.os task).2, added := m.added ++ [task] } =
      m.frame := by
  have stack := osTaskAdd_field m.os task OsTask.stack fun _ _ => rfl
  have sp := osTaskAdd_field m.os task OsTask.sp fun _ _ => rfl
  have head := (osTaskAdd_adds m.os task).head
  funext member
  have stack := congrFun stack member
  have sp := congrFun sp member
  simp only [Function.comp_apply] at stack sp
  simp only [OsState.links] at head
  simp only [Machine.frame, Machine.base, Machine.top, stack, sp, head]

/-- A new task's frame lies in its new stack, and nothing is written outside that. -/
theorem Kept.create (kept : Kept m) (allocates : m.Allocates (some task) (some stack)) :
    let os := (osTaskCreate image m.os (some task) (some stack) entry image.osAppExit header
      applicationStackSizeWords).2
    Stacked (Machine.frame { m with os, created := m.created ++ [task] }) os.memory
      (m.created ++ [task])
      m.executing m.cpu m.switchedOut := by
  intro os
  obtain ⟨_, fresh, apart⟩ := allocates
  have head : task ≠ m.os.schedule.head :=
    (ne_of_mem_of_not_mem (kept.sound.chained.known _ kept.sound.chained.head_mem) fresh).symm
  have new : Machine.frame { m with os, created := m.created ++ [task] } task =
      ⟨stack, stack + applicationStackSizeWords,
        stack + applicationStackSizeWords - stackCtxSize - taskCtxSize⟩ := by
    simp [Machine.frame, Machine.base, Machine.top, os, osTaskCreate, head]
  apply kept.stacked.create fresh
  · intro member distinct
    have record : os.tasks member = m.os.tasks member := Function.update_of_ne distinct _ _
    simp only [Machine.frame, Machine.base, Machine.top, record]
    rfl
  · rw [new]
    simp only [applicationStackSizeWords, stackCtxSize, taskCtxSize]
    omega
  · rw [new]
    exact apart
  · rw [new]
    intro i outside
    simp only [applicationStackSizeWords] at outside
    have frame : os.memory i =
        stmia (stmia m.os.memory (stack + 253) [image.osTaskFinished, entry, 0x01000000])
        (stack + 240) [4, 5, 6, 7, 8, 9, 10, 11] i := rfl
    rw [frame, stmia_outside _ (by simp only [List.length_cons, List.length_nil]; omega),
      stmia_outside _ (by simp only [List.length_cons, List.length_nil]; omega)]

theorem written_outside (m : Machine) (memory : Memory)
    (outside : i < m.base m.executing ∨ m.top m.executing ≤ i) :
    m.written memory i = m.os.memory i :=
  if_neg (by omega)

/-- PendSV in a state where `os_current_task` is the task that executes. -/
theorem Kept.switch (kept : Kept m) (next : m.os.osNextTask ∈ m.added) :
    Stacked m.switch.frame m.switch.os.memory m.created m.switch.executing m.switch.cpu
      m.switch.switchedOut ∧
      ∀ context, m.switch.switchedOut m.switch.executing = some context →
      m.switch.cpu = context := by
  have known : m.os.osNextTask ∈ m.created := kept.sound.chained.known _ next
  apply kept.stacked.switch known
  · have record : m.switch.os.tasks m.executing =
        { m.os.tasks m.executing with sp := m.cpu.psp - 8 } := by
      rw [← kept.running]
      exact Function.update_self _ _ _
    simp only [Machine.frame, Machine.base, Machine.top, record]
    rfl
  · intro task distinct
    have record : m.switch.os.tasks task = m.os.tasks task :=
      Function.update_of_ne (kept.running ▸ distinct) _ _
    simp only [Machine.frame, Machine.base, Machine.top, record]
    rfl

theorem Kept.act (kept : Kept m) (allowed : ResumesNothing m action)
    (step : act image fuel m action = some after) :
    Kept after := by
  have sound := kept.sound.act step
  cases action with
  | create taskBlock stackBlock entry header =>
    rcases act_create step with rfl | ⟨task, stack, allocates, rfl⟩
    · exact kept
    · exact ⟨sound, kept.running, kept.executes, kept.create allocates⟩
  | add task =>
    obtain ⟨_, rfl⟩ := act_add step
    obtain ⟨memory, pointers⟩ := osTaskAdd_frame m.os task
    refine ⟨sound, (congrArg Prod.fst pointers).trans kept.running,
      List.mem_append_left _ kept.executes, ?_⟩
    rw [frame_add]
    exact memory.symm ▸ kept.stacked
  | next =>
    obtain ⟨os, next, rfl⟩ := Option.map_eq_some_iff.mp step
    exact kept.call sound (osTaskNext_layout _ next) (osTaskNext_current _ next)
  | systick =>
    obtain ⟨os, next, rfl⟩ := Option.map_eq_some_iff.mp step
    exact kept.call sound (osTaskNext_layout _ next) (osTaskNext_current _ next)
  | pause pid =>
    obtain ⟨⟨status, os⟩, paused, rfl⟩ := Option.map_eq_some_iff.mp step
    exact kept.call sound (osTaskPause_layout paused) (osTaskPause_current paused)
  | resume pid =>
    obtain ⟨⟨status, os⟩, resumed, rfl⟩ := Option.map_eq_some_iff.mp step
    rcases osTaskResume_some resumed with ⟨_, rfl, _⟩ | ⟨_, user, found, _⟩
    · exact kept
    · exact absurd allowed (not_or.mpr ⟨user, found⟩)
  | pendsv =>
    obtain ⟨pending, rfl⟩ := act_pendsv step
    have next := kept.sound.pointed.pending pending
    exact ⟨sound, rfl, next, (kept.switch next).1⟩
  | execute cpu memory =>
    obtain ⟨room, rfl⟩ := act_execute step
    exact ⟨sound, kept.running, kept.executes,
      kept.stacked.execute room fun i outside => written_outside m memory outside⟩

theorem boot_room (image : Image) (tasks : Ptr → OsTask) (memory : Memory) (task stack : Ptr)
    (regs : Registers) :
    let m := boot image tasks memory task stack regs
    m.base task + 8 ≤ m.cpu.psp ∧ m.cpu.psp ≤ m.top task := by
  intro m
  have kernel : m.os.tasks task = _ := osSchedulerInit_kernel image tasks memory task stack
  have base : m.base task = stack := congrArg OsTask.stack kernel
  have top : m.top task = stack + 128 := by
    rw [Machine.top, base]
    exact congrArg (stack + ·) (if_pos rfl)
  have psp : m.cpu.psp = stack + 128 := by
    change (m.os.tasks task).sp + 8 + 8 = stack + 128
    rw [kernel]
    simp only [kernelTaskStackSizeWords, stackCtxSize, taskCtxSize]
    omega
  rw [base, top, psp]
  omega

theorem Boots.kept (boots : Boots image m) : Kept m := by
  have sound := boots.sound
  obtain ⟨tasks, memory, task, stack, regs, allocated, rfl⟩ := boots
  refine ⟨sound, rfl, List.mem_cons_self, List.mem_cons_self, ?_, ?_, ?_, ?_, fun _ _ => rfl⟩
  · exact boot_room image tasks memory task stack regs
  · intro first one second two distinct
    exact absurd ((List.mem_singleton.mp one).trans (List.mem_singleton.mp two).symm) distinct
  · intro member known distinct
    exact absurd (List.mem_singleton.mp known) distinct
  · intro member known distinct
    exact absurd (List.mem_singleton.mp known) distinct

theorem Kept.runs (kept : Kept m) (run : Runs image ResumesNothing m after) : Kept after := by
  induction run with
  | refl => exact kept
  | tail _ step ih =>
    obtain ⟨fuel, action, allowed, step⟩ := step
    exact ih.act allowed step

end Steps

/-- As long as no `os_task_resume` has found its task, `os_current_task` is the task that
executes, and every task gets back the context it was switched out with. -/
theorem contexts_kept (boots : Boots image start) (run : Runs image ResumesNothing start m) :
    m.os.osCurrentTask = m.executing ∧ m.os.osCurrentTask ≠ 0 ∧
      ∀ fuel after, act image fuel m .pendsv = some after →
        ∀ context, after.switchedOut after.executing = some context → after.cpu = context := by
  have kept := boots.kept.runs run
  refine ⟨kept.running, ?_, fun fuel after step => ?_⟩
  · rw [kept.running]
    exact kept.sound.chained.ne_zero kept.executes
  · obtain ⟨pending, rfl⟩ := act_pendsv step
    exact (kept.switch (kept.sound.pointed.pending pending)).2

theorem kernel_context_restored :
    ∃ m after, actAll plainImage 2 booted (loadApplication ++ [.systick]) = some m ∧
      act plainImage 0 m .pendsv = some after ∧ after.executing = 1 ∧ after.cpu = booted.cpu := by
  have ran : (actAll plainImage 2 booted (loadApplication ++ [.systick])).map (fun m =>
      (m.os.pendsvset, m.os.osNextTask, m.switchedOut 1, m.executing)) =
        some (true, 1, some booted.cpu, 2) := by decide +kernel
  obtain ⟨m, steps, state⟩ := Option.map_eq_some_iff.mp ran
  simp only [Prod.mk.injEq] at state
  obtain ⟨pending, next, out, executing⟩ := state
  have run : Runs plainImage ResumesNothing booted m := by
    apply actAll_runs _ steps
    simp [loadApplication, ResumesNothing]
  have step : act plainImage 0 m .pendsv = some m.switch := if_pos pending
  refine ⟨m, m.switch, steps, step, next,
    (contexts_kept booted_boots run).2.2 0 m.switch step booted.cpu ?_⟩
  change Function.update m.switchedOut m.executing (some m.cpu) m.os.osNextTask = some booted.cpu
  rw [next, executing, Function.update_of_ne (by decide), out]

/-- The kernel task resumes an application and is switched out: its stack pointer is stored
through `NULL`, and it comes back with other registers on another stack pointer. -/
theorem resume_loses_context :
    (∃ m, actAll plainImage 2 booted [.create (some 2) (some 2000) 0x400 0, .add 2, .resume 1] =
      some m ∧
      m.os.pendsvset = true ∧ m.executing = 1 ∧ m.os.osCurrentTask = 0) ∧
    ∃ m, actAll plainImage 2 booted [.create (some 2) (some 2000) 0x400 0, .add 2, .resume 1,
        .pendsv, .systick, .pendsv] = some m ∧
      m.executing = 1 ∧ m.switchedOut 1 = some booted.cpu ∧ m.cpu ≠ booted.cpu := by
  constructor
  · have ran : (actAll plainImage 2 booted [.create (some 2) (some 2000) 0x400 0, .add 2,
        .resume 1]).map
        (fun m => (m.os.pendsvset, m.executing, m.os.osCurrentTask)) = some (true, 1, 0) :=
          by decide +kernel
    obtain ⟨m, steps, state⟩ := Option.map_eq_some_iff.mp ran
    simp only [Prod.mk.injEq] at state
    exact ⟨m, steps, state⟩
  · have ran : (actAll plainImage 2 booted [.create (some 2) (some 2000) 0x400 0, .add 2, .resume 1,
        .pendsv, .systick, .pendsv]).map
        (fun m => (m.executing, m.switchedOut 1, decide (m.cpu ≠ booted.cpu))) =
          some (1, some booted.cpu, true) := by decide +kernel
    obtain ⟨m, steps, state⟩ := Option.map_eq_some_iff.mp ran
    simp only [Prod.mk.injEq, decide_eq_true_eq] at state
    exact ⟨m, steps, state⟩

end Flipper.Os
