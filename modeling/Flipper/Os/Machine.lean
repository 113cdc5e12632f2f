import Flipper.Os.Scheduler
import Mathlib.Logic.Relation

/-! The scheduler on its processor: PendSV, the steps that can come in any order, and runs
of them. Interrupts are taken between the calls, not inside them. -/
namespace Flipper.Os
open Linked Fmr

structure Registers where
  r4 : Word
  r5 : Word
  r6 : Word
  r7 : Word
  r8 : Word
  r9 : Word
  r10 : Word
  r11 : Word
  deriving DecidableEq

/-- What `pendsv_exception` keeps for a task; the hardware stacks the other registers. -/
structure Context where
  regs : Registers
  psp : Nat
  deriving DecidableEq

/-- The registers and the PSP that PendSV takes from the frame at a task's `sp`. -/
def loadContext (memory : Memory) (sp : Nat) : Context where
  regs :=
    { r8 := memory sp, r9 := memory (sp + 1), r10 := memory (sp + 2), r11 := memory (sp + 3)
      r4 := memory (sp + 4), r5 := memory (sp + 5), r6 := memory (sp + 6), r7 := memory (sp + 7) }
  psp := sp + 8

def pendsvException (s : OsState) (cpu : Context) : OsState × Context :=
  let regs := cpu.regs
  let memory := stmia s.memory (cpu.psp - 4) [regs.r4, regs.r5, regs.r6, regs.r7]
  let memory := stmia memory (cpu.psp - 8) [regs.r8, regs.r9, regs.r10, regs.r11]
  let s := { s.setSp s.osCurrentTask (cpu.psp - 8) with memory }
  let restored := loadContext memory (s.tasks s.osNextTask).sp
  ({ osUpdateTaskPointers s with pendsvset := false }, restored)

/-- The scheduler, the registers, and the history that the properties speak about: the
tasks in order of creation and of addition, the one that executes, and the context each
had when it was last switched out. -/
structure Machine where
  os : OsState
  cpu : Context
  created : List Ptr
  added : List Ptr
  executing : Ptr
  switchedOut : Ptr → Option Context

namespace Machine
variable (m : Machine)

def base (task : Ptr) : Nat := (m.os.tasks task).stack

def top (task : Ptr) : Nat :=
  m.base task +
    if task = m.os.schedule.head then kernelTaskStackSizeWords else applicationStackSizeWords

/-- What the two allocations of a new task can return: new blocks, or nothing. -/
def Allocates : Option Ptr → Option Ptr → Prop
  | some task, some stack => task ≠ 0 ∧ task ∉ m.created ∧
      ∀ other ∈ m.created, stack + applicationStackSizeWords ≤ m.base other ∨ m.top other ≤ stack
  | _, _ => True

instance : Decidable (m.Allocates taskBlock stackBlock) := by
  cases taskBlock <;> cases stackBlock <;> unfold Allocates <;> infer_instance

/-- The memory after the executing task wrote to its own stack. -/
def written (memory : Memory) : Memory := fun address =>
  if m.base m.executing ≤ address ∧ address < m.top m.executing then memory address
  else m.os.memory address

def switch : Machine :=
  let (os, cpu) := pendsvException m.os m.cpu
  { m with os, cpu, executing := os.osCurrentTask
           switchedOut := Function.update m.switchedOut m.executing (some m.cpu) }

end Machine

inductive Action where
  | create (taskBlock stackBlock : Option Ptr) (entry : Word) (header : Ptr)
  | add (task : Ptr)
  | next
  | pause (pid : Int)
  | resume (pid : Int)
  | systick
  | pendsv
  /-- The executing task, and the hardware on its behalf, changes registers and its stack. -/
  | execute (cpu : Context) (memory : Memory)

def Action.Loads : Action → Prop
  | .create _ _ _ _ | .add _ => True
  | _ => False

/-- One step; none when the step cannot be taken, or when the fuel does not suffice for the
search in `os_task_next`. -/
def act (image : Image) (fuel : Nat) (m : Machine) : Action → Option Machine
  | .create taskBlock stackBlock entry header =>
    if m.Allocates taskBlock stackBlock then
      let (task, os) := osTaskCreate image m.os taskBlock stackBlock entry image.osAppExit header
        applicationStackSizeWords
      some { m with os, created := if task = 0 then m.created else m.created ++ [task] }
    else none
  | .add task =>
    if task ∈ m.created ∧ task ∉ m.added then
      some { m with os := (osTaskAdd m.os task).2, added := m.added ++ [task] }
    else none
  | .next => (osTaskNext fuel m.os).map fun os => { m with os }
  | .pause pid => (osTaskPause fuel m.os pid).map fun returned => { m with os := returned.2 }
  | .resume pid => (osTaskResume fuel m.os pid).map fun returned => { m with os := returned.2 }
  | .systick => (systickException fuel m.os).map fun os => { m with os }
  | .pendsv => if m.os.pendsvset then some m.switch else none
  | .execute cpu memory =>
    -- The task leaves room for what PendSV pushes.
    if m.base m.executing + 8 ≤ cpu.psp ∧ cpu.psp ≤ m.top m.executing then
      some { m with cpu, os := { m.os with memory := m.written memory } }
    else none

/-- The kernel task executes after `os_scheduler_init`, on an empty stack. -/
def boot (image : Image) (tasks : Ptr → OsTask) (memory : Memory) (task stack : Ptr)
    (regs : Registers) : Machine :=
  let os := osSchedulerInit image tasks memory task stack
  { os, cpu := ⟨regs, (os.tasks task).sp + taskCtxSize + stackCtxSize⟩
    created := [task], added := [task], executing := task, switchedOut := fun _ => none }

def Boots (image : Image) (m : Machine) : Prop :=
  ∃ tasks memory task stack regs, task ≠ 0 ∧ m = boot image tasks memory task stack regs

def Step (image : Image) (allowed : Machine → Action → Prop) (m after : Machine) : Prop :=
  ∃ fuel action, allowed m action ∧ act image fuel m action = some after

def Runs (image : Image) (allowed : Machine → Action → Prop) : Machine → Machine → Prop :=
  Relation.ReflTransGen (Step image allowed)

def anyStep : Machine → Action → Prop := fun _ _ => True

def actAll (image : Image) (fuel : Nat) (m : Machine) (actions : List Action) : Option Machine :=
  actions.foldlM (act image fuel) m

section Actions
variable {image : Image} {m after : Machine}

/-- A task is created in new blocks, or nothing happens. -/
theorem act_create (step : act image fuel m (.create taskBlock stackBlock entry header) =
    some after) :
    after = m ∨ ∃ task stack, m.Allocates (some task) (some stack) ∧
      after = { m with
        os := (osTaskCreate image m.os (some task) (some stack) entry image.osAppExit header
          applicationStackSizeWords).2
        created := m.created ++ [task] } := by
  rw [act] at step
  split at step
  case isFalse => cases step
  case isTrue allocates =>
    obtain rfl := Option.some.inj step
    cases taskBlock with
    | none => exact Or.inl rfl
    | some task =>
      cases stackBlock with
      | none => exact Or.inl rfl
      | some stack =>
        refine Or.inr ⟨task, stack, allocates, ?_⟩
        rw [osTaskCreate, if_neg allocates.1]

theorem act_add (step : act image fuel m (.add task) = some after) :
    (task ∈ m.created ∧ task ∉ m.added) ∧
      after = { m with os := (osTaskAdd m.os task).2, added := m.added ++ [task] } := by
  rw [act] at step
  split at step
  case isFalse => cases step
  case isTrue loaded => exact ⟨loaded, (Option.some.inj step).symm⟩

theorem act_pendsv (step : act image fuel m .pendsv = some after) :
    m.os.pendsvset = true ∧ after = m.switch := by
  rw [act] at step
  split at step
  case isFalse => cases step
  case isTrue pending => exact ⟨pending, (Option.some.inj step).symm⟩

theorem act_execute (step : act image fuel m (.execute cpu memory) = some after) :
    (m.base m.executing + 8 ≤ cpu.psp ∧ cpu.psp ≤ m.top m.executing) ∧
      after = { m with cpu, os := { m.os with memory := m.written memory } } := by
  rw [act] at step
  split at step
  case isFalse => cases step
  case isTrue room => exact ⟨room, (Option.some.inj step).symm⟩

theorem actAll_runs {actions : List Action} (permitted : ∀ action ∈ actions, ∀ m, allowed m action)
    (steps : actAll image fuel m actions = some after) : Runs image allowed m after := by
  induction actions generalizing m with
  | nil =>
    obtain rfl := Option.some.inj steps
    exact .refl
  | cons action rest ih =>
    obtain ⟨middle, step, steps⟩ := Option.bind_eq_some_iff.mp steps
    have run := ih (fun other member => permitted other (List.mem_cons_of_mem _ member)) steps
    exact .head ⟨fuel, action, permitted action List.mem_cons_self m, step⟩ run

end Actions

/-- The record of the kernel task. -/
theorem osSchedulerInit_kernel (image : Image) (tasks : Ptr → OsTask) (memory : Memory)
    (task stack : Ptr) :
    (osSchedulerInit image tasks memory task stack).tasks task =
      { sp := stack + kernelTaskStackSizeWords - stackCtxSize - taskCtxSize, pid := 0
        handler := image.osKernelTask, status := .idle, stack, exit := 0, header := 0, next :=
          task } := by
  simp [osSchedulerInit, osTaskCreate, osTaskAdd, OsState.setNext]

def plainImage : Image := ⟨0x100, 0x200, 0x300⟩

/-- The kernel task at 1, with its stack at 1000. -/
def booted : Machine :=
  boot plainImage (fun _ => idleTask 0 0) (fun _ => 0) 1 1000 ⟨0, 0, 0, 0, 0, 0, 0, 0⟩

theorem booted_boots : Boots plainImage booted := ⟨_, _, _, _, _, by decide, rfl⟩

/-- Loading an application at 2, with its stack at 2000, and switching to it. -/
def loadApplication : List Action := [.create (some 2) (some 2000) 0x400 0, .add 2, .next, .pendsv]

end Flipper.Os
