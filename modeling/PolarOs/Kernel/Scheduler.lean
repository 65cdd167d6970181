import PolarOs.Library.Checked
import PolarOs.Text

/-! The round-robin scheduler (`kernel/task/scheduler.rs`). A context pointer is the
index of the task whose context it points into. Every indexing of the task vector
may fault, and so may the search loop when its fuel, the number of tasks, runs out.
The static `NEXT_TASK_ID` is the number of the next spawn; it wraps when it is read. -/
namespace PolarOs
open Library Library.Checked

inductive TaskState where
  | ready
  | running
  | terminated
deriving DecidableEq

/-- `serial` is the number of the spawn that made the task; no operation reads it. -/
structure Task where
  id : UInt64
  state : TaskState
  name : Str
  quantumRemaining : Nat
  serial : Nat
deriving DecidableEq

def defaultQuantum : Nat := 10

def Task.new (serial : Nat) (name : Str) : Task where
  id := UInt64.ofNat serial
  state := .ready
  name := name
  quantumRemaining := defaultQuantum
  serial := serial

def Task.kernelTask : Task where
  id := 0
  state := .running
  name := lit "kernel"
  quantumRemaining := defaultQuantum
  serial := 0

def Task.Runnable (task : Task) : Prop :=
  task.state = .ready ∨ task.state = .running

instance (task : Task) : Decidable task.Runnable :=
  inferInstanceAs (Decidable (_ ∨ _))

structure Scheduler where
  tasks : List Task
  current : Nat
  nextTaskId : Nat
deriving DecidableEq

abbrev Switch := Nat × Nat

/-- `self.tasks[i].field = value`. -/
def updateTask (tasks : List Task) (i : Nat) (f : Task → Task) : Checked (List Task) := do
  let _ ← index tasks i
  return tasks.modify i f

def Task.renew (task : Task) : Task := {task with quantumRemaining := defaultQuantum}
def Task.spend (task : Task) : Task := {task with quantumRemaining := task.quantumRemaining - 1}
def Task.demote (task : Task) : Task := if task.state = .running then {task with state := .ready} else task
def Task.promote (task : Task) : Task := {task with state := .running,quantumRemaining := defaultQuantum}
def Task.terminate (task : Task) : Task := {task with state := .terminated}

/-- The loop of `find_and_switch`: the next runnable index, none when it is back at `start`. -/
def searchRunnable (tasks : List Task) (start : Nat) : Nat → Nat → Checked (Option Nat)
  | 0,_ => .error .fuel
  | fuel + 1,nextIdx => do
    let task ← index tasks nextIdx
    if task.state = .ready ∨ task.state = .running then return some nextIdx
    let nextIdx := (nextIdx + 1) % tasks.length
    if nextIdx = start then return none
    searchRunnable tasks start fuel nextIdx

namespace Scheduler

def new : Scheduler where
  tasks := [Task.kernelTask]
  current := 0
  nextTaskId := 1

def spawn (sched : Scheduler) (name : Str) : UInt64 × Scheduler :=
  let task := Task.new sched.nextTaskId name
  (task.id,{sched with tasks := sched.tasks ++ [task],nextTaskId := sched.nextTaskId + 1})

def findAndSwitch (sched : Scheduler) : Checked (Option Switch × Scheduler) := do
  let oldIdx := sched.current
  let start := (oldIdx + 1) % sched.tasks.length
  match ← searchRunnable sched.tasks start sched.tasks.length start with
  | none =>
    let tasks ← updateTask sched.tasks oldIdx Task.renew
    return (none,{sched with tasks})
  | some nextIdx =>
    if nextIdx = oldIdx then
      let tasks ← updateTask sched.tasks oldIdx Task.renew
      return (none,{sched with tasks})
    else
      let tasks ← updateTask sched.tasks oldIdx Task.demote
      let tasks ← updateTask tasks nextIdx Task.promote
      return (some (oldIdx,nextIdx),{sched with tasks,current := nextIdx})

/-- The preemptive path, called on every tick. -/
def schedulePreempt (sched : Scheduler) : Checked (Option Switch × Scheduler) := do
  if sched.tasks.length ≤ 1 then return (none,sched)
  let task ← index sched.tasks sched.current
  if task.quantumRemaining > 0 then
    let tasks ← updateTask sched.tasks sched.current Task.spend
    if task.quantumRemaining - 1 > 0 then return (none,{sched with tasks})
    findAndSwitch {sched with tasks}
  else findAndSwitch sched

def scheduleYield (sched : Scheduler) : Checked (Option Switch × Scheduler) :=
  if sched.tasks.length ≤ 1 then return (none,sched)
  else findAndSwitch sched

def terminateCurrent (sched : Scheduler) : Checked Scheduler := do
  let tasks ← updateTask sched.tasks sched.current Task.terminate
  return {sched with tasks}

def killTask (sched : Scheduler) (id : UInt64) : Bool × Scheduler :=
  match sched.tasks.findIdx? (fun task => task.id = id ∧ task.state ≠ .terminated) with
  | some i => (true,{sched with tasks := sched.tasks.modify i Task.terminate})
  | none => (false,sched)

def cleanupTerminated (sched : Scheduler) : Scheduler :=
  let tasks := sched.tasks.filter fun task => task.id = 0 ∨ task.state ≠ .terminated
  {sched with
    tasks
    current := (tasks.findIdx? fun task => task.state = .running).getD sched.current }

end Scheduler

/-- What `exit_current_task` does before it switches contexts. -/
def exitCurrentTask (sched : Scheduler) : Checked (Option Switch × Scheduler) := do
  let sched ← sched.terminateCurrent
  sched.scheduleYield

/-- What `cmd_kill` does with the scheduler once the id is parsed. -/
def killAndCleanup (sched : Scheduler) (id : UInt64) : Bool × Scheduler :=
  match sched.killTask id with
  | (true,sched) => (true,sched.cleanupTerminated)
  | (false,sched) => (false,sched)

def sysGetpid (sched : Scheduler) : UInt64 :=
  match sched.tasks.find? (fun task => task.state = .running) with
  | some task => task.id
  | none => 0

/-! The steps of the system around the scheduler. -/

inductive Action where
  | tick
  | yield
  | spawn (name : Str)
  | exit
  | kill (id : UInt64)
deriving DecidableEq

inductive Outcome where
  | switch (contexts : Option Switch)
  | spawned (id : UInt64)
  | killed (found : Bool)
deriving DecidableEq

/-- Only the kernel task, `tasks[0]`, never exits and alone kills, never its own id. -/
def Legal (sched : Scheduler) : Action → Prop
  | .exit => sched.current ≠ 0
  | .kill id => sched.current = 0 ∧ id ≠ 0
  | _ => True

instance (sched : Scheduler) : (action : Action) → Decidable (Legal sched action)
  | .tick | .yield | .spawn _ => inferInstanceAs (Decidable True)
  | .exit => inferInstanceAs (Decidable (sched.current ≠ 0))
  | .kill id => inferInstanceAs (Decidable (sched.current = 0 ∧ id ≠ 0))

def perform (sched : Scheduler) : Action → Checked (Outcome × Scheduler)
  | .tick => do
    let (contexts,sched) ← sched.schedulePreempt
    return (.switch contexts,sched)
  | .yield => do
    let (contexts,sched) ← sched.scheduleYield
    return (.switch contexts,sched)
  | .spawn name =>
    let (id,sched) := sched.spawn name
    .ok (.spawned id,sched)
  | .exit => do
    let (contexts,sched) ← exitCurrentTask sched
    return (.switch contexts,sched)
  | .kill id =>
    let (found,sched) := killAndCleanup sched id
    .ok (.killed found,sched)

def Step (sched : Scheduler) (action : Action) (next : Scheduler) : Prop :=
  Legal sched action ∧ ∃ outcome, perform sched action = .ok (outcome,next)

example : perform (Scheduler.new.spawn (lit "counter")).2 .yield =
    .ok (.switch (some (0,1)),{
      tasks := [{Task.kernelTask with state := .ready},{Task.new 1 (lit "counter") with state := .running}]
      current := 1
      nextTaskId := 2 }) := rfl

end PolarOs
