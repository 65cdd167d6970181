import PolarOs.Kernel.Scheduler
import PolarOs.Library.Cyclic

/-! What the scheduler's operations do, said once: the search finds the first runnable
task after the current one, and a switch edits two tasks. -/
namespace PolarOs
open Library Library.Checked Library.Cyclic

variable {tasks : List Task} {sched : Scheduler}

def RunnableAt (tasks : List Task) (i : Nat) : Prop :=
  ∃ task, tasks[i]? = some task ∧ task.Runnable

instance (tasks : List Task) : DecidablePred (RunnableAt tasks) := fun i =>
  match found : tasks[i]? with
  | some task => decidable_of_iff task.Runnable (by simp [RunnableAt,found])
  | none => .isFalse (by simp [RunnableAt,found])

theorem runnableAt_lt {i : Nat} (runnable : RunnableAt tasks i) : i < tasks.length := by
  obtain ⟨task,found,_⟩ := runnable
  exact (List.getElem?_eq_some_iff.mp found).1

theorem updateTask_ok {i : Nat} (bound : i < tasks.length) (f : Task → Task) :
    updateTask tasks i f = .ok (tasks.modify i f) := by
  simp [updateTask,index_lt bound]

theorem searchRunnable_here {start fuel nextIdx : Nat} (runnable : RunnableAt tasks nextIdx) :
    searchRunnable tasks start (fuel + 1) nextIdx = .ok (some nextIdx) := by
  obtain ⟨task,found,holds⟩ := runnable
  rw [searchRunnable,index_ok.mpr found,ok_bind,if_pos (show _ ∨ _ from holds)]
  rfl

theorem searchRunnable_further {start fuel nextIdx : Nat} (bound : nextIdx < tasks.length)
    (idle : ¬RunnableAt tasks nextIdx) :
    searchRunnable tasks start (fuel + 1) nextIdx =
      if (nextIdx + 1) % tasks.length = start then .ok none
      else searchRunnable tasks start fuel ((nextIdx + 1) % tasks.length) := by
  have found := List.getElem?_eq_getElem bound
  have holds : ¬tasks[nextIdx].Runnable := fun runnable => idle ⟨_,found,runnable⟩
  rw [searchRunnable,index_ok.mpr found,ok_bind,if_neg (show ¬(_ ∨ _) from holds)]
  rfl

/-- With all places behind it idle, the loop ends with the first runnable one or with none;
the fuel is the number of places still ahead. -/
theorem searchRunnable_spec {start : Nat} (inside : start < tasks.length) (fuel walked : Nat)
    (ahead : walked + (fuel + 1) = tasks.length)
    (idle : ∀ nearer < walked, ¬RunnableAt tasks ((start + nearer) % tasks.length)) :
    (∃ found, searchRunnable tasks start (fuel + 1) ((start + walked) % tasks.length) = .ok (some found) ∧
      First (RunnableAt tasks) tasks.length start found) ∨
    (searchRunnable tasks start (fuel + 1) ((start + walked) % tasks.length) = .ok none ∧
      ∀ i, ¬RunnableAt tasks i) := by
  induction fuel generalizing walked with
  | zero =>
    by_cases runnable : RunnableAt tasks ((start + walked) % tasks.length)
    · exact .inl ⟨_,searchRunnable_here runnable,walked,by omega,rfl,runnable,idle⟩
    · refine .inr ⟨?_,fun i holds => ?_⟩
      · rw [searchRunnable_further (Nat.mod_lt _ (by omega)) runnable,if_pos]
        rw [Nat.mod_add_mod,show start + walked + 1 = start + tasks.length by omega,Nat.add_mod_right,
          Nat.mod_eq_of_lt inside]
      · obtain ⟨distance,near,rfl⟩ := at_distance (runnableAt_lt holds) inside
        rcases Nat.lt_or_eq_of_le (by omega : distance ≤ walked) with less | same
        · exact idle distance less holds
        · exact runnable (same ▸ holds)
  | succ fuel ih =>
    by_cases runnable : RunnableAt tasks ((start + walked) % tasks.length)
    · exact .inl ⟨_,searchRunnable_here runnable,walked,by omega,rfl,runnable,idle⟩
    · have next : ((start + walked) % tasks.length + 1) % tasks.length = (start + (walked + 1)) % tasks.length := by
        rw [Nat.mod_add_mod,Nat.add_assoc]
      have away : (start + (walked + 1)) % tasks.length ≠ start := by
        intro back
        have origin : (start + (walked + 1)) % tasks.length = (start + 0) % tasks.length := by
          rw [back,Nat.add_zero,Nat.mod_eq_of_lt inside]
        have := distance_unique (by omega) (by omega) origin
        omega
      rw [searchRunnable_further (Nat.mod_lt _ (by omega)) runnable,next,if_neg away]
      refine ih (walked + 1) (by omega) fun nearer near => ?_
      rcases Nat.lt_or_eq_of_le (Nat.le_of_lt_succ near) with less | same
      · exact idle nearer less
      · exact same ▸ runnable

namespace Scheduler

def editCurrent (sched : Scheduler) (f : Task → Task) : Scheduler :=
  {sched with tasks := sched.tasks.modify sched.current f}

/-- No switch: the current task gets a fresh quantum. -/
abbrev stay (sched : Scheduler) : Scheduler := sched.editCurrent Task.renew

abbrev spend (sched : Scheduler) : Scheduler := sched.editCurrent Task.spend

theorem editCurrent_entry (sched : Scheduler) (f : Task → Task) (i : Nat) :
    (sched.editCurrent f).tasks[i]? = (sched.tasks[i]?).map fun task => if sched.current = i then f task else task :=
  List.getElem?_modify ..

def switchTo (sched : Scheduler) (nextIdx : Nat) : Scheduler :=
  {sched with
    tasks := (sched.tasks.modify sched.current Task.demote).modify nextIdx Task.promote
    current := nextIdx }

def NextRunnable (sched : Scheduler) (nextIdx : Nat) : Prop :=
  First (RunnableAt sched.tasks) sched.tasks.length ((sched.current + 1) % sched.tasks.length) nextIdx

theorem findAndSwitch_spec (inside : sched.current < sched.tasks.length) :
    (sched.findAndSwitch = .ok (none,sched.stay) ∧ ∀ i, RunnableAt sched.tasks i → i = sched.current) ∨
    ∃ nextIdx, sched.findAndSwitch = .ok (some (sched.current,nextIdx),sched.switchTo nextIdx) ∧
      nextIdx ≠ sched.current ∧ sched.NextRunnable nextIdx := by
  have start : (sched.current + 1) % sched.tasks.length < sched.tasks.length := Nat.mod_lt _ (by omega)
  have stays : (do
      let tasks ← updateTask sched.tasks sched.current Task.renew
      return (none,{sched with tasks}) : Checked (Option Switch × Scheduler)) = .ok (none,sched.stay) := by
    rw [updateTask_ok inside]
    rfl
  have spec := searchRunnable_spec start (sched.tasks.length - 1) 0 (by omega) (by simp)
  simp only [Nat.add_zero,Nat.mod_mod,show sched.tasks.length - 1 + 1 = sched.tasks.length by omega] at spec
  unfold findAndSwitch
  rcases spec with ⟨found,run,first⟩ | ⟨run,idle⟩
  · simp only [run,ok_bind]
    by_cases back : found = sched.current
    · left
      rw [if_pos back]
      exact ⟨stays,fun i runnable => First.alone (back ▸ first) (runnableAt_lt runnable) runnable⟩
    · right
      have bound : found < (sched.tasks.modify sched.current Task.demote).length := by
        rw [List.length_modify]
        exact first.lt
      rw [if_neg back,updateTask_ok inside,ok_bind,updateTask_ok bound]
      exact ⟨found,rfl,back,first⟩
  · left
    simp only [run,ok_bind]
    exact ⟨stays,fun i runnable => absurd runnable (idle i)⟩

theorem scheduleYield_idle (few : sched.tasks.length ≤ 1) : sched.scheduleYield = .ok (none,sched) := by
  rw [scheduleYield,if_pos few]
  rfl

theorem scheduleYield_many (many : 1 < sched.tasks.length) : sched.scheduleYield = sched.findAndSwitch := by
  rw [scheduleYield,if_neg (by omega)]

theorem schedulePreempt_idle (few : sched.tasks.length ≤ 1) : sched.schedulePreempt = .ok (none,sched) := by
  rw [schedulePreempt,if_pos few]
  rfl

/-- A tick takes one from the quantum and looks for another task when nothing is left. -/
theorem schedulePreempt_many {task : Task} (many : 1 < sched.tasks.length)
    (found : sched.tasks[sched.current]? = some task) (left : 0 < task.quantumRemaining) :
    sched.schedulePreempt =
      if 1 < task.quantumRemaining then .ok (none,sched.spend) else sched.spend.findAndSwitch := by
  have inside := (List.getElem?_eq_some_iff.mp found).1
  rw [schedulePreempt,if_neg (by omega),index_ok.mpr found,ok_bind,if_pos left,updateTask_ok inside,ok_bind]
  by_cases more : 1 < task.quantumRemaining
  · rw [if_pos more,if_pos (by omega)]
    rfl
  · rw [if_neg more,if_neg (by omega)]
    rfl

end Scheduler

/-! What the steps leave alone: who the tasks are and which of them are terminated. -/

structure Status where
  serial : Nat
  id : UInt64
  terminated : Bool

def Status.dead (status : Status) : Status := {status with terminated := true}

def Status.kept (status : Status) : Bool := status.id = 0 ∨ status.terminated = false

def Status.name (status : Status) : Nat × UInt64 := (status.serial,status.id)

def Task.status (task : Task) : Status where
  serial := task.serial
  id := task.id
  terminated := task.state = .terminated

@[simp] theorem Task.status_renew (task : Task) : task.renew.status = task.status := rfl
@[simp] theorem Task.status_spend (task : Task) : task.spend.status = task.status := rfl
@[simp] theorem Task.status_terminate (task : Task) : task.terminate.status = task.status.dead := rfl

@[simp] theorem Task.status_demote (task : Task) : task.demote.status = task.status := by
  unfold demote
  split
  next running => simp [status,running]
  next _ => rfl

theorem Task.status_promote {task : Task} (runnable : task.Runnable) : task.promote.status = task.status := by
  rcases runnable with ready | running
  · simp [status,promote,ready]
  · simp [status,promote,running]

theorem Task.runnable_iff {task : Task} : task.Runnable ↔ task.state ≠ .terminated := by
  unfold Runnable
  cases task.state <;> simp

theorem map_modify {α β : Type} {items : List α} {i : Nat} {f : α → α} {g : α → β} {h : β → β}
    (same : ∀ item, items[i]? = some item → g (f item) = h (g item)) :
    (items.modify i f).map g = (items.map g).modify i h := by
  apply List.ext_getElem?
  intro j
  simp only [List.getElem?_map,List.getElem?_modify,Option.map_eq_map,Option.map_map]
  cases found : items[j]? with
  | none => rfl
  | some item =>
    by_cases here : i = j
    · subst here
      simp [same item found]
    · simp [here]

theorem map_modify_kept {α β : Type} {items : List α} {i : Nat} {f : α → α} {g : α → β}
    (same : ∀ item, items[i]? = some item → g (f item) = g item) : (items.modify i f).map g = items.map g := by
  rw [map_modify (h := id) same,List.modify_id]

namespace Scheduler

def statuses (sched : Scheduler) : List Status := sched.tasks.map Task.status

def names (sched : Scheduler) : List (Nat × UInt64) := sched.statuses.map Status.name

theorem statuses_editCurrent (sched : Scheduler) {f : Task → Task} (same : ∀ task, (f task).status = task.status) :
    (sched.editCurrent f).statuses = sched.statuses :=
  map_modify_kept fun task _ => same task

theorem statuses_switchTo {nextIdx : Nat} (runnable : RunnableAt sched.tasks nextIdx)
    (other : nextIdx ≠ sched.current) : (sched.switchTo nextIdx).statuses = sched.statuses := by
  obtain ⟨task,found,holds⟩ := runnable
  have target : (sched.tasks.modify sched.current Task.demote)[nextIdx]? = some task := by
    rw [List.getElem?_modify,found]
    simp [Ne.symm other]
  have promoted : (sched.switchTo nextIdx).statuses =
      (sched.tasks.modify sched.current Task.demote).map Task.status :=
    map_modify_kept fun changed same => by
      rw [target] at same
      cases same
      exact Task.status_promote holds
  exact promoted.trans (map_modify_kept fun task _ => task.status_demote)

end Scheduler

end PolarOs
