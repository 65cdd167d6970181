import PolarOs.Kernel.SchedulerSteps

/-! The invariant of the scheduler over whole runs. `Sound` also holds while the exiting
task is still current, `Steady` adds that the current task runs and also holds when its
quantum is spent, `Inv` that it has some quantum left. -/
namespace PolarOs
open Library Library.Checked Library.Cyclic

variable {sched next : Scheduler}

namespace Scheduler

structure Sound (sched : Scheduler) : Prop where
  kernel : ∃ status, sched.statuses[0]? = some status ∧ status.serial = 0 ∧ status.terminated = false
  inside : sched.current < sched.tasks.length
  alone : ∀ i task, sched.tasks[i]? = some task → task.state = .running → i = sched.current
  issued : ∀ name ∈ sched.names, name.2 = UInt64.ofNat name.1 ∧ name.1 < sched.nextTaskId
  distinct : (sched.names.map Prod.fst).Nodup

structure Steady (sched : Scheduler) : Prop extends Sound sched where
  running : ∃ task, sched.tasks[sched.current]? = some task ∧ task.state = .running

structure Inv (sched : Scheduler) : Prop extends Steady sched where
  quantum : ∀ task, sched.tasks[sched.current]? = some task →
    1 ≤ task.quantumRemaining ∧ task.quantumRemaining ≤ defaultQuantum

theorem inv_new : new.Inv where
  kernel := ⟨Task.kernelTask.status,rfl,rfl,rfl⟩
  inside := by decide
  alone := by
    intro i task found _
    cases i with
    | zero => rfl
    | succ i => simp [new] at found
  issued := by simp [names,statuses,new,Task.status,Task.kernelTask,Status.name]
  distinct := by simp [names,statuses,new]
  running := ⟨Task.kernelTask,rfl,rfl⟩
  quantum := by
    intro task found
    cases found
    exact ⟨by decide,by decide⟩

theorem Sound.kernelRunnable (sound : sched.Sound) : RunnableAt sched.tasks 0 := by
  obtain ⟨status,found,_,live⟩ := sound.kernel
  obtain ⟨task,first,rfl⟩ := Option.map_eq_some_iff.mp (List.getElem?_map ▸ found)
  exact ⟨task,first,Task.runnable_iff.mpr (by simpa [Task.status] using live)⟩

theorem Sound.named {status : Status} (sound : sched.Sound) (member : status ∈ sched.statuses) :
    status.id = UInt64.ofNat status.serial ∧ status.serial < sched.nextTaskId :=
  sound.issued status.name (List.mem_map_of_mem member)

theorem Steady.single {i : Nat} {task : Task} (steady : sched.Steady) (found : sched.tasks[i]? = some task) :
    task.state = .running ↔ i = sched.current := by
  refine ⟨steady.alone i task found,fun here => ?_⟩
  obtain ⟨other,same,state⟩ := steady.running
  rw [← here,found] at same
  cases same
  exact state

/-! One edit after another. -/

theorem steady_current (steady : sched.Steady) {f : Task → Task} (status : ∀ task, (f task).status = task.status)
    (state : ∀ task, (f task).state = task.state) : (sched.editCurrent f).Steady := by
  have kept := sched.statuses_editCurrent status
  refine {
    kernel := ?kernel,inside := ?inside,alone := ?alone,issued := ?issued,distinct := ?distinct,
    running := ?running }
  case kernel =>
    rw [kept]
    exact steady.kernel
  case inside =>
    simpa [editCurrent] using steady.inside
  case alone =>
    intro i other found runs
    rw [editCurrent_entry,Option.map_eq_some_iff] at found
    obtain ⟨before,source,rfl⟩ := found
    refine steady.alone i before source ?_
    split at runs
    next here => exact (state before).symm.trans runs
    next there => exact runs
  case issued =>
    rw [names,kept]
    exact steady.issued
  case distinct =>
    rw [names,kept]
    exact steady.distinct
  case running =>
    obtain ⟨task,found,runs⟩ := steady.running
    exact ⟨f task,(editCurrent_entry ..).trans (by simp [editCurrent,found]),(state task).trans runs⟩

theorem editCurrent_current {f : Task → Task} {task : Task}
    (found : (sched.editCurrent f).tasks[(sched.editCurrent f).current]? = some task) :
    ∃ before, sched.tasks[sched.current]? = some before ∧ task = f before := by
  rw [editCurrent_entry,Option.map_eq_some_iff] at found
  obtain ⟨before,source,rfl⟩ := found
  exact ⟨before,source,if_pos rfl⟩

theorem inv_stay (steady : sched.Steady) : sched.stay.Inv where
  toSteady := steady_current steady Task.status_renew fun _ => rfl
  quantum := by
    intro task found
    obtain ⟨before,_,rfl⟩ := editCurrent_current found
    exact ⟨Nat.succ_le_succ (Nat.zero_le 9),Nat.le_refl _⟩

theorem steady_spend (steady : sched.Steady) : sched.spend.Steady :=
  steady_current steady Task.status_spend fun _ => rfl

theorem inv_spend {task : Task} (inv : sched.Inv) (found : sched.tasks[sched.current]? = some task)
    (left : 1 < task.quantumRemaining) : sched.spend.Inv where
  toSteady := steady_spend inv.toSteady
  quantum := by
    intro spent same
    obtain ⟨before,source,rfl⟩ := editCurrent_current same
    rw [found] at source
    cases source
    have bound := (inv.quantum task found).2
    simp only [Task.spend]
    omega

theorem demote_state (task : Task) : task.demote.state ≠ .running := by
  unfold Task.demote
  split
  next _ => simp
  next idle => exact idle

/-- A switch restores the invariant, also from a current task that is terminated. -/
theorem inv_switchTo {nextIdx : Nat} (sound : sched.Sound) (runnable : RunnableAt sched.tasks nextIdx)
    (other : nextIdx ≠ sched.current) : (sched.switchTo nextIdx).Inv := by
  have entry : ∀ i, (sched.switchTo nextIdx).tasks[i]? = (sched.tasks[i]?).map fun task =>
      if nextIdx = i then task.promote else if sched.current = i then task.demote else task := by
    intro i
    simp only [switchTo,List.getElem?_modify,Option.map_eq_map,Option.map_map]
    cases sched.tasks[i]? with
    | none => rfl
    | some task =>
      by_cases here : nextIdx = i
      · have away : sched.current ≠ i := fun same => other (here.trans same.symm)
        simp [here,away]
      · simp [here]
  have kept := statuses_switchTo runnable other
  refine {
    kernel := ?kernel,inside := ?inside,alone := ?alone,issued := ?issued,distinct := ?distinct,
    running := ?running,quantum := ?quantum }
  case kernel =>
    rw [kept]
    exact sound.kernel
  case inside =>
    simpa [switchTo] using runnableAt_lt runnable
  case alone =>
    intro i task found runs
    rw [entry,Option.map_eq_some_iff] at found
    obtain ⟨before,source,rfl⟩ := found
    split_ifs at runs with here old
    · exact here.symm
    · exact absurd runs (demote_state before)
    · exact absurd (sound.alone i before source runs).symm old
  case issued =>
    rw [names,kept]
    exact sound.issued
  case distinct =>
    rw [names,kept]
    exact sound.distinct
  case running =>
    obtain ⟨task,found,_⟩ := runnable
    exact ⟨task.promote,(entry nextIdx).trans (by simp [found]),rfl⟩
  case quantum =>
    intro task found
    obtain ⟨before,_,rfl⟩ := Option.map_eq_some_iff.mp ((entry nextIdx).symm.trans found)
    rw [if_pos rfl]
    exact ⟨Nat.succ_le_succ (Nat.zero_le 9),Nat.le_refl _⟩

/-- What the pair of context pointers says about the step that returned it. -/
def Switched (sched : Scheduler) : Option Switch → Scheduler → Prop
  | none,next => next.current = sched.current
  | some (old,new),next => old = sched.current ∧ new = next.current ∧ old ≠ new ∧ RunnableAt sched.tasks new

/-- A step that changes neither who the tasks are nor which of them are terminated. -/
structure Quiet (sched : Scheduler) (contexts : Option Switch) (next : Scheduler) : Prop where
  inv : next.Inv
  statuses : next.statuses = sched.statuses
  issued : next.nextTaskId = sched.nextTaskId
  switched : Switched sched contexts next

theorem quiet_stay (steady : sched.Steady) : Quiet sched none sched.stay where
  inv := inv_stay steady
  statuses := sched.statuses_editCurrent Task.status_renew
  issued := rfl
  switched := rfl

theorem quiet_switchTo {new : Nat} (steady : sched.Steady) (runnable : RunnableAt sched.tasks new)
    (other : new ≠ sched.current) : Quiet sched (some (sched.current,new)) (sched.switchTo new) where
  inv := inv_switchTo steady.toSound runnable other
  statuses := statuses_switchTo runnable other
  issued := rfl
  switched := ⟨rfl,rfl,other.symm,runnable⟩

theorem findAndSwitch_quiet (steady : sched.Steady) :
    ∃ contexts next, sched.findAndSwitch = .ok (contexts,next) ∧ Quiet sched contexts next := by
  rcases findAndSwitch_spec steady.inside with ⟨run,_⟩ | ⟨new,run,other,first⟩
  · exact ⟨none,sched.stay,run,quiet_stay steady⟩
  · exact ⟨some (sched.current,new),sched.switchTo new,run,quiet_switchTo steady first.holds other⟩

theorem scheduleYield_quiet (inv : sched.Inv) :
    ∃ contexts next, sched.scheduleYield = .ok (contexts,next) ∧ Quiet sched contexts next := by
  by_cases many : 1 < sched.tasks.length
  · rw [scheduleYield_many many]
    exact findAndSwitch_quiet inv.toSteady
  · exact ⟨none,sched,scheduleYield_idle (by omega),inv,rfl,rfl,rfl⟩

theorem runnableAt_spend {i : Nat} : RunnableAt sched.spend.tasks i ↔ RunnableAt sched.tasks i := by
  simp only [RunnableAt,editCurrent_entry]
  constructor
  · intro holds
    obtain ⟨task,found,runnable⟩ := holds
    obtain ⟨before,source,rfl⟩ := Option.map_eq_some_iff.mp found
    refine ⟨before,source,?_⟩
    split at runnable <;> exact runnable
  · intro holds
    obtain ⟨task,found,runnable⟩ := holds
    refine ⟨_,by rw [found]; rfl,?_⟩
    split <;> exact runnable

theorem schedulePreempt_quiet (inv : sched.Inv) :
    ∃ contexts next, sched.schedulePreempt = .ok (contexts,next) ∧ Quiet sched contexts next := by
  obtain ⟨task,found,_⟩ := inv.running
  have left := (inv.quantum task found).1
  have kept := sched.statuses_editCurrent Task.status_spend
  by_cases many : 1 < sched.tasks.length
  · rw [schedulePreempt_many many found left]
    split
    next more => exact ⟨none,sched.spend,rfl,inv_spend inv found more,kept,rfl,rfl⟩
    next last =>
      obtain ⟨contexts,next,run,quiet⟩ := findAndSwitch_quiet (steady_spend inv.toSteady)
      refine ⟨contexts,next,run,quiet.inv,quiet.statuses.trans kept,quiet.issued,?_⟩
      cases contexts with
      | none => exact quiet.switched
      | some pair =>
        obtain ⟨here,there,other,runnable⟩ := quiet.switched
        exact ⟨here,there,other,runnableAt_spend.mp runnable⟩
  · exact ⟨none,sched,schedulePreempt_idle (by omega),inv,rfl,rfl,rfl⟩

theorem names_dead (statuses : List Status) (i : Nat) :
    (statuses.modify i Status.dead).map Status.name = statuses.map Status.name :=
  map_modify_kept fun _ _ => rfl

theorem statuses_terminate (sched : Scheduler) :
    (sched.editCurrent Task.terminate).statuses = sched.statuses.modify sched.current Status.dead :=
  map_modify fun task _ => task.status_terminate

theorem sound_terminate (inv : sched.Inv) (user : sched.current ≠ 0) :
    (sched.editCurrent Task.terminate).Sound := by
  have kept : (sched.editCurrent Task.terminate).names = sched.names := by
    rw [names,statuses_terminate,names_dead,names]
  refine { kernel := ?kernel,inside := ?inside,alone := ?alone,issued := ?issued,distinct := ?distinct }
  case kernel =>
    obtain ⟨status,found,facts⟩ := inv.kernel
    exact ⟨status,by rw [statuses_terminate,List.getElem?_modify,found]; simp [user],facts⟩
  case inside =>
    simpa [editCurrent] using inv.inside
  case alone =>
    intro i task found runs
    rw [editCurrent_entry,Option.map_eq_some_iff] at found
    obtain ⟨before,source,rfl⟩ := found
    split at runs
    next here => exact here.symm
    next there => exact inv.alone i before source runs
  case issued =>
    rw [kept]
    exact inv.issued
  case distinct =>
    rw [kept]
    exact inv.distinct

theorem runnableAt_terminate {i : Nat} (runnable : RunnableAt (sched.editCurrent Task.terminate).tasks i) :
    i ≠ sched.current ∧ RunnableAt sched.tasks i := by
  obtain ⟨task,found,holds⟩ := runnable
  rw [editCurrent_entry,Option.map_eq_some_iff] at found
  obtain ⟨before,source,rfl⟩ := found
  split at holds
  next here => exact absurd rfl (Task.runnable_iff.mp holds)
  next there => exact ⟨Ne.symm there,before,source,holds⟩

/-- An exit always finds another task: the kernel task at least. -/
theorem exitCurrentTask_switches (inv : sched.Inv) (user : sched.current ≠ 0) :
    ∃ new next, exitCurrentTask sched = .ok (some (sched.current,new),next) ∧ next.Inv ∧
      next.statuses = sched.statuses.modify sched.current Status.dead ∧ next.nextTaskId = sched.nextTaskId ∧
      Switched sched (some (sched.current,new)) next := by
  have inside := inv.inside
  have sound := sound_terminate inv user
  have many : 1 < (sched.editCurrent Task.terminate).tasks.length := by
    have same := sound.inside
    simp only [editCurrent] at same ⊢
    omega
  have exits : exitCurrentTask sched = (sched.editCurrent Task.terminate).findAndSwitch := by
    rw [exitCurrentTask,terminateCurrent,updateTask_ok inside]
    exact scheduleYield_many many
  rw [exits]
  rcases findAndSwitch_spec sound.inside with ⟨run,alone⟩ | ⟨new,run,other,first⟩
  · exact absurd (alone 0 sound.kernelRunnable).symm user
  · have runnable := runnableAt_terminate first.holds
    refine ⟨new,_,run,inv_switchTo sound first.holds other,?_,rfl,rfl,rfl,runnable.1.symm,runnable.2⟩
    rw [statuses_switchTo first.holds other,statuses_terminate]

theorem spawn_statuses (sched : Scheduler) (name : Str) : (sched.spawn name).2.statuses =
    sched.statuses ++ [(Task.new sched.nextTaskId name).status] :=
  List.map_append

theorem spawn_inv (inv : sched.Inv) (name : Str) : (sched.spawn name).2.Inv := by
  have grown : (sched.spawn name).2.tasks = sched.tasks ++ [Task.new sched.nextTaskId name] := rfl
  have inside := inv.inside
  have renamed : (sched.spawn name).2.names =
      sched.names ++ [(sched.nextTaskId,UInt64.ofNat sched.nextTaskId)] := by
    rw [names,spawn_statuses,List.map_append]
    rfl
  have same : (sched.spawn name).2.tasks[sched.current]? = sched.tasks[sched.current]? := by
    rw [grown,List.getElem?_append_left inside]
  refine {
    kernel := ?kernel,inside := ?inside,alone := ?alone,issued := ?issued,distinct := ?distinct,
    running := ?running,quantum := ?quantum }
  case kernel =>
    obtain ⟨status,found,facts⟩ := inv.kernel
    refine ⟨status,?_,facts⟩
    rw [spawn_statuses,List.getElem?_append_left (List.getElem?_eq_some_iff.mp found).1,found]
  case inside =>
    rw [grown,List.length_append]
    exact Nat.lt_add_right _ inside
  case alone =>
    intro i task found runs
    rw [grown,List.getElem?_append] at found
    split at found
    next old => exact inv.alone i task found runs
    next fresh =>
      have made := List.mem_of_getElem? found
      simp only [List.mem_singleton] at made
      simp [made,Task.new] at runs
  case issued =>
    intro issuedName member
    rw [renamed,List.mem_append,List.mem_singleton] at member
    rcases member with old | rfl
    · exact ⟨(inv.issued issuedName old).1,Nat.lt_succ_of_lt (inv.issued issuedName old).2⟩
    · exact ⟨rfl,Nat.lt_succ_self _⟩
  case distinct =>
    rw [renamed,List.map_append,List.map_singleton,List.nodup_append]
    refine ⟨inv.distinct,List.nodup_singleton _,?_⟩
    intro serial old fresh made
    obtain ⟨issuedName,member,rfl⟩ := List.mem_map.mp old
    have below := (inv.issued issuedName member).2
    rw [List.mem_singleton.mp made]
    exact Nat.ne_of_lt below
  case running =>
    obtain ⟨task,found,runs⟩ := inv.running
    exact ⟨task,same.trans found,runs⟩
  case quantum =>
    exact fun task found => inv.quantum task (same.symm.trans found)

theorem cleanupTerminated_statuses (sched : Scheduler) :
    sched.cleanupTerminated.statuses = sched.statuses.filter Status.kept := by
  simp only [cleanupTerminated,statuses,List.filter_map]
  congr 1
  apply List.filter_congr
  intro task _
  simp [Status.kept,Task.status]

/-- With the running kernel task in front, the clean-up takes dead tasks out behind it. -/
theorem cleanupTerminated_cons {kernel : Task} {rest : List Task} (shape : sched.tasks = kernel::rest)
    (runs : kernel.state = .running) : sched.cleanupTerminated = {sched with
      tasks := kernel::rest.filter (fun task => task.id = 0 ∨ task.state ≠ .terminated)
      current := 0 } := by
  simp [cleanupTerminated,shape,runs,List.findIdx?_cons]

theorem inv_cleanupTerminated (inv : sched.Inv) (kernelRuns : sched.current = 0) :
    sched.cleanupTerminated.Inv := by
  obtain ⟨kernel,found,runs⟩ := inv.running
  rw [kernelRuns] at found
  obtain ⟨rest,shape⟩ : ∃ rest, sched.tasks = kernel::rest := by
    cases shape : sched.tasks with
    | nil => simp [shape] at found
    | cons first rest =>
      rw [shape] at found
      cases found
      exact ⟨rest,rfl⟩
  have cleaned := cleanupTerminated_cons shape runs
  have fewer : (sched.cleanupTerminated.names).Sublist sched.names := by
    rw [names,cleanupTerminated_statuses]
    exact List.filter_sublist.map _
  refine {
    kernel := ?kernel,inside := ?inside,alone := ?alone,issued := ?issued,distinct := ?distinct,
    running := ?running,quantum := ?quantum }
  case kernel =>
    obtain ⟨status,head,facts⟩ := inv.kernel
    refine ⟨status,?_,facts⟩
    simp only [statuses,cleaned,shape,List.map_cons] at head ⊢
    exact head
  case inside =>
    simp [cleaned]
  case alone =>
    intro i task entry state
    rw [cleaned] at entry ⊢
    cases i with
    | zero => rfl
    | succ i =>
      obtain ⟨j,source⟩ := List.mem_iff_getElem?.mp (List.mem_filter.mp (List.mem_of_getElem? entry)).1
      have alone := inv.alone (j + 1) task (by rw [shape]; exact source) state
      rw [kernelRuns] at alone
      cases alone
  case issued =>
    intro name member
    have issued := inv.issued name (fewer.subset member)
    rw [cleaned]
    exact issued
  case distinct =>
    exact inv.distinct.sublist (fewer.map _)
  case running =>
    rw [cleaned]
    exact ⟨kernel,rfl,runs⟩
  case quantum =>
    intro task entry
    rw [cleaned] at entry
    cases entry
    exact inv.quantum kernel (by rw [kernelRuns]; exact found)

def killAt (sched : Scheduler) (i : Nat) : Scheduler :=
  {sched with tasks := sched.tasks.modify i Task.terminate}

theorem killAt_statuses (sched : Scheduler) (i : Nat) :
    (sched.killAt i).statuses = sched.statuses.modify i Status.dead :=
  map_modify fun task _ => task.status_terminate

theorem inv_killAt {i : Nat} (inv : sched.Inv) (user : i ≠ 0) (other : i ≠ sched.current) :
    (sched.killAt i).Inv := by
  have entry : ∀ j, (sched.killAt i).tasks[j]? = (sched.tasks[j]?).map fun task =>
      if i = j then task.terminate else task := fun j => List.getElem?_modify ..
  have kept : (sched.killAt i).names = sched.names := by
    rw [names,killAt_statuses,names_dead,names]
  have same : (sched.killAt i).tasks[sched.current]? = sched.tasks[sched.current]? := by
    rw [entry]
    simp [other]
  refine {
    kernel := ?kernel,inside := ?inside,alone := ?alone,issued := ?issued,distinct := ?distinct,
    running := ?running,quantum := ?quantum }
  case kernel =>
    obtain ⟨status,found,facts⟩ := inv.kernel
    exact ⟨status,by rw [killAt_statuses,List.getElem?_modify,found]; simp [user],facts⟩
  case inside =>
    simpa [killAt] using inv.inside
  case alone =>
    intro j task found runs
    obtain ⟨before,source,rfl⟩ := Option.map_eq_some_iff.mp ((entry j).symm.trans found)
    split at runs
    next here => cases runs
    next there => exact inv.alone j before source runs
  case issued =>
    rw [kept]
    exact inv.issued
  case distinct =>
    rw [kept]
    exact inv.distinct
  case running =>
    obtain ⟨task,found,runs⟩ := inv.running
    exact ⟨task,same.trans found,runs⟩
  case quantum =>
    exact fun task found => inv.quantum task (same.symm.trans found)

theorem killTask_spec (sched : Scheduler) (id : UInt64) :
    (∃ i status, sched.killTask id = (true,sched.killAt i) ∧ sched.statuses[i]? = some status ∧
      status.id = id ∧ status.terminated = false) ∨
    (sched.killTask id = (false,sched) ∧ ∀ status ∈ sched.statuses, status.id = id → status.terminated = true) := by
  unfold killTask
  split
  next i found =>
    obtain ⟨inside,matched,_⟩ := List.findIdx?_eq_some_iff_getElem.mp found
    simp only [decide_eq_true_eq] at matched
    refine .inl ⟨i,(sched.tasks[i]).status,rfl,?_,matched.1,?_⟩
    · simp [statuses,inside]
    · simpa [Task.status] using matched.2
  next missed =>
    refine .inr ⟨rfl,?_⟩
    rw [List.findIdx?_eq_none_iff] at missed
    intro status member same
    obtain ⟨task,source,rfl⟩ := List.mem_map.mp member
    have none := missed task source
    simp only [decide_eq_false_iff_not,not_and,not_not] at none
    simpa [Task.status] using none same

end Scheduler

end PolarOs
