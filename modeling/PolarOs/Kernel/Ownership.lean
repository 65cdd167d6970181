import PolarOs.Kernel.Isolation
import PolarOs.Kernel.SchedulerRuns

/-! Scheduler and descriptor table together: tasks open and close files and end in one of
three ways, of which only `sys_exit` touches the table. A return from the entry function
is the scheduler's `exit`, `cmd_kill` its `kill`. -/
namespace PolarOs
open Library Library.Checked

variable {sched next : Scheduler}

/-- The table records no owner; `owner` is the spawn number of the task that opened a slot last. -/
structure Kernel where
  sched : Scheduler
  fds : FdTable
  owner : Nat → Option Nat

inductive KernelAction where
  | scheduler (action : Action)
  | call (fs : RamFs) (call : FileCall)
  | sysExit

def Scheduler.runningSerial (sched : Scheduler) : Option Nat := (sched.tasks[sched.current]?).map Task.serial

def Scheduler.ended (sched : Scheduler) : Action → Option Task
  | .exit => sched.tasks[sched.current]?
  | .kill id => sched.tasks.find? fun task => task.id = id ∧ task.state ≠ .terminated
  | .tick | .yield | .spawn _ => none

namespace Kernel

def new : Kernel where
  sched := .new
  fds := .empty
  owner := fun _ => none

def ownerAfter (kernel : Kernel) : FileCall → Reply → Nat → Option Nat
  | .openFile _,.ok fd => Function.update kernel.owner fd kernel.sched.runningSerial
  | _,_ => kernel.owner

def Legal (kernel : Kernel) : KernelAction → Prop
  | .scheduler action => PolarOs.Legal kernel.sched action
  | .call _ _ => True
  | .sysExit => PolarOs.Legal kernel.sched .exit

def perform (kernel : Kernel) : KernelAction → Checked Kernel
  | .scheduler action => do
    let (_,sched) ← PolarOs.perform kernel.sched action
    return {kernel with sched}
  | .call fs call =>
    let (reply,_,fds) := fileCall fs kernel.fds call
    .ok {kernel with fds,owner := kernel.ownerAfter call reply}
  | .sysExit => do
    let (_,sched) ← PolarOs.perform kernel.sched .exit
    return {kernel with sched,fds := sysExit kernel.fds}

def Step (kernel : Kernel) (action : KernelAction) (next : Kernel) : Prop :=
  kernel.Legal action ∧ kernel.perform action = .ok next

/-- Every open slot was opened by a task that is in the list and not terminated. -/
def Owned (kernel : Kernel) : Prop :=
  ∀ fd file, kernel.fds.slot fd = some file →
    ∃ task ∈ kernel.sched.tasks, kernel.owner fd = some task.serial ∧ task.state ≠ .terminated

def Releases (kernel : Kernel) : KernelAction → Prop
  | .scheduler action => ∀ task, kernel.sched.ended action = some task →
      ∀ fd file, kernel.fds.slot fd = some file → kernel.owner fd ≠ some task.serial
  | .call _ _ => True
  | .sysExit => True

def Releasing (kernel : Kernel) (action : KernelAction) (next : Kernel) : Prop :=
  kernel.Releases action ∧ Step kernel action next

end Kernel

/-! Who is alive after a step. -/

def Alive (serial : Nat) (sched : Scheduler) : Prop :=
  ∃ status ∈ sched.statuses, status.serial = serial ∧ status.terminated = false

theorem alive_iff {serial : Nat} :
    Alive serial sched ↔ ∃ task ∈ sched.tasks, task.serial = serial ∧ task.state ≠ .terminated := by
  simp [Alive,Scheduler.statuses,Task.status]

/-- When one place dies, its task is the only one that is no longer alive. -/
theorem alive_dead (sound : sched.Sound) {serial i : Nat} {status : Status} (found : sched.statuses[i]? = some status)
    (alive : Alive serial sched) :
    (∃ other ∈ sched.statuses.modify i Status.dead, other.serial = serial ∧ other.terminated = false) ↔
      status.serial ≠ serial := by
  constructor
  · intro survives same
    obtain ⟨changed,member,named,live⟩ := survives
    obtain ⟨j,entry⟩ := List.mem_iff_getElem?.mp member
    rw [List.getElem?_modify,Option.map_eq_map,Option.map_eq_some_iff] at entry
    obtain ⟨other,source,rfl⟩ := entry
    split at named
    next here => simp [here,Status.dead] at live
    next there => exact there (serial_unique sound found source (same.trans named.symm))
  · intro other
    obtain ⟨survivor,member,named,live⟩ := alive
    obtain ⟨j,source⟩ := List.mem_iff_getElem?.mp member
    have there : i ≠ j := by
      intro equal
      subst equal
      rw [found] at source
      cases source
      exact other named
    refine ⟨survivor,List.mem_of_getElem? (i := j) ?_,named,live⟩
    rw [List.getElem?_modify,source]
    simp [there]

theorem statuses_entry {i : Nat} {task : Task} (found : sched.tasks[i]? = some task) :
    sched.statuses[i]? = some task.status := by
  simp [Scheduler.statuses,found]

theorem killTask_ended (sched : Scheduler) (id : UInt64) :
    (∃ i task, sched.killTask id = (true,sched.killAt i) ∧ sched.tasks[i]? = some task ∧
      sched.ended (.kill id) = some task) ∨
    (sched.killTask id = (false,sched) ∧ sched.ended (.kill id) = none) := by
  unfold Scheduler.killTask Scheduler.ended
  dsimp only
  rw [List.find?_eq_bind_findIdx?_getElem?]
  cases search : sched.tasks.findIdx? fun task => task.id = id ∧ task.state ≠ .terminated with
  | some i =>
    have bound := (List.findIdx?_eq_some_iff_getElem.mp search).1
    exact Or.inl ⟨i,_,rfl,List.getElem?_eq_getElem bound,List.getElem?_eq_getElem bound⟩
  | none => exact Or.inr ⟨rfl,rfl⟩

theorem alive_of_statuses {serial : Nat} (same : next.statuses = sched.statuses) :
    Alive serial next ↔ Alive serial sched := by
  unfold Alive
  rw [same]

theorem step_alive (inv : sched.Inv) {action : Action} (step : Step sched action next) {serial : Nat}
    (alive : Alive serial sched) :
    Alive serial next ↔ ∀ task, sched.ended action = some task → task.serial ≠ serial := by
  obtain ⟨outcome,effect⟩ := step_effect inv step
  cases effect with
  | tick quiet => simp [alive_of_statuses quiet.statuses,alive,Scheduler.ended]
  | yield quiet => simp [alive_of_statuses quiet.statuses,alive,Scheduler.ended]
  | spawned name =>
    obtain ⟨status,member,facts⟩ := alive
    have kept : status ∈ (sched.spawn name).2.statuses := by
      rw [Scheduler.spawn_statuses]
      exact List.mem_append_left _ member
    exact iff_of_true ⟨status,kept,facts⟩ nofun
  | exited statuses issued switched =>
    obtain ⟨task,found,_⟩ := inv.running
    have ended : sched.ended .exit = some task := found
    rw [Alive,statuses,alive_dead inv.toSound (statuses_entry found) alive,ended]
    simp [Task.status]
  | @killed id i status next found named live statuses issued =>
    cases killTask_ended sched id with
    | inl killed =>
      obtain ⟨j,task,run,entry,ended⟩ := killed
      obtain ⟨_,outcome,performed⟩ := step
      simp only [perform,killAndCleanup,run,Except.ok.injEq,Prod.mk.injEq] at performed
      obtain ⟨_,rfl⟩ := performed
      have survivors : Alive serial (sched.killAt j).cleanupTerminated ↔
          ∃ other ∈ sched.statuses.modify j Status.dead, other.serial = serial ∧ other.terminated = false := by
        unfold Alive
        rw [Scheduler.cleanupTerminated_statuses,Scheduler.killAt_statuses]
        constructor
        · intro survives
          obtain ⟨other,member,facts⟩ := survives
          exact ⟨other,(List.mem_filter.mp member).1,facts⟩
        · intro survives
          obtain ⟨other,member,same,living⟩ := survives
          exact ⟨other,List.mem_filter.mpr ⟨member,by simp [Status.kept,living]⟩,same,living⟩
      rw [survivors,alive_dead inv.toSound (statuses_entry entry) alive,ended]
      simp [Task.status]
    | inr missed =>
      have search := List.find?_eq_none.mp missed.2
      obtain ⟨task,source,rfl⟩ := Option.map_eq_some_iff.mp (List.getElem?_map ▸ found)
      have living : task.state ≠ .terminated := by simpa [Task.status] using live
      exact absurd (decide_eq_true ⟨named,living⟩) (search task (List.mem_of_getElem? source))
  | @missed id none =>
    have ended : sched.ended (.kill id) = Option.none := by
      apply List.find?_eq_none.mpr
      intro task member matched
      have facts := of_decide_eq_true matched
      have dead := none task.status (List.mem_map_of_mem member) facts.1
      exact facts.2 (of_decide_eq_true dead)
    simp [alive,ended]

namespace Kernel

variable {kernel after : Kernel}

theorem owned_iff : kernel.Owned ↔ ∀ fd file, kernel.fds.slot fd = some file →
    ∃ serial, kernel.owner fd = some serial ∧ Alive serial kernel.sched := by
  unfold Owned
  simp only [alive_iff]
  constructor
  · intro owned fd file opened
    obtain ⟨task,member,owner,living⟩ := owned fd file opened
    exact ⟨task.serial,owner,task,member,rfl,living⟩
  · intro owned fd file opened
    obtain ⟨_,owner,task,member,rfl,living⟩ := owned fd file opened
    exact ⟨task,member,owner,living⟩

/-- What holds between the steps of a run in which every ending task has closed its slots. -/
structure Held (kernel : Kernel) : Prop where
  inv : kernel.sched.Inv
  slots : ∀ fd file, kernel.fds.slot fd = some file →
    reservedFds ≤ fd ∧ ∃ serial, kernel.owner fd = some serial ∧ Alive serial kernel.sched

theorem Held.owned (held : kernel.Held) : kernel.Owned :=
  owned_iff.mpr fun fd file opened => (held.slots fd file opened).2

theorem held_new : new.Held where
  inv := Scheduler.inv_new
  slots := by simp [new,FdTable.slot,FdTable.empty]

theorem runningSerial_alive (inv : sched.Inv) : ∃ serial, sched.runningSerial = some serial ∧ Alive serial sched := by
  obtain ⟨task,found,runs⟩ := inv.running
  refine ⟨task.serial,by rw [Scheduler.runningSerial,found]; rfl,alive_iff.mpr ?_⟩
  exact ⟨task,List.mem_of_getElem? found,rfl,by rw [runs]; decide⟩

/-- Only the slot a call opens gets a new owner, the running task. -/
theorem held_call (held : kernel.Held) (fs : RamFs) (call : FileCall)
    (run : kernel.perform (.call fs call) = .ok after) : after.Held := by
  obtain rfl := Except.ok.inj run
  refine ⟨held.inv,?_⟩
  intro slot file opened
  cases call with
  | openFile path =>
    change FdTable.slot (sysOpen fs path kernel.fds).2 slot = some file at opened
    change _ ∧ ∃ serial, kernel.ownerAfter (.openFile path) (sysOpen fs path kernel.fds).1 slot = some serial ∧ _
    cases sysOpen_cases fs path kernel.fds with
    | inl fails =>
      obtain ⟨⟨errno,failed⟩,same,_⟩ := fails
      rw [same] at opened
      rw [failed]
      exact held.slots slot file opened
    | inr opens =>
      obtain ⟨fd,fresh,_,run,found,_⟩ := opens
      rw [run,slot_update] at opened
      rw [run,ownerAfter]
      by_cases here : slot = fd.val
      · subst here
        rw [Function.update_self]
        exact ⟨(allocFd_some found).1,runningSerial_alive held.inv⟩
      · rw [if_neg here] at opened
        rw [Function.update_of_ne here]
        exact held.slots slot file opened
  | read fd len =>
    change FdTable.slot (sysRead fs fd len kernel.fds).2.2 slot = some file at opened
    cases sysRead_cases fs fd len kernel.fds with
    | inl fails =>
      rw [congrArg Prod.snd fails.2.1] at opened
      exact held.slots slot file opened
    | inr reads =>
      obtain ⟨inside,before,_,held',_,run⟩ := reads
      rw [run,slot_update] at opened
      split at opened
      next here => exact held.slots slot before (here ▸ held')
      next => exact held.slots slot file opened
  | close fd =>
    change FdTable.slot (sysClose fd kernel.fds).2 slot = some file at opened
    cases sysClose_cases fd kernel.fds with
    | inl fails =>
      rw [fails.2.1] at opened
      exact held.slots slot file opened
    | inr closes =>
      obtain ⟨inside,_,_,run⟩ := closes
      rw [run,slot_update] at opened
      split at opened
      next => cases opened
      next => exact held.slots slot file opened

theorem held_sysExit (held : kernel.Held) (step : Step kernel .sysExit after) : after.Held := by
  obtain ⟨legal,run⟩ := step
  obtain ⟨⟨outcome,sched⟩,performed,same⟩ := bind_ok.mp run
  obtain rfl := Except.ok.inj same
  have scheduled : PolarOs.Step kernel.sched .exit sched := ⟨legal,outcome,performed⟩
  refine ⟨step_inv held.inv scheduled,?_⟩
  intro slot file opened
  change (sysExit kernel.fds).slot slot = some file at opened
  rw [sysExit_slot] at opened
  split at opened
  next => cases opened
  next low => exact absurd (held.slots slot file opened).1 low

theorem scheduler_step {action : Action} (step : Step kernel (.scheduler action) after) :
    ∃ sched, PolarOs.Step kernel.sched action sched ∧ after = {kernel with sched} := by
  obtain ⟨legal,run⟩ := step
  obtain ⟨⟨outcome,sched⟩,performed,same⟩ := bind_ok.mp run
  exact ⟨sched,⟨legal,outcome,performed⟩,(Except.ok.inj same).symm⟩

/-- A step of the scheduler leaves every slot with a living owner exactly when the task it
ends owns none. -/
theorem owned_scheduler (held : kernel.Held) {action : Action} (step : Step kernel (.scheduler action) after) :
    after.Owned ↔ kernel.Releases (.scheduler action) := by
  obtain ⟨sched,scheduled,rfl⟩ := scheduler_step step
  rw [owned_iff]
  constructor
  · intro owned task ended fd file opened owner
    obtain ⟨_,serial,known,alive⟩ := held.slots fd file opened
    obtain ⟨other,same,survives⟩ := owned fd file opened
    obtain rfl := Option.some.inj (known.symm.trans owner)
    obtain rfl := Option.some.inj (owner.symm.trans same)
    exact (step_alive held.inv scheduled alive).mp survives task ended rfl
  · intro releases fd file opened
    obtain ⟨_,serial,known,alive⟩ := held.slots fd file opened
    refine ⟨serial,known,(step_alive held.inv scheduled alive).mpr ?_⟩
    intro task ended same
    exact releases task ended fd file opened (same ▸ known)

theorem held_scheduler (held : kernel.Held) {action : Action} (step : Step kernel (.scheduler action) after)
    (owned : after.Owned) : after.Held := by
  obtain ⟨sched,scheduled,rfl⟩ := scheduler_step step
  refine ⟨step_inv held.inv scheduled,?_⟩
  intro fd file opened
  exact ⟨(held.slots fd file opened).1,owned_iff.mp owned fd file opened⟩

theorem held_step (held : kernel.Held) {action : KernelAction} (step : Releasing kernel action after) :
    after.Held := by
  cases action with
  | scheduler action => exact held_scheduler held step.2 ((owned_scheduler held step.2).mpr step.1)
  | call fs call => exact held_call held fs call step.2.2
  | sysExit => exact held_sysExit held step.2

theorem owned_step (held : kernel.Held) {action : KernelAction} (step : Step kernel action after) :
    after.Owned ↔ kernel.Releases action := by
  cases action with
  | scheduler action => exact owned_scheduler held step
  | call fs call => exact iff_of_true (held_call held fs call step.2).owned trivial
  | sysExit => exact iff_of_true (held_sysExit held step).owned trivial

/-- In a run whose returning and killed tasks have closed their descriptors, every open
slot belongs to a living task; the next step keeps this exactly when it is of that kind. -/
theorem descriptors_owned {actions : List KernelAction} (run : Run Releasing new actions kernel) :
    kernel.Owned ∧ ∀ action after, Step kernel action after → (after.Owned ↔ kernel.Releases action) := by
  have held : kernel.Held := run.keeps (fun _ _ _ held step => held_step held step) held_new
  exact ⟨held.owned,fun _ _ step => owned_step held step⟩

/-- A task that closes its file and returns. -/
theorem descriptors_owned_close :
    ∃ kernel, Run Releasing new [.scheduler (.spawn (lit "a")),.scheduler .yield,
      .call (RamFs.new.write [] ['a'] [1,2,3]).2 (.openFile [97]),.call RamFs.new (.close 3),.scheduler .exit] kernel ∧
        kernel.Owned := by
  have shut : ∀ fd file, FdTable.slot (Function.update (Function.update FdTable.empty ⟨3,by decide⟩
      (some ⟨[],['a'],0⟩)) ⟨3,by decide⟩ none) fd ≠ some file := by
    intro fd file opened
    rw [slot_update,slot_update] at opened
    by_cases here : fd = 3
    · rw [if_pos here] at opened
      cases opened
    · rw [if_neg here,if_neg here] at opened
      simp [FdTable.slot,FdTable.empty] at opened
  have run : Run Releasing new [.scheduler (.spawn (lit "a")),.scheduler .yield,
      .call (RamFs.new.write [] ['a'] [1,2,3]).2 (.openFile [97]),.call RamFs.new (.close 3),.scheduler .exit] _ :=
    .cons ⟨fun _ ended => absurd ended.symm (Option.some_ne_none _),trivial,rfl⟩
      (.cons ⟨fun _ ended => absurd ended.symm (Option.some_ne_none _),trivial,rfl⟩
      (.cons ⟨trivial,trivial,rfl⟩ (.cons ⟨trivial,trivial,rfl⟩
      (.cons ⟨fun _ _ fd file opened => absurd opened (shut fd file),(by decide : (1 : Nat) ≠ 0),rfl⟩ (.nil _)))))
  exact ⟨_,run,(descriptors_owned run).1⟩

/-- A task opens a file and returns from its entry function. -/
theorem descriptors_leak :
    ∃ kernel, Run Step new [.scheduler (.spawn (lit "a")),.scheduler .yield,
      .call (RamFs.new.write [] ['a'] [1,2,3]).2 (.openFile [97]),.scheduler .exit] kernel ∧ ¬kernel.Owned := by
  have run : Run Step new [.scheduler (.spawn (lit "a")),.scheduler .yield,
      .call (RamFs.new.write [] ['a'] [1,2,3]).2 (.openFile [97]),.scheduler .exit] {
        sched := {
          tasks := [Task.kernelTask,{Task.new 1 (lit "a") with state := .terminated}]
          current := 0
          nextTaskId := 2 }
        fds := (sysOpen (RamFs.new.write [] ['a'] [1,2,3]).2 [97] FdTable.empty).2
        owner := Function.update (fun _ => none) 3 (some 1) } :=
    .cons ⟨trivial,rfl⟩ (.cons ⟨trivial,rfl⟩ (.cons ⟨trivial,rfl⟩ (.cons ⟨(by decide : (1 : Nat) ≠ 0),rfl⟩ (.nil _))))
  refine ⟨_,run,?_⟩
  intro owned
  obtain ⟨task,member,owner,living⟩ := owned 3 ⟨[],['a'],0⟩ rfl
  have serial : 1 = task.serial := Option.some.inj owner
  cases List.mem_cons.mp member with
  | inl kernel =>
    rw [kernel] at serial
    cases serial
  | inr rest =>
    rw [List.mem_singleton.mp rest] at living
    exact living rfl

end Kernel

end PolarOs
