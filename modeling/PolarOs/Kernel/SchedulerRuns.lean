import PolarOs.Kernel.SchedulerInvariant
import PolarOs.Library.Transition
import Mathlib.Data.Set.Insert

/-! What every legal step does, and what therefore holds in whole runs: the scheduler is
well formed after every step, and a terminated task never runs again. -/
namespace PolarOs
open Library Library.Checked

variable {sched next : Scheduler}

inductive Effect (sched : Scheduler) : Action → Outcome → Scheduler → Prop
  | tick {contexts next} (quiet : sched.Quiet contexts next) : Effect sched .tick (.switch contexts) next
  | yield {contexts next} (quiet : sched.Quiet contexts next) : Effect sched .yield (.switch contexts) next
  | spawned (name : Str) : Effect sched (.spawn name) (.spawned (sched.spawn name).1) (sched.spawn name).2
  | exited {new next} (statuses : next.statuses = sched.statuses.modify sched.current Status.dead)
      (issued : next.nextTaskId = sched.nextTaskId)
      (switched : sched.Switched (some (sched.current,new)) next) :
      Effect sched .exit (.switch (some (sched.current,new))) next
  | killed {id i status next} (found : sched.statuses[i]? = some status) (named : status.id = id)
      (live : status.terminated = false)
      (statuses : next.statuses = (sched.statuses.modify i Status.dead).filter Status.kept)
      (issued : next.nextTaskId = sched.nextTaskId) : Effect sched (.kill id) (.killed true) next
  | missed {id} (none : ∀ status ∈ sched.statuses, status.id = id → status.terminated = true) :
      Effect sched (.kill id) (.killed false) sched

/-- A legal step never faults, keeps the invariant and has one of the effects. -/
theorem perform_effect (inv : sched.Inv) {action : Action} (legal : Legal sched action) :
    ∃ outcome next, perform sched action = .ok (outcome,next) ∧ next.Inv ∧ Effect sched action outcome next := by
  cases action with
  | tick =>
    obtain ⟨contexts,next,run,quiet⟩ := Scheduler.schedulePreempt_quiet inv
    exact ⟨.switch contexts,next,by simp [perform,run],quiet.inv,.tick quiet⟩
  | yield =>
    obtain ⟨contexts,next,run,quiet⟩ := Scheduler.scheduleYield_quiet inv
    exact ⟨.switch contexts,next,by simp [perform,run],quiet.inv,.yield quiet⟩
  | spawn name => exact ⟨_,_,rfl,Scheduler.spawn_inv inv name,.spawned name⟩
  | exit =>
    obtain ⟨new,next,run,nextInv,statuses,issued,switched⟩ := Scheduler.exitCurrentTask_switches inv legal
    exact ⟨_,next,by simp [perform,run],nextInv,.exited statuses issued switched⟩
  | kill id =>
    obtain ⟨kernelRuns,user⟩ := legal
    rcases sched.killTask_spec id with ⟨i,status,run,found,named,live⟩ | ⟨run,none⟩
    · have other : i ≠ 0 := by
        intro equal
        subst equal
        obtain ⟨kernel,head,serial,_⟩ := inv.kernel
        rw [found] at head
        cases head
        apply user
        rw [← named,(inv.named (List.mem_of_getElem? found)).1,serial]
        rfl
      have killed := Scheduler.inv_killAt inv other (by rw [kernelRuns]; exact other)
      refine ⟨.killed true,(sched.killAt i).cleanupTerminated,by simp [perform,killAndCleanup,run],
        Scheduler.inv_cleanupTerminated killed kernelRuns,.killed found named live ?_ rfl⟩
      rw [Scheduler.cleanupTerminated_statuses,Scheduler.killAt_statuses]
    · exact ⟨.killed false,sched,by simp [perform,killAndCleanup,run],inv,.missed none⟩

theorem step_inv {action : Action} (inv : sched.Inv) (step : Step sched action next) : next.Inv := by
  obtain ⟨legal,outcome,run⟩ := step
  obtain ⟨_,other,same,otherInv,_⟩ := perform_effect inv legal
  rw [run] at same
  cases same
  exact otherInv

theorem step_effect {action : Action} (inv : sched.Inv) (step : Step sched action next) :
    ∃ outcome, Effect sched action outcome next := by
  obtain ⟨legal,outcome,run⟩ := step
  obtain ⟨_,_,same,_,effect⟩ := perform_effect inv legal
  rw [run] at same
  cases same
  exact ⟨outcome,effect⟩

theorem run_inv {actions : List Action} (run : Run Step Scheduler.new actions sched) : sched.Inv :=
  run.keeps (fun _ _ _ inv step => step_inv inv step) Scheduler.inv_new

/-! Ids are distinct while the counter has not wrapped. -/

def Action.spawns : Action → Nat
  | .spawn _ => 1
  | _ => 0

def spawns (actions : List Action) : Nat := (actions.map Action.spawns).sum

theorem effect_issued {action : Action} {outcome : Outcome} (effect : Effect sched action outcome next) :
    next.nextTaskId = sched.nextTaskId + action.spawns := by
  cases effect with
  | tick quiet => exact quiet.issued
  | yield quiet => exact quiet.issued
  | spawned name => rfl
  | exited statuses issued switched => exact issued
  | killed found named live statuses issued => exact issued
  | missed none => rfl

theorem run_issued {actions : List Action} (run : Run Step Scheduler.new actions sched) :
    sched.nextTaskId = 1 + spawns actions := by
  refine run.adds Scheduler.nextTaskId Action.spawns (fun _ _ _ inv step => step_inv inv step) ?_ Scheduler.inv_new
  intro first action last inv step
  obtain ⟨outcome,effect⟩ := step_effect inv step
  exact effect_issued effect

theorem serial_unique (sound : sched.Sound) {i j : Nat} {first second : Status}
    (found : sched.statuses[i]? = some first) (other : sched.statuses[j]? = some second)
    (same : first.serial = second.serial) : i = j := by
  have listed : ∀ (k : Nat) (status : Status), sched.statuses[k]? = some status →
      (sched.names.map Prod.fst)[k]? = some status.serial := by
    intro k status here
    simp [Scheduler.names,here,Status.name]
  have inside := (List.getElem?_eq_some_iff.mp (listed i first found)).1
  apply (List.getElem?_inj inside sound.distinct).mp
  rw [listed i first found,listed j second other,same]

theorem id_unique (sound : sched.Sound) (few : sched.nextTaskId ≤ 2^64) {i j : Nat} {first second : Status}
    (found : sched.statuses[i]? = some first) (other : sched.statuses[j]? = some second)
    (same : first.id = second.id) : i = j := by
  obtain ⟨named,bound⟩ := sound.named (List.mem_of_getElem? found)
  obtain ⟨otherNamed,otherBound⟩ := sound.named (List.mem_of_getElem? other)
  have words := congrArg UInt64.toNat (named.symm.trans (same.trans otherNamed))
  rw [UInt64.toNat_ofNat_of_lt' (Nat.lt_of_lt_of_le bound few),
    UInt64.toNat_ofNat_of_lt' (Nat.lt_of_lt_of_le otherBound few)] at words
  exact serial_unique sound found other words

namespace Scheduler

def liveIds (sched : Scheduler) : Set UInt64 :=
  {id | ∃ task ∈ sched.tasks, task.id = id ∧ task.state ≠ .terminated}

/-- The ids alive after an action: only the one it spawns, exits or kills changes. -/
def liveAfter (sched : Scheduler) : Action → Set UInt64
  | .tick | .yield => sched.liveIds
  | .spawn name => insert (sched.spawn name).1 sched.liveIds
  | .exit => sched.liveIds \ {sysGetpid sched}
  | .kill id => sched.liveIds \ {id}

structure WellFormed (sched : Scheduler) : Prop where
  current : sched.current < sched.tasks.length
  kernel : ∃ task, sched.tasks[0]? = some task ∧ task.id = 0 ∧ task.serial = 0 ∧ task.state ≠ .terminated
  distinct : (sched.tasks.map Task.id).Nodup
  single : ∀ i task, sched.tasks[i]? = some task → (task.state = .running ↔ i = sched.current)
  pid : ∃ task, sched.tasks[sched.current]? = some task ∧ sysGetpid sched = task.id
  quantum : ∀ task, sched.tasks[sched.current]? = some task →
    1 ≤ task.quantumRemaining ∧ task.quantumRemaining ≤ 10

theorem mem_liveIds {id : UInt64} :
    id ∈ sched.liveIds ↔ ∃ status ∈ sched.statuses, status.id = id ∧ status.terminated = false := by
  simp [liveIds,statuses,Task.status]

theorem liveIds_of_statuses (same : next.statuses = sched.statuses) : next.liveIds = sched.liveIds := by
  ext id
  rw [mem_liveIds,mem_liveIds,same]

theorem pid_current (steady : sched.Steady) :
    ∃ task, sched.tasks[sched.current]? = some task ∧ sysGetpid sched = task.id := by
  obtain ⟨task,found,runs⟩ := steady.running
  refine ⟨task,found,?_⟩
  unfold sysGetpid
  split
  next first search =>
    obtain ⟨i,source⟩ := List.mem_iff_getElem?.mp (List.mem_of_find?_eq_some search)
    have here := steady.alone i first source (by simpa using List.find?_some search)
    rw [here,found] at source
    cases source
    rfl
  next none =>
    have idle := List.find?_eq_none.mp none task (List.mem_of_getElem? found)
    simp [runs] at idle

theorem wellFormed_of_inv (inv : sched.Inv) (few : sched.nextTaskId ≤ 2^64) : sched.WellFormed where
  current := inv.inside
  kernel := by
    obtain ⟨status,found,serial,live⟩ := inv.kernel
    have named := (inv.named (List.mem_of_getElem? found)).1
    obtain ⟨task,first,rfl⟩ := Option.map_eq_some_iff.mp (List.getElem?_map ▸ found)
    refine ⟨task,first,named.trans ?_,serial,by simpa [Task.status] using live⟩
    rw [serial]
    rfl
  distinct := by
    rw [List.nodup_iff_getElem?_ne_getElem?]
    intro i j less inside same
    rw [List.length_map] at inside
    have before : sched.tasks[i]? = some sched.tasks[i] := List.getElem?_eq_getElem _
    have after : sched.tasks[j]? = some sched.tasks[j] := List.getElem?_eq_getElem _
    rw [List.getElem?_map,List.getElem?_map,before,after,Option.map_some,Option.map_some,Option.some_inj] at same
    have placed : ∀ (k : Nat) (task : Task), sched.tasks[k]? = some task → sched.statuses[k]? = some task.status := by
      intro k task found
      simp [statuses,found]
    have := id_unique inv.toSound few (placed i _ before) (placed j _ after) same
    omega
  single := fun i task found => inv.toSteady.single found
  pid := pid_current inv.toSteady
  quantum := inv.quantum

/-- When one place dies, its id is the only one that is no longer alive. -/
theorem liveIds_dead (sound : sched.Sound) (few : sched.nextTaskId ≤ 2^64) {i : Nat} {status : Status}
    (found : sched.statuses[i]? = some status) (same : ∀ id, id ∈ next.liveIds ↔
      ∃ other ∈ sched.statuses.modify i Status.dead, other.id = id ∧ other.terminated = false) :
    next.liveIds = sched.liveIds \ {status.id} := by
  ext id
  rw [same,Set.mem_sdiff,mem_liveIds,Set.mem_singleton_iff]
  constructor
  · intro holds
    obtain ⟨changed,member,named,live⟩ := holds
    obtain ⟨j,entry⟩ := List.mem_iff_getElem?.mp member
    rw [List.getElem?_modify,Option.map_eq_map,Option.map_eq_some_iff] at entry
    obtain ⟨other,source,rfl⟩ := entry
    split at named
    next here => simp [here,Status.dead] at live
    next there =>
      rw [if_neg there] at live
      refine ⟨⟨other,List.mem_of_getElem? source,named,live⟩,fun own => there ?_⟩
      exact id_unique sound few found source (own.symm.trans named.symm)
  · intro holds
    obtain ⟨⟨other,member,named,live⟩,away⟩ := holds
    obtain ⟨j,source⟩ := List.mem_iff_getElem?.mp member
    have there : i ≠ j := by
      intro equal
      subst equal
      rw [found] at source
      cases source
      exact away named.symm
    refine ⟨other,List.mem_of_getElem? (i := j) ?_,named,live⟩
    rw [List.getElem?_modify,source]
    simp [there]

theorem effect_live (inv : sched.Inv) (few : sched.nextTaskId ≤ 2^64) {action : Action} {outcome : Outcome}
    (effect : Effect sched action outcome next) : next.liveIds = sched.liveAfter action := by
  cases effect with
  | tick quiet => exact liveIds_of_statuses quiet.statuses
  | yield quiet => exact liveIds_of_statuses quiet.statuses
  | spawned name =>
    ext id
    simp only [mem_liveIds,liveAfter,Set.mem_insert_iff,spawn_statuses,List.mem_append,List.mem_singleton]
    constructor
    · intro holds
      obtain ⟨status,old | rfl,named,live⟩ := holds
      · exact .inr ⟨status,old,named,live⟩
      · exact .inl named.symm
    · intro holds
      rcases holds with rfl | ⟨status,old,facts⟩
      · exact ⟨_,.inr rfl,rfl,rfl⟩
      · exact ⟨status,.inl old,facts⟩
  | exited statuses issued switched =>
    obtain ⟨task,found,pid⟩ := pid_current inv.toSteady
    have entry : sched.statuses[sched.current]? = some task.status := by simp [Scheduler.statuses,found]
    have dead : next.liveIds = _ := liveIds_dead inv.toSound few entry fun id => by rw [mem_liveIds,statuses]
    rw [dead,liveAfter,pid]
    rfl
  | killed found named live statuses issued =>
    have dead : next.liveIds = _ := liveIds_dead inv.toSound few found fun id => by
      rw [mem_liveIds,statuses]
      constructor
      · intro holds
        obtain ⟨other,member,facts⟩ := holds
        exact ⟨other,(List.mem_filter.mp member).1,facts⟩
      · intro holds
        obtain ⟨other,member,same,alive⟩ := holds
        exact ⟨other,List.mem_filter.mpr ⟨member,by simp [Status.kept,alive]⟩,same,alive⟩
    rw [dead,named]
    rfl
  | @missed id none =>
    rw [liveAfter,Set.sdiff_singleton_eq_self]
    rw [mem_liveIds]
    intro holds
    obtain ⟨status,member,named,live⟩ := holds
    simp [none status member named] at live

end Scheduler

theorem spawns_append (actions : List Action) (action : Action) :
    spawns (actions ++ [action]) = spawns actions + action.spawns := by
  simp [spawns]

/-- After every step of every run with fewer than 2^64 spawns the scheduler is well formed,
and the next legal step does not fault and changes the live ids as its action says. -/
theorem wellFormed_run {actions : List Action} (run : Run Step Scheduler.new actions sched)
    (few : spawns actions < 2^64) :
    sched.WellFormed ∧ ∀ action, Legal sched action → spawns (actions ++ [action]) < 2^64 →
      ∃ outcome next, perform sched action = .ok (outcome,next) ∧ next.WellFormed ∧
        next.liveIds = sched.liveAfter action := by
  have inv := run_inv run
  have issued := run_issued run
  refine ⟨Scheduler.wellFormed_of_inv inv (by omega),fun action legal still => ?_⟩
  obtain ⟨outcome,next,step,nextInv,effect⟩ := perform_effect inv legal
  have nextIssued := effect_issued effect
  rw [spawns_append] at still
  exact ⟨outcome,next,step,Scheduler.wellFormed_of_inv nextInv (by omega),
    Scheduler.effect_live inv (by omega) effect⟩

/-- Two tasks are made, the first one runs and exits, the second one yields to the kernel, which kills it. -/
theorem wellFormed_run_spawn : ∃ sched,
    Run Step Scheduler.new [.spawn (lit "counter"),.spawn (lit "hello"),.yield,.exit,.yield] sched ∧ sched.WellFormed ∧
      ∃ outcome next, perform sched (.kill 2) = .ok (outcome,next) ∧ next.WellFormed ∧
        next.liveIds = sched.liveIds \ {2} := by
  have run : Run Step Scheduler.new [.spawn (lit "counter"),.spawn (lit "hello"),.yield,.exit,.yield] {
      tasks := [Task.kernelTask,{Task.new 1 (lit "counter") with state := .terminated},Task.new 2 (lit "hello")]
      current := 0
      nextTaskId := 3 } :=
    .cons ⟨trivial,_,rfl⟩ (.cons ⟨trivial,_,rfl⟩ (.cons ⟨trivial,_,rfl⟩ (.cons ⟨by decide,_,rfl⟩
      (.cons ⟨trivial,_,rfl⟩ (.nil _)))))
  obtain ⟨formed,steps⟩ := wellFormed_run run (by decide)
  obtain ⟨outcome,next,step,good,live⟩ := steps (.kill 2) ⟨rfl,by decide⟩ (by decide)
  exact ⟨_,run,formed,outcome,next,step,good,live⟩

/-! Terminated tasks. -/

def Dead (serial : Nat) (sched : Scheduler) : Prop :=
  serial < sched.nextTaskId ∧ ∀ status ∈ sched.statuses, status.serial = serial → status.terminated = true

theorem effect_dead {serial : Nat} {action : Action} {outcome : Outcome}
    (effect : Effect sched action outcome next) (dead : Dead serial sched) : Dead serial next := by
  refine ⟨by rw [effect_issued effect]; exact Nat.lt_add_right _ dead.1,?_⟩
  have marked : ∀ i status, status ∈ sched.statuses.modify i Status.dead → status.serial = serial →
      status.terminated = true := by
    intro i status member same
    obtain ⟨j,entry⟩ := List.mem_iff_getElem?.mp member
    rw [List.getElem?_modify,Option.map_eq_map,Option.map_eq_some_iff] at entry
    obtain ⟨other,source,rfl⟩ := entry
    split at same
    next here => simp [here,Status.dead]
    next there =>
      rw [if_neg there]
      exact dead.2 other (List.mem_of_getElem? source) same
  cases effect with
  | tick quiet => exact quiet.statuses ▸ dead.2
  | yield quiet => exact quiet.statuses ▸ dead.2
  | spawned name =>
    intro status member same
    rw [Scheduler.spawn_statuses,List.mem_append,List.mem_singleton] at member
    rcases member with old | rfl
    · exact dead.2 status old same
    · exact absurd same (Nat.ne_of_gt dead.1)
  | exited statuses issued switched => exact fun status member => marked _ status (statuses ▸ member)
  | killed found named live statuses issued =>
    exact fun status member => marked _ status (List.mem_filter.mp (statuses ▸ member)).1
  | missed none => exact dead.2

/-- The task switched to is the one that runs afterwards. -/
theorem effect_switched {action : Action} {old new : Nat} (inv : next.Inv)
    (effect : Effect sched action (.switch (some (old,new))) next) :
    ∃ chosen, next.tasks[new]? = some chosen ∧ chosen.state = .running := by
  have here : new = next.current := by
    cases effect with
    | tick quiet => exact quiet.switched.2.1
    | yield quiet => exact quiet.switched.2.1
    | exited statuses issued switched => exact switched.2.1
  rw [here]
  exact inv.running

theorem dead_of_terminated (inv : sched.Inv) {task : Task} (member : task ∈ sched.tasks)
    (state : task.state = .terminated) : Dead task.serial sched := by
  have listed : task.status ∈ sched.statuses := List.mem_map_of_mem member
  refine ⟨(inv.named listed).2,fun status other same => ?_⟩
  obtain ⟨i,found⟩ := List.mem_iff_getElem?.mp listed
  obtain ⟨j,present⟩ := List.mem_iff_getElem?.mp other
  obtain rfl := serial_unique inv.toSound found present same.symm
  rw [found] at present
  cases present
  simpa [Task.status] using state

theorem run_dead {actions : List Action} {serial : Nat} (run : Run Step sched actions next) (inv : sched.Inv)
    (dead : Dead serial sched) : Dead serial next := by
  refine run.keeps_under (fun _ _ _ inv step => step_inv inv step) ?_ inv dead
  intro first action last firstInv firstDead step
  obtain ⟨outcome,effect⟩ := step_effect firstInv step
  exact effect_dead effect firstDead

/-- In every run a terminated task stays terminated and is never switched to, and an exit
always switches to another runnable task. -/
theorem terminated_never_runs {actions : List Action} (run : Run Step Scheduler.new actions sched) :
    (∀ task ∈ sched.tasks, task.state = .terminated → ∀ later last, Run Step sched later last →
      (∀ other ∈ last.tasks, other.serial = task.serial → other.state = .terminated) ∧
      ∀ action, Legal last action → ∃ outcome next, perform last action = .ok (outcome,next) ∧
        ∀ old new, outcome = .switch (some (old,new)) →
          ∃ chosen, next.tasks[new]? = some chosen ∧ chosen.state = .running ∧ chosen.serial ≠ task.serial) ∧
    (Legal sched .exit → ∃ new next, exitCurrentTask sched = .ok (some (sched.current,new),next) ∧
      new ≠ sched.current ∧ RunnableAt sched.tasks new) := by
  have inv := run_inv run
  constructor
  · intro task member state later last rest
    have lastInv := run_inv (run.append rest)
    have dead := run_dead rest inv (dead_of_terminated inv member state)
    constructor
    · intro other present same
      simpa [Task.status] using dead.2 other.status (List.mem_map_of_mem present) same
    · intro action legal
      obtain ⟨outcome,next,step,nextInv,effect⟩ := perform_effect lastInv legal
      refine ⟨outcome,next,step,?_⟩
      intro old new equal
      subst equal
      obtain ⟨chosen,found,runs⟩ := effect_switched nextInv effect
      refine ⟨chosen,found,runs,fun same => ?_⟩
      have marked := (effect_dead effect dead).2 chosen.status
        (List.mem_map_of_mem (List.mem_of_getElem? found)) same
      simp [Task.status,runs] at marked
  · intro user
    obtain ⟨new,next,exits,_,_,_,switched⟩ := Scheduler.exitCurrentTask_switches inv user
    exact ⟨new,next,exits,Ne.symm switched.2.2.1,switched.2.2.2⟩

theorem terminated_never_runs_one : ∃ sched,
    Run Step Scheduler.new [.spawn (lit "counter"),.yield,.exit] sched ∧
      ∀ later last, Run Step sched later last → ∀ other ∈ last.tasks, other.serial = 1 → other.state = .terminated := by
  have run : Run Step Scheduler.new [.spawn (lit "counter"),.yield,.exit] {
      tasks := [Task.kernelTask,{Task.new 1 (lit "counter") with state := .terminated}]
      current := 0
      nextTaskId := 2 } :=
    .cons ⟨trivial,_,rfl⟩ (.cons ⟨trivial,_,rfl⟩ (.cons ⟨by decide,_,rfl⟩ (.nil _)))
  refine ⟨_,run,fun later last rest => ?_⟩
  exact ((terminated_never_runs run).1 {Task.new 1 (lit "counter") with state := .terminated}
    (by decide) rfl later last rest).1

end PolarOs
