import PolarOs.Kernel.SchedulerRuns

/-! Round robin: repeated yields, and ticks in tens, walk through the runnable tasks in
the order of their indices and start again after the last. -/
namespace PolarOs
open Library Library.Checked Library.Cyclic

variable {sched next : Scheduler}

/-- One operation `n` times over; the contexts it returns are switched to in between. -/
def again (operation : Scheduler → Checked (Option Switch × Scheduler)) : Nat → Scheduler → Checked Scheduler
  | 0,sched => .ok sched
  | n + 1,sched => do
    let (_,sched) ← operation sched
    again operation n sched

theorem again_succ {operation : Scheduler → Checked (Option Switch × Scheduler)} {contexts : Option Switch} (n : Nat)
    (step : operation sched = .ok (contexts,next)) : again operation (n + 1) sched = again operation n next := by
  rw [again,step]
  rfl

namespace Scheduler

def runnables (sched : Scheduler) : List Nat :=
  places (RunnableAt sched.tasks) sched.tasks.length

def quantumLeft (sched : Scheduler) : Option Nat :=
  (sched.tasks[sched.current]?).map Task.quantumRemaining

theorem runnableAt_iff {i : Nat} :
    RunnableAt sched.tasks i ↔ ∃ status, sched.statuses[i]? = some status ∧ status.terminated = false := by
  simp [RunnableAt,statuses,Task.status,Task.runnable_iff]

theorem runnables_of_statuses (same : next.statuses = sched.statuses) : next.runnables = sched.runnables := by
  have size : next.tasks.length = sched.tasks.length := by
    simpa [statuses] using congrArg List.length same
  rw [runnables,runnables,size]
  apply List.filter_congr
  intro i _
  simp only [runnableAt_iff,same]

theorem runnables_mod {k : Nat} (some : k < sched.runnables.length) (n : Nat) :
    ∃ i, sched.runnables[n % sched.runnables.length]? = .some i ∧ RunnableAt sched.tasks i := by
  have inside : n % sched.runnables.length < sched.runnables.length := Nat.mod_lt _ (by omega)
  exact ⟨_,List.getElem?_eq_getElem inside,(places_place inside).2⟩

theorem runnables_next {k : Nat} (here : sched.runnables[k]? = some sched.current) :
    ∃ i, sched.runnables[(k + 1) % sched.runnables.length]? = some i ∧ RunnableAt sched.tasks i ∧
      sched.NextRunnable i := by
  obtain ⟨i,found,runnable⟩ := runnables_mod (List.getElem?_eq_some_iff.mp here).1 (k + 1)
  exact ⟨i,found,runnable,first_places here found⟩

/-- One search hands the processor to the next of the runnable tasks, for ten ticks. -/
theorem findAndSwitch_turn {k : Nat} (steady : sched.Steady) (here : sched.runnables[k]? = some sched.current) :
    ∃ contexts next, sched.findAndSwitch = .ok (contexts,next) ∧ sched.Quiet contexts next ∧
      sched.runnables[(k + 1) % sched.runnables.length]? = some next.current ∧
      next.quantumLeft = some defaultQuantum := by
  obtain ⟨task,current,_⟩ := steady.running
  obtain ⟨i,found,runnable,first⟩ := runnables_next here
  rcases findAndSwitch_spec steady.inside with ⟨run,alone⟩ | ⟨new,run,other,next⟩
  · refine ⟨none,sched.stay,run,quiet_stay steady,?_,?_⟩
    · rw [found,alone i runnable]
      rfl
    · rw [quantumLeft,editCurrent_entry]
      simp [editCurrent,current,Task.renew]
  · refine ⟨some (sched.current,new),sched.switchTo new,run,quiet_switchTo steady next.holds other,?_,?_⟩
    · rw [found,first.unique next]
      rfl
    · obtain ⟨chosen,target,_⟩ := next.holds
      simp [quantumLeft,switchTo,List.getElem?_modify,target,Task.promote]

theorem scheduleYield_turn {k : Nat} (inv : sched.Inv) (here : sched.runnables[k]? = some sched.current) :
    ∃ contexts next, sched.scheduleYield = .ok (contexts,next) ∧ sched.Quiet contexts next ∧
      sched.runnables[(k + 1) % sched.runnables.length]? = some next.current := by
  by_cases many : 1 < sched.tasks.length
  · obtain ⟨contexts,next,run,quiet,found,_⟩ := findAndSwitch_turn inv.toSteady here
    exact ⟨contexts,next,by rw [scheduleYield_many many,run],quiet,found⟩
  · obtain ⟨i,found,runnable,_⟩ := runnables_next here
    have bound := runnableAt_lt runnable
    have inside := inv.inside
    refine ⟨none,sched,scheduleYield_idle (by omega),⟨inv,rfl,rfl,rfl⟩,?_⟩
    rw [found,show i = sched.current by omega]

theorem again_yield {k : Nat} (n : Nat) (inv : sched.Inv) (here : sched.runnables[k]? = some sched.current) :
    ∃ last, again scheduleYield n sched = .ok last ∧
      sched.runnables[(k + n) % sched.runnables.length]? = some last.current := by
  induction n generalizing sched k with
  | zero =>
    have within := (List.getElem?_eq_some_iff.mp here).1
    exact ⟨sched,rfl,by rw [Nat.add_zero,Nat.mod_eq_of_lt within,here]⟩
  | succ n ih =>
    obtain ⟨contexts,next,run,quiet,found⟩ := scheduleYield_turn inv here
    have same := runnables_of_statuses quiet.statuses
    obtain ⟨last,rest,reached⟩ := ih quiet.inv (k := (k + 1) % sched.runnables.length) (by rw [same,found])
    refine ⟨last,(again_succ n run).trans rest,?_⟩
    rwa [same,Nat.mod_add_mod,show k + 1 + n = k + (n + 1) by omega] at reached

theorem again_tick_idle (n : Nat) (few : sched.tasks.length ≤ 1) : again schedulePreempt n sched = .ok sched := by
  induction n with
  | zero => rfl
  | succ n ih => rw [again_succ n (schedulePreempt_idle few),ih]

/-- Counted from where the current task's quantum was full, every tenth tick is a turn. -/
theorem again_tick_many {k quantum : Nat} (n : Nat) (inv : sched.Inv) (many : 1 < sched.tasks.length)
    (here : sched.runnables[k]? = some sched.current) (left : sched.quantumLeft = some quantum) :
    ∃ last, again schedulePreempt n sched = .ok last ∧
      sched.runnables[(k + (n + (defaultQuantum - quantum)) / defaultQuantum) % sched.runnables.length]? =
        some last.current := by
  unfold defaultQuantum
  induction n generalizing sched k quantum with
  | zero =>
    obtain ⟨task,found,rfl⟩ := Option.map_eq_some_iff.mp left
    have within := (List.getElem?_eq_some_iff.mp here).1
    have bound := inv.quantum task found
    refine ⟨sched,rfl,?_⟩
    rw [Nat.zero_add,Nat.div_eq_of_lt (by omega),Nat.add_zero,Nat.mod_eq_of_lt within,here]
  | succ n ih =>
    obtain ⟨task,found,rfl⟩ := Option.map_eq_some_iff.mp left
    obtain ⟨positive,bound⟩ := inv.quantum task found
    have step := schedulePreempt_many many found positive
    have spent := runnables_of_statuses (sched.statuses_editCurrent Task.status_spend)
    by_cases more : 1 < task.quantumRemaining
    · rw [if_pos more] at step
      have remaining : sched.spend.quantumLeft = some (task.quantumRemaining - 1) := by
        rw [quantumLeft,editCurrent_entry]
        simp [editCurrent,found,Task.spend]
      obtain ⟨last,rest,reached⟩ := ih (inv_spend inv found more) (by simpa [editCurrent] using many)
        (by rw [spent]; exact here) remaining
      refine ⟨last,(again_succ n step).trans rest,?_⟩
      rwa [spent,show n + (10 - (task.quantumRemaining - 1)) = n + 1 + (10 - task.quantumRemaining) by
        unfold defaultQuantum at bound; omega] at reached
    · rw [if_neg more] at step
      obtain ⟨contexts,next,run,quiet,turn,full⟩ := findAndSwitch_turn (steady_spend inv.toSteady)
        (show sched.spend.runnables[k]? = some sched.spend.current by rw [spent]; exact here)
      have kept := quiet.statuses.trans (sched.statuses_editCurrent Task.status_spend)
      have same := runnables_of_statuses kept
      have size : next.tasks.length = sched.tasks.length := by
        simpa [statuses] using congrArg List.length kept
      rw [spent] at turn
      obtain ⟨last,rest,reached⟩ := ih quiet.inv (by omega) (k := (k + 1) % sched.runnables.length)
        (by rw [same,turn]) full
      refine ⟨last,(again_succ n (step.trans run)).trans rest,?_⟩
      rwa [same,Nat.mod_add_mod,show k + 1 + (n + (10 - defaultQuantum)) / 10 =
        k + (n + 1 + (10 - task.quantumRemaining)) / 10 by unfold defaultQuantum; omega] at reached

theorem again_tick {k : Nat} (n : Nat) (inv : sched.Inv) (here : sched.runnables[k]? = some sched.current)
    (full : sched.quantumLeft = some 10) : ∃ last, again schedulePreempt n sched = .ok last ∧
      sched.runnables[(k + n / 10) % sched.runnables.length]? = some last.current := by
  by_cases many : 1 < sched.tasks.length
  · exact again_tick_many n inv many here full
  · refine ⟨sched,again_tick_idle n (by omega),?_⟩
    obtain ⟨i,found,runnable⟩ := runnables_mod (List.getElem?_eq_some_iff.mp here).1 (k + n / 10)
    have bound := runnableAt_lt runnable
    have inside := inv.inside
    rw [found,show i = sched.current by omega]

theorem yields_once {k : Nat} (inv : sched.Inv) (here : sched.runnables[k]? = some sched.current) {i : Nat}
    (member : i ∈ sched.runnables) : ∃! j, j < sched.runnables.length ∧
      ∃ next, again scheduleYield (j + 1) sched = .ok next ∧ next.current = i := by
  obtain ⟨place,found⟩ := List.mem_iff_getElem?.mp member
  have placed := (List.getElem?_eq_some_iff.mp found).1
  have nonempty : 0 < sched.runnables.length := Nat.zero_lt_of_lt placed
  obtain ⟨j,near,reaches⟩ := at_distance placed (Nat.mod_lt (k + 1) nonempty)
  rw [Nat.mod_add_mod,Nat.add_assoc,Nat.add_comm 1 j] at reaches
  refine ⟨j,⟨near,?_⟩,?_⟩
  · obtain ⟨next,yields,there⟩ := again_yield (j + 1) inv here
    rw [reaches,found] at there
    cases there
    exact ⟨next,yields,rfl⟩
  · intro other holds
    obtain ⟨otherNear,next,yields,rfl⟩ := holds
    obtain ⟨same,sameYields,there⟩ := again_yield (other + 1) inv here
    rw [yields] at sameYields
    cases sameYields
    have meets := (places_inj there found).trans reaches.symm
    rw [← Nat.add_assoc,← Nat.add_assoc,Nat.add_right_comm,Nat.add_right_comm k j] at meets
    exact distance_unique otherNear near meets

/-- A task `j` places ahead has the ticks from `10 * j` on, ten of them. -/
theorem ticks_turn {k : Nat} (inv : sched.Inv) (here : sched.runnables[k]? = some sched.current)
    (full : sched.quantumLeft = some 10) {i : Nat} (member : i ∈ sched.runnables) :
    ∃ j < sched.runnables.length, ∀ t < 10 * sched.runnables.length,
      ∃ next, again schedulePreempt t sched = .ok next ∧ (next.current = i ↔ 10 * j ≤ t ∧ t < 10 * j + 10) := by
  obtain ⟨place,found⟩ := List.mem_iff_getElem?.mp member
  have placed := (List.getElem?_eq_some_iff.mp found).1
  obtain ⟨j,near,reaches⟩ := at_distance placed (List.getElem?_eq_some_iff.mp here).1
  refine ⟨j,near,fun t early => ?_⟩
  obtain ⟨next,ticks,there⟩ := again_tick t inv here full
  refine ⟨next,ticks,?_⟩
  have turn : next.current = i ↔ t / 10 = j := by
    constructor
    · intro reached
      rw [reached] at there
      have within : t / 10 < sched.runnables.length := Nat.div_lt_of_lt_mul early
      exact distance_unique within near ((places_inj there found).trans reaches.symm)
    · intro distance
      rw [distance,reaches,found] at there
      exact (Option.some.inj there).symm
  rw [turn]
  omega

end Scheduler

/-- From a reachable state whose current task is the `k`-th runnable one, the yields and,
from a full quantum, the ticks go round the runnable tasks; each gets one turn a round,
and a turn is ten consecutive ticks. -/
theorem round_robin {actions : List Action} (run : Run Step Scheduler.new actions sched) {k : Nat}
    (here : sched.runnables[k]? = some sched.current) :
    (∀ j, ∃ next, again Scheduler.scheduleYield j sched = .ok next ∧
      sched.runnables[(k + j) % sched.runnables.length]? = some next.current) ∧
    (∀ i ∈ sched.runnables, ∃! j, j < sched.runnables.length ∧
      ∃ next, again Scheduler.scheduleYield (j + 1) sched = .ok next ∧ next.current = i) ∧
    (sched.quantumLeft = some 10 →
      (∀ t, ∃ next, again Scheduler.schedulePreempt t sched = .ok next ∧
        sched.runnables[(k + t / 10) % sched.runnables.length]? = some next.current) ∧
      ∀ i ∈ sched.runnables, ∃ j < sched.runnables.length, ∀ t < 10 * sched.runnables.length,
        ∃ next, again Scheduler.schedulePreempt t sched = .ok next ∧
          (next.current = i ↔ 10 * j ≤ t ∧ t < 10 * j + 10)) := by
  have inv := run_inv run
  refine ⟨fun j => Scheduler.again_yield j inv here,fun i member => Scheduler.yields_once inv here member,fun full => ?_⟩
  exact ⟨fun t => Scheduler.again_tick t inv here full,fun i member => Scheduler.ticks_turn inv here full member⟩

theorem round_robin_three : ∃ next, again Scheduler.schedulePreempt 25
    ((Scheduler.new.spawn (lit "counter")).2.spawn (lit "hello")).2 = .ok next ∧ next.current = 2 := by
  have run : Run Step Scheduler.new [.spawn (lit "counter"),.spawn (lit "hello")]
      ((Scheduler.new.spawn (lit "counter")).2.spawn (lit "hello")).2 :=
    .cons ⟨trivial,_,rfl⟩ (.cons ⟨trivial,_,rfl⟩ (.nil _))
  obtain ⟨next,ticks,reached⟩ := ((round_robin run (k := 0) (by decide)).2.2 (by decide)).1 25
  refine ⟨next,ticks,?_⟩
  have last : (Scheduler.runnables ((Scheduler.new.spawn (lit "counter")).2.spawn (lit "hello")).2)[2]? = some 2 := by
    decide
  exact Option.some_inj.mp (reached.symm.trans last)

end PolarOs
