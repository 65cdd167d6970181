import PolarOs.Kernel.SchedulerInvariant
import PolarOs.Library.Transition
import Mathlib.Data.List.NodupEquivFin

/-! The scheduler under its public operations in any order, also those the kernel never
makes: a clean-up while the terminated task is still current is one of them. -/
namespace PolarOs
open Library Library.Checked

variable {sched next : Scheduler}

inductive Operation where
  | spawn (name : Str)
  | schedulePreempt
  | scheduleYield
  | terminateCurrent
  | killTask (id : UInt64)
  | cleanupTerminated
deriving DecidableEq

namespace Scheduler

def operate (sched : Scheduler) : Operation → Checked Scheduler
  | .spawn name => .ok (sched.spawn name).2
  | .schedulePreempt => sched.schedulePreempt.map Prod.snd
  | .scheduleYield => sched.scheduleYield.map Prod.snd
  | .terminateCurrent => sched.terminateCurrent
  | .killTask id => .ok (sched.killTask id).2
  | .cleanupTerminated => .ok sched.cleanupTerminated

/-- What the comment of `cleanup_terminated` says of the current task. -/
def KeepsCurrent (sched : Scheduler) : Prop :=
  ∃ task, sched.tasks[sched.current]? = some task ∧ task ∈ sched.cleanupTerminated.tasks ∧
    ∃ after, sched.cleanupTerminated.tasks[sched.cleanupTerminated.current]? = some after ∧ after.id = task.id

/-- The current task is not terminated unless it is the kernel task. -/
def CurrentStays (sched : Scheduler) : Prop :=
  ∀ task, sched.tasks[sched.current]? = some task → task.state = .terminated → sched.current = 0

def Operates (sched : Scheduler) (operation : Operation) (next : Scheduler) : Prop :=
  sched.operate operation = .ok next

def Guarded (sched : Scheduler) (operation : Operation) (next : Scheduler) : Prop :=
  (operation = .cleanupTerminated → sched.CurrentStays) ∧ Operates sched operation next

/-- What all operations keep. No task but the current one runs; the current one may be terminated. -/
structure Placed (sched : Scheduler) : Prop where
  inside : sched.current < sched.tasks.length
  alone : ∀ i task, sched.tasks[i]? = some task → task.state = .running → i = sched.current
  awake : ∀ task, sched.tasks[sched.current]? = some task → task.state ≠ .ready
  kernel : ∃ task, sched.tasks[0]? = some task ∧ task.id = 0
  named : ∀ i task, sched.tasks[i]? = some task → i ≠ 0 →
    ∃ serial, 0 < serial ∧ serial < sched.nextTaskId ∧ task.id = UInt64.ofNat serial
  counted : 0 < sched.nextTaskId

theorem placed_new : new.Placed where
  inside := by decide
  alone := inv_new.alone
  awake := by
    intro task found
    cases found
    decide
  kernel := ⟨Task.kernelTask,rfl,rfl⟩
  named := by
    intro i task found user
    cases i with
    | zero => exact absurd rfl user
    | succ i => simp [new] at found
  counted := by decide

theorem placed_modify (placed : sched.Placed) (i : Nat) {f : Task → Task} (ids : ∀ task, (f task).id = task.id)
    (states : ∀ task, (f task).state = task.state ∨ (f task).state = .terminated) :
    ({sched with tasks := sched.tasks.modify i f}).Placed := by
  have entry : ∀ (j : Nat) (task : Task), (sched.tasks.modify i f)[j]? = some task → ∃ before : Task,
      sched.tasks[j]? = some before ∧ task.id = before.id ∧
        (task.state = before.state ∨ task.state = .terminated) := by
    intro j task found
    rw [List.getElem?_modify] at found
    obtain ⟨before,source,rfl⟩ := Option.map_eq_some_iff.mp found
    refine ⟨before,source,?_⟩
    split
    next => exact ⟨ids before,states before⟩
    next => exact ⟨rfl,Or.inl rfl⟩
  refine {
    inside := ?inside,alone := ?alone,awake := ?awake,kernel := ?kernel,named := ?named,
    counted := placed.counted }
  case inside =>
    simpa using placed.inside
  case alone =>
    intro j task found runs
    obtain ⟨before,source,_,state⟩ := entry j task found
    rw [runs] at state
    exact placed.alone j before source (state.resolve_right (by decide)).symm
  case awake =>
    intro task found idle
    obtain ⟨before,source,_,state⟩ := entry _ task found
    rw [idle] at state
    exact placed.awake before source (state.resolve_right (by decide)).symm
  case kernel =>
    obtain ⟨task,found,id⟩ := placed.kernel
    refine ⟨_,(List.getElem?_modify ..).trans (by rw [found]; rfl),?_⟩
    dsimp only
    split
    next => exact (ids task).trans id
    next => exact id
  case named =>
    intro j task found user
    obtain ⟨before,source,id,_⟩ := entry j task found
    rw [id]
    exact placed.named j before source user

theorem demote_cases (task : Task) : task.demote.id = task.id ∧ task.demote.state ≠ .running := by
  refine ⟨?_,demote_state task⟩
  unfold Task.demote
  split <;> rfl

theorem placed_switchTo {nextIdx : Nat} (placed : sched.Placed) (bound : nextIdx < sched.tasks.length) :
    (sched.switchTo nextIdx).Placed := by
  have entry : ∀ (j : Nat) (task : Task), (sched.switchTo nextIdx).tasks[j]? = some task → ∃ before : Task,
      sched.tasks[j]? = some before ∧ task.id = before.id ∧
        (j = nextIdx ∧ task.state = .running ∨ j ≠ nextIdx ∧ (task.state = .running → j ≠ sched.current) ∧
          (j ≠ sched.current → task.state = before.state)) := by
    intro j task found
    simp only [switchTo,List.getElem?_modify,Option.map_eq_map,Option.map_map] at found
    obtain ⟨before,source,rfl⟩ := Option.map_eq_some_iff.mp found
    refine ⟨before,source,?_⟩
    have demoted := demote_cases before
    dsimp only [Function.comp_apply]
    split_ifs with here old old
    · exact ⟨demoted.1,Or.inl ⟨here.symm,rfl⟩⟩
    · exact ⟨rfl,Or.inl ⟨here.symm,rfl⟩⟩
    · exact ⟨demoted.1,Or.inr ⟨Ne.symm here,fun runs => absurd runs demoted.2,fun away => absurd old.symm away⟩⟩
    · exact ⟨rfl,Or.inr ⟨Ne.symm here,fun _ => Ne.symm old,fun _ => rfl⟩⟩
  refine {
    inside := ?inside,alone := ?alone,awake := ?awake,kernel := ?kernel,named := ?named,
    counted := placed.counted }
  case inside =>
    simpa [switchTo] using bound
  case alone =>
    intro j task found runs
    obtain ⟨before,source,_,state⟩ := entry j task found
    cases state with
    | inl here => exact here.1
    | inr there =>
      obtain ⟨_,away,same⟩ := there
      have outside := away runs
      exact absurd (placed.alone j before source ((same outside).symm.trans runs)) outside
  case awake =>
    intro task found idle
    obtain ⟨_,_,_,state⟩ := entry nextIdx task found
    rw [idle] at state
    simp at state
  case kernel =>
    obtain ⟨task,found,id⟩ := placed.kernel
    have present : 0 < (sched.switchTo nextIdx).tasks.length := by
      simpa [switchTo] using (List.getElem?_eq_some_iff.mp found).1
    obtain ⟨before,source,same,_⟩ := entry 0 _ (List.getElem?_eq_getElem present)
    rw [found] at source
    cases source
    exact ⟨_,List.getElem?_eq_getElem present,same.trans id⟩
  case named =>
    intro j task found user
    obtain ⟨before,source,id,_⟩ := entry j task found
    rw [id]
    exact placed.named j before source user

theorem findAndSwitch_placed (placed : sched.Placed) :
    ∃ contexts next, sched.findAndSwitch = .ok (contexts,next) ∧ next.Placed := by
  cases findAndSwitch_spec placed.inside with
  | inl stays => exact ⟨none,_,stays.1,placed_modify placed _ (fun _ => rfl) (fun _ => Or.inl rfl)⟩
  | inr switches =>
    obtain ⟨nextIdx,run,_,first⟩ := switches
    exact ⟨_,_,run,placed_switchTo placed first.lt⟩

theorem scheduleYield_placed (placed : sched.Placed) :
    ∃ contexts next, sched.scheduleYield = .ok (contexts,next) ∧ next.Placed := by
  by_cases many : 1 < sched.tasks.length
  · rw [scheduleYield_many many]
    exact findAndSwitch_placed placed
  · exact ⟨none,sched,scheduleYield_idle (by omega),placed⟩

theorem placed_spend (placed : sched.Placed) : sched.spend.Placed :=
  placed_modify placed _ (fun _ => rfl) (fun _ => Or.inl rfl)

theorem schedulePreempt_placed (placed : sched.Placed) :
    ∃ contexts next, sched.schedulePreempt = .ok (contexts,next) ∧ next.Placed := by
  by_cases many : 1 < sched.tasks.length
  · obtain ⟨task,found⟩ : ∃ task, sched.tasks[sched.current]? = some task :=
      ⟨_,List.getElem?_eq_getElem placed.inside⟩
    by_cases left : 0 < task.quantumRemaining
    · rw [schedulePreempt_many many found left]
      split
      next => exact ⟨none,_,rfl,placed_spend placed⟩
      next => exact findAndSwitch_placed (placed_spend placed)
    · have spent : sched.schedulePreempt = sched.findAndSwitch := by
        rw [schedulePreempt,if_neg (by omega),index_ok.mpr found,ok_bind,if_neg left]
      rw [spent]
      exact findAndSwitch_placed placed
  · exact ⟨none,sched,schedulePreempt_idle (by omega),placed⟩

theorem spawn_placed (placed : sched.Placed) (name : Str) : (sched.spawn name).2.Placed := by
  have old : ∀ {i : Nat}, i < sched.tasks.length → (sched.spawn name).2.tasks[i]? = sched.tasks[i]? :=
    fun bound => List.getElem?_append_left bound
  have entry : ∀ (i : Nat) (task : Task), (sched.spawn name).2.tasks[i]? = some task →
      sched.tasks[i]? = some task ∨ task = Task.new sched.nextTaskId name := by
    intro i task found
    change (sched.tasks ++ [Task.new sched.nextTaskId name])[i]? = some task at found
    rw [List.getElem?_append] at found
    split at found
    next => exact Or.inl found
    next => exact Or.inr (List.mem_singleton.mp (List.mem_of_getElem? found))
  refine {
    inside := ?inside,alone := ?alone,awake := ?awake,kernel := ?kernel,named := ?named,
    counted := Nat.succ_pos _ }
  case inside =>
    have inside := placed.inside
    simp only [spawn,List.length_append]
    omega
  case alone =>
    intro i task found runs
    cases entry i task found with
    | inl before => exact placed.alone i task before runs
    | inr fresh =>
      rw [fresh] at runs
      cases runs
  case awake =>
    intro task found
    exact placed.awake task ((old placed.inside).symm.trans found)
  case kernel =>
    obtain ⟨task,found,id⟩ := placed.kernel
    exact ⟨task,(old (List.getElem?_eq_some_iff.mp found).1).trans found,id⟩
  case named =>
    intro i task found user
    cases entry i task found with
    | inl before =>
      obtain ⟨serial,positive,below,id⟩ := placed.named i task before user
      exact ⟨serial,positive,Nat.lt_succ_of_lt below,id⟩
    | inr fresh => exact ⟨sched.nextTaskId,placed.counted,Nat.lt_succ_self _,by rw [fresh]; rfl⟩

theorem killTask_placed (placed : sched.Placed) (id : UInt64) : (sched.killTask id).2.Placed := by
  cases sched.killTask_spec id with
  | inl killed =>
    obtain ⟨i,_,run,_⟩ := killed
    rw [run]
    exact placed_modify placed i (fun _ => rfl) (fun _ => Or.inr rfl)
  | inr missed =>
    rw [missed.1]
    exact placed

/-- The entries a clean-up leaves, with the places they had before. -/
theorem cleanup_places (sched : Scheduler) :
    ∃ place : Nat ↪o Nat, ∀ i, sched.cleanupTerminated.tasks[i]? = sched.tasks[place i]? :=
  List.sublist_iff_exists_orderEmbedding_getElem?_eq.mp List.filter_sublist

theorem mem_cleanup {task : Task} :
    task ∈ sched.cleanupTerminated.tasks ↔ task ∈ sched.tasks ∧ (task.id = 0 ∨ task.state ≠ .terminated) := by
  simp [cleanupTerminated]

theorem cleanup_kernel (placed : sched.Placed) : sched.cleanupTerminated.tasks[0]? = sched.tasks[0]? := by
  obtain ⟨kernel,found,id⟩ := placed.kernel
  cases shape : sched.tasks with
  | nil => simp [shape] at found
  | cons first rest =>
    rw [shape] at found
    cases found
    simp [cleanupTerminated,shape,id]

theorem cleanup_current (placed : sched.Placed) (stays : sched.CurrentStays) :
    sched.cleanupTerminated.tasks[sched.cleanupTerminated.current]? = sched.tasks[sched.current]? := by
  obtain ⟨task,found⟩ : ∃ task, sched.tasks[sched.current]? = some task :=
    ⟨_,List.getElem?_eq_getElem placed.inside⟩
  have only : ∀ other ∈ sched.cleanupTerminated.tasks, other.state = .running → other = task := by
    intro other member runs
    obtain ⟨i,entry⟩ := List.mem_iff_getElem?.mp (mem_cleanup.mp member).1
    rw [placed.alone i other entry runs,found] at entry
    exact (Option.some.inj entry).symm
  cases search : sched.cleanupTerminated.tasks.findIdx? (fun task => task.state = .running) with
  | some j =>
    obtain ⟨bound,runs,_⟩ := List.findIdx?_eq_some_iff_getElem.mp search
    have moved : sched.cleanupTerminated.current = j := congrArg (fun place => place.getD sched.current) search
    rw [moved,found,List.getElem?_eq_getElem bound]
    congr 1
    exact only _ (List.getElem_mem bound) (of_decide_eq_true runs)
  | none =>
    have unmoved : sched.cleanupTerminated.current = sched.current :=
      congrArg (fun place => place.getD sched.current) search
    have idle : ∀ other ∈ sched.cleanupTerminated.tasks, other.state ≠ .running := by
      simpa using List.findIdx?_eq_none_iff.mp search
    have terminated : task.state = .terminated := by
      cases state : task.state with
      | ready => exact absurd state (placed.awake task found)
      | running =>
        have kept := mem_cleanup.mpr ⟨List.mem_of_getElem? found,Or.inr (by rw [state]; decide)⟩
        exact absurd state (idle task kept)
      | terminated => rfl
    rw [unmoved,stays task found terminated]
    exact cleanup_kernel placed

theorem cleanup_placed (placed : sched.Placed) (stays : sched.CurrentStays) : sched.cleanupTerminated.Placed := by
  obtain ⟨place,places⟩ := sched.cleanup_places
  have here := cleanup_current placed stays
  obtain ⟨task,found⟩ : ∃ task, sched.tasks[sched.current]? = some task :=
    ⟨_,List.getElem?_eq_getElem placed.inside⟩
  refine {
    inside := ?inside,alone := ?alone,awake := ?awake,kernel := ?kernel,named := ?named,
    counted := placed.counted }
  case inside =>
    exact (List.getElem?_eq_some_iff.mp (here.trans found)).1
  case alone =>
    intro i other entry runs
    have source := placed.alone (place i) other ((places i).symm.trans entry) runs
    have same : other = task := by
      rw [places,source,found] at entry
      exact (Option.some.inj entry).symm
    have target := placed.alone (place sched.cleanupTerminated.current) task
      ((places _).symm.trans (here.trans found)) (same ▸ runs)
    exact place.injective (source.trans target.symm)
  case awake =>
    intro other entry
    exact placed.awake other (here.symm.trans entry)
  case kernel =>
    obtain ⟨kernel,first,id⟩ := placed.kernel
    exact ⟨kernel,(cleanup_kernel placed).trans first,id⟩
  case named =>
    intro i other entry user
    apply placed.named (place i) other ((places i).symm.trans entry)
    have above := place.strictMono (Nat.pos_of_ne_zero user)
    omega

/-- No guarded operation faults, and each leaves a scheduler the next one may start from. -/
theorem operate_placed (placed : sched.Placed) (operation : Operation)
    (guard : operation = .cleanupTerminated → sched.CurrentStays) :
    ∃ next, sched.operate operation = .ok next ∧ next.Placed := by
  cases operation with
  | spawn name => exact ⟨_,rfl,spawn_placed placed name⟩
  | schedulePreempt =>
    obtain ⟨_,next,run,kept⟩ := schedulePreempt_placed placed
    exact ⟨next,by rw [operate,run]; rfl,kept⟩
  | scheduleYield =>
    obtain ⟨_,next,run,kept⟩ := scheduleYield_placed placed
    exact ⟨next,by rw [operate,run]; rfl,kept⟩
  | terminateCurrent =>
    refine ⟨sched.editCurrent Task.terminate,?_,placed_modify placed _ (fun _ => rfl) (fun _ => Or.inr rfl)⟩
    rw [operate,terminateCurrent,updateTask_ok placed.inside]
    rfl
  | killTask id => exact ⟨_,rfl,killTask_placed placed id⟩
  | cleanupTerminated => exact ⟨_,rfl,cleanup_placed placed (guard rfl)⟩

theorem guarded_placed {operation : Operation} (placed : sched.Placed) (step : Guarded sched operation next) :
    next.Placed := by
  obtain ⟨other,run,kept⟩ := operate_placed placed operation step.1
  have same := run.symm.trans step.2
  rw [← Except.ok.inj same]
  exact kept

theorem run_placed {operations : List Operation} (run : Run Guarded new operations sched) : sched.Placed :=
  run.keeps (fun _ _ _ placed step => guarded_placed placed step) placed_new

/-- While the id counter has not wrapped, a clean-up takes out every other terminated task. -/
theorem currentStays_of_keeps (placed : sched.Placed) (few : sched.nextTaskId ≤ 2^64) (keeps : sched.KeepsCurrent) :
    sched.CurrentStays := by
  intro task found terminated
  by_contra user
  obtain ⟨other,same,kept,_⟩ := keeps
  rw [found] at same
  cases same
  obtain ⟨serial,positive,below,id⟩ := placed.named _ task found user
  have wrapped : task.id = 0 := (mem_cleanup.mp kept).2.resolve_right (not_not_intro terminated)
  have zero := congrArg UInt64.toNat (id.symm.trans wrapped)
  rw [UInt64.toNat_ofNat_of_lt' (Nat.lt_of_lt_of_le below few)] at zero
  exact Nat.ne_of_gt positive zero

/-- In a run whose clean-ups spare the current task, a clean-up in the state reached keeps
the current task if it spares it, and only then while the id counter has not wrapped. -/
theorem cleanup_keeps_current {operations : List Operation} (run : Run Guarded new operations sched) :
    (sched.CurrentStays → sched.KeepsCurrent) ∧
      (sched.nextTaskId ≤ 2^64 → sched.KeepsCurrent → sched.CurrentStays) := by
  have placed := run_placed run
  refine ⟨?_,currentStays_of_keeps placed⟩
  intro stays
  have here := cleanup_current placed stays
  obtain ⟨task,found⟩ : ∃ task, sched.tasks[sched.current]? = some task :=
    ⟨_,List.getElem?_eq_getElem placed.inside⟩
  exact ⟨task,found,List.mem_of_getElem? (here.trans found),task,here.trans found,rfl⟩

theorem currentStays_running {task : Task} (found : sched.tasks[sched.current]? = some task)
    (runs : task.state = .running) : sched.CurrentStays := by
  intro other same terminated
  rw [found] at same
  cases same
  rw [runs] at terminated
  cases terminated

/-- A task exits by a switch away, and the kernel task cleans up after it. -/
theorem cleanup_keeps_current_exit :
    ∃ sched, Run Guarded new [.spawn (lit "a"),.scheduleYield,.terminateCurrent,.scheduleYield] sched ∧
      sched.KeepsCurrent := by
  have run : Run Guarded new [.spawn (lit "a"),.scheduleYield,.terminateCurrent,.scheduleYield] {
      tasks := [Task.kernelTask,{Task.new 1 (lit "a") with state := .terminated}]
      current := 0
      nextTaskId := 2 } :=
    .cons ⟨nofun,rfl⟩ (.cons ⟨nofun,rfl⟩ (.cons ⟨nofun,rfl⟩ (.cons ⟨nofun,rfl⟩ (.nil _))))
  exact ⟨_,run,(cleanup_keeps_current run).1 (currentStays_running rfl rfl)⟩

/-- A task that is terminated and still current is removed. -/
theorem cleanup_removes_current :
    ∃ sched, Run Operates new [.spawn (lit "a"),.scheduleYield,.terminateCurrent] sched ∧ ¬sched.KeepsCurrent := by
  have run : Run Operates new [.spawn (lit "a"),.scheduleYield,.terminateCurrent] {
      tasks := [{Task.kernelTask with state := .ready},{Task.new 1 (lit "a") with state := .terminated}]
      current := 1
      nextTaskId := 2 } := .cons rfl (.cons rfl (.cons rfl (.nil _)))
  refine ⟨_,run,?_⟩
  intro keeps
  obtain ⟨task,found,kept,_⟩ := keeps
  obtain rfl := Option.some.inj found
  cases (mem_cleanup.mp kept).2 with
  | inl wrapped => exact absurd wrapped (by decide)
  | inr live => exact live rfl

end Scheduler

end PolarOs
