import Mathlib
import PolarOs.Library.Transition

/-! Spin locks on one processor. The tasks run sections of code that take and give back locks and
mask the interrupts; the timer takes the processor away wherever they are not masked, unless the
lock of the scheduler is taken. A discipline for each task says which locks it asks for where. -/
namespace Library

inductive LockOp (ρ : Type) where
  | lock (name : ρ)
  | unlock (name : ρ)
  | mask
  | unmask
  /-- Gives the processor to another task, if there is one. -/
  | switch
  /-- Another task comes to life, if there is one left. -/
  | start
  /-- The task itself ends here. -/
  | finish
  /-- Ends another task, if there is one to end. -/
  | kill

namespace LockOp

variable {ρ : Type}

/-- Operations under a guard of the lock. -/
def locked (name : ρ) (ops : List (LockOp ρ)) : List (LockOp ρ) := lock name::(ops ++ [unlock name])

def withoutInterrupts (ops : List (LockOp ρ)) : List (LockOp ρ) := mask::(ops ++ [unmask])

end LockOp

inductive Status where
  | new
  | live
  | dead
deriving DecidableEq

/-- The processor between two operations. `depth` counts the masks of each task. -/
structure Processor (τ ρ : Type) where
  running : τ
  holder : ρ → Option τ
  code : τ → List (LockOp ρ)
  depth : τ → Nat
  status : τ → Status

inductive ProcessorMove (τ ρ : Type) where
  | begin (section_ : List (LockOp ρ))
  | act
  | tick (target : τ)

/-- Where a task asks for locks: with the interrupts enabled or masked; `guards` are the locks that
it holds only while it runs. -/
structure Discipline (ρ : Type) where
  plain : Set ρ
  masked : Set ρ
  guards : Set ρ
  ends : Prop
  kills : Prop

namespace Processor

variable {τ ρ : Type}

/-- What is left of a section keeps the order of the locks and the discipline, from the locks that are
held and the masks that are in force. -/
def Orderly (rank : ρ → Nat) (gate : ρ) (rules : Discipline ρ) : Set ρ → Nat → List (LockOp ρ) → Prop
  | held,depth,[] => held = ∅ ∧ depth = 0
  | held,depth,.lock name::rest => (∀ other ∈ held, rank other < rank name) ∧
    (depth = 0 → name ∈ rules.plain ∧ gate ∉ held ∧ (name ∈ rules.guards → name = gate)) ∧
    (0 < depth → name ∈ rules.masked) ∧ Orderly rank gate rules (insert name held) depth rest
  | held,depth,.unlock name::rest => name ∈ held ∧ Orderly rank gate rules (held \ {name}) depth rest
  | held,depth,.mask::rest => Orderly rank gate rules held (depth + 1) rest
  | held,depth,.unmask::rest => 0 < depth ∧ (depth = 1 → Disjoint held rules.guards) ∧
    Orderly rank gate rules held (depth - 1) rest
  | held,depth,.switch::rest => 0 < depth ∧ Disjoint held rules.guards ∧ Orderly rank gate rules held depth rest
  | held,depth,.start::rest => Orderly rank gate rules held depth rest
  | held,depth,.finish::rest => rules.ends ∧ Orderly rank gate rules held depth rest
  | held,depth,.kill::rest => rules.kills ∧ Orderly rank gate rules held depth rest

/-- A lock that is held is given back before the end, and before the task asks for it again. -/
theorem Orderly.unlocks {rank : ρ → Nat} {gate name : ρ} {rules : Discipline ρ} {held : Set ρ} {depth : Nat}
    {before rest : List (LockOp ρ)} (order : Orderly rank gate rules held depth (before ++ rest)) (taken : name ∈ held)
    (asks : rest = [] ∨ ∃ more, rest = .lock name::more) : .unlock name ∈ before := by
  induction before generalizing held depth with
  | nil =>
    rcases asks with rfl | ⟨more,rfl⟩
    · rw [order.1] at taken
      exact taken.elim
    · exact absurd (order.1 name taken) (Nat.lt_irrefl _)
  | cons op before ih =>
    cases op with
    | lock other => exact List.mem_cons_of_mem _ (ih order.2.2.2 (Set.mem_insert_of_mem _ taken))
    | unlock other =>
      by_cases same : name = other
      · rw [same]
        exact List.mem_cons_self
      · exact List.mem_cons_of_mem _ (ih order.2 ⟨taken,same⟩)
    | mask => exact List.mem_cons_of_mem _ (ih order taken)
    | unmask => exact List.mem_cons_of_mem _ (ih order.2.2 taken)
    | switch => exact List.mem_cons_of_mem _ (ih order.2.2 taken)
    | start => exact List.mem_cons_of_mem _ (ih order taken)
    | finish => exact List.mem_cons_of_mem _ (ih order.2 taken)
    | kill => exact List.mem_cons_of_mem _ (ih order.2 taken)

/-- The operations leave the locks and the masks as they find them. -/
def Balanced (rank : ρ → Nat) (gate : ρ) (rules : Discipline ρ) (held : Set ρ) (depth : Nat) (ops : List (LockOp ρ)) : Prop :=
  ∀ rest, Orderly rank gate rules held depth rest → Orderly rank gate rules held depth (ops ++ rest)

namespace Balanced

variable {rank : ρ → Nat} {gate name : ρ} {rules : Discipline ρ} {held : Set ρ} {depth : Nat} {ops more : List (LockOp ρ)}

theorem orderly (balanced : Balanced rank gate rules ∅ 0 ops) : Orderly rank gate rules ∅ 0 ops := by
  have whole := balanced [] ⟨rfl,rfl⟩
  rwa [List.append_nil] at whole

theorem nil : Balanced rank gate rules held depth [] := fun _ order => order

theorem append (first : Balanced rank gate rules held depth ops) (second : Balanced rank gate rules held depth more) :
    Balanced rank gate rules held depth (ops ++ more) := by
  intro rest order
  rw [List.append_assoc]
  exact first _ (second _ order)

theorem flatten {parts : List (List (LockOp ρ))} (each : ∀ part ∈ parts, Balanced rank gate rules held depth part) :
    Balanced rank gate rules held depth parts.flatten := by
  induction parts with
  | nil => exact nil
  | cons part parts ih =>
    exact (each part List.mem_cons_self).append (ih fun other member => each other (List.mem_cons_of_mem _ member))

theorem locked (above : ∀ other ∈ held, rank other < rank name)
    (plain : depth = 0 → name ∈ rules.plain ∧ gate ∉ held ∧ (name ∈ rules.guards → name = gate))
    (masked : 0 < depth → name ∈ rules.masked) (inner : Balanced rank gate rules (insert name held) depth ops) :
    Balanced rank gate rules held depth (LockOp.locked name ops) := by
  intro rest order
  have fresh : name ∉ held := fun member => Nat.lt_irrefl _ (above name member)
  refine ⟨above,plain,masked,?_⟩
  change Orderly rank gate rules (insert name held) depth (ops ++ [LockOp.unlock name] ++ rest)
  rw [List.append_assoc]
  refine inner _ ⟨Set.mem_insert _ _,?_⟩
  rwa [Set.insert_sdiff_self_of_notMem fresh]

theorem withoutInterrupts (clear : depth = 0 → Disjoint held rules.guards)
    (inner : Balanced rank gate rules held (depth + 1) ops) :
    Balanced rank gate rules held depth (LockOp.withoutInterrupts ops) := by
  intro rest order
  change Orderly rank gate rules held (depth + 1) (ops ++ [LockOp.unmask] ++ rest)
  rw [List.append_assoc]
  exact inner _ ⟨Nat.succ_pos depth,fun one => clear (Nat.succ.inj one),order⟩

theorem switch (deep : 0 < depth) (clear : Disjoint held rules.guards) :
    Balanced rank gate rules held depth [LockOp.switch] := fun _ order => ⟨deep,clear,order⟩

theorem start : Balanced rank gate rules held depth [LockOp.start] := fun _ order => order

theorem finish (ends : rules.ends) : Balanced rank gate rules held depth [LockOp.finish] := fun _ order => ⟨ends,order⟩

theorem kill (kills : rules.kills) : Balanced rank gate rules held depth [LockOp.kill] := fun _ order => ⟨kills,order⟩

end Balanced

def held (cpu : Processor τ ρ) (task : τ) : Set ρ := {name | cpu.holder name = some task}

/-- What every run keeps. -/
structure Sound (rank : ρ → Nat) (gate : ρ) (rules : τ → Discipline ρ) (cpu : Processor τ ρ) : Prop where
  orderly : ∀ task, Orderly rank gate (rules task) (cpu.held task) (cpu.depth task) (cpu.code task)
  away : ∀ task, task ≠ cpu.running → Disjoint (cpu.held task) (rules task).guards
  plain : cpu.depth cpu.running = 0 →
    ∀ name ∈ cpu.held cpu.running, name ∈ (rules cpu.running).guards → name = gate ∧ gate ∈ (rules cpu.running).plain

/-- The first task waits for a lock that the second one holds. -/
def Waits (cpu : Processor τ ρ) (task other : τ) : Prop :=
  ∃ name rest, cpu.code task = .lock name::rest ∧ cpu.holder name = some other

/-- The running task waits, and nothing takes the processor from it. -/
def Stuck (cpu : Processor τ ρ) : Prop :=
  (∃ other, cpu.Waits cpu.running other) ∧
    (0 < cpu.depth cpu.running ∨ ∀ task, cpu.status task = .live → task = cpu.running)

variable {rank : ρ → Nat} {gate name : ρ} {rules : τ → Discipline ρ} {cpu next : Processor τ ρ} {task : τ}
variable {rest : List (LockOp ρ)}

/-- A step of the running task that keeps the processor needs a look at that task alone. -/
theorem Sound.own (sound : Sound rank gate rules cpu) (running : next.running = cpu.running)
    (others : ∀ task, task ≠ cpu.running →
      next.held task = cpu.held task ∧ next.depth task = cpu.depth task ∧ next.code task = cpu.code task)
    (orderly : Orderly rank gate (rules cpu.running) (next.held cpu.running) (next.depth cpu.running)
      (next.code cpu.running))
    (plain : next.depth cpu.running = 0 → ∀ name ∈ next.held cpu.running, name ∈ (rules cpu.running).guards →
      name = gate ∧ gate ∈ (rules cpu.running).plain) : Sound rank gate rules next := by
  constructor
  · intro task
    by_cases own : task = cpu.running
    · rw [own]
      exact orderly
    · obtain ⟨held,depth,code⟩ := others task own
      rw [held,depth,code]
      exact sound.orderly task
  · intro task away
    rw [running] at away
    rw [(others task away).1]
    exact sound.away task away
  · rw [running]
    exact plain

/-- A task that holds none of its guards may lose the processor. -/
theorem Sound.moved (sound : Sound rank gate rules cpu) (clear : Disjoint (cpu.held cpu.running) (rules cpu.running).guards)
    (target : τ) : Sound rank gate rules {cpu with running := target} := by
  have none : ∀ task, Disjoint (cpu.held task) (rules task).guards := by
    intro task
    by_cases own : task = cpu.running
    · rw [own]
      exact clear
    · exact sound.away task own
  exact ⟨sound.orderly,fun task _ => none task,
    fun _ name taken guarded => (Set.disjoint_left.mp (none target) taken guarded).elim⟩

/-! What the discipline means for the locks. -/

/-- A lock that every task guards is held by the running task alone. -/
theorem Sound.holder_eq (sound : Sound rank gate rules cpu) (guarded : ∀ task, name ∈ (rules task).guards)
    (taken : cpu.holder name = some task) : task = cpu.running := by
  by_contra away
  exact Set.disjoint_left.mp (sound.away task away) taken (guarded task)

theorem Sound.not_own (sound : Sound rank gate rules cpu) (code : cpu.code task = .lock name::rest) :
    cpu.holder name ≠ some task := by
  intro taken
  have order := sound.orderly task
  rw [code] at order
  exact Nat.lt_irrefl _ (order.1 name taken)

/-- The running task gets such a lock at once. -/
theorem Sound.free (sound : Sound rank gate rules cpu) (guarded : ∀ task, name ∈ (rules task).guards)
    (code : cpu.code cpu.running = .lock name::rest) : cpu.holder name = none := by
  cases taken : cpu.holder name with
  | none => rfl
  | some task =>
    obtain rfl := sound.holder_eq guarded taken
    exact absurd taken (sound.not_own code)

variable [DecidableEq τ]

/-- The running task goes on behind its first operation. -/
def passed (cpu : Processor τ ρ) (rest : List (LockOp ρ)) : Processor τ ρ :=
  {cpu with code := Function.update cpu.code cpu.running rest}

@[simp] theorem passed_code (cpu : Processor τ ρ) (rest : List (LockOp ρ)) : (cpu.passed rest).code cpu.running = rest :=
  Function.update_self ..

theorem passed_passed (cpu : Processor τ ρ) (ops rest : List (LockOp ρ)) : (cpu.passed ops).passed rest = cpu.passed rest := by
  rw [Processor.passed,Processor.passed,Processor.passed]
  exact congrArg (fun code => ({cpu with code} : Processor τ ρ)) (Function.update_idem ..)

theorem passed_nil (idle : cpu.code cpu.running = []) : cpu.passed [] = cpu := by
  rw [Processor.passed,← idle,Function.update_eq_self]

theorem Sound.passed (sound : Sound rank gate rules cpu)
    (order : Orderly rank gate (rules cpu.running) (cpu.held cpu.running) (cpu.depth cpu.running) rest) :
    Sound rank gate rules (cpu.passed rest) := by
  refine sound.own rfl (fun task other => ⟨rfl,rfl,Function.update_of_ne other _ _⟩) ?_ sound.plain
  rw [passed_code]
  exact order

/-- Every task is between sections or has the rest of one of its own before it. -/
def Inside (sections : τ → List (LockOp ρ) → Prop) (cpu : Processor τ ρ) : Prop :=
  ∀ task, cpu.code task = [] ∨ ∃ ops, sections task ops ∧ cpu.code task <:+ ops

theorem Inside.passed {sections : τ → List (LockOp ρ) → Prop} (inside : Inside sections cpu) {op : LockOp ρ}
    (code : cpu.code cpu.running = op::rest) : Inside sections (cpu.passed rest) := by
  intro task
  by_cases own : task = cpu.running
  · subst own
    rw [passed_code]
    rcases inside cpu.running with idle | ⟨ops,known,suffix⟩
    · cases code.symm.trans idle
    · rw [code] at suffix
      exact Or.inr ⟨ops,known,(List.suffix_cons op rest).trans suffix⟩
  · rw [Processor.passed]
    dsimp only
    rw [Function.update_of_ne own]
    exact inside task

/-- The scheduler gives the processor to a live task or leaves it where it is. -/
def MayRun (cpu : Processor τ ρ) (target : τ) : Prop := target = cpu.running ∨ cpu.status target = .live

variable [DecidableEq ρ]

inductive Step (gate : ρ) (sections : τ → List (LockOp ρ) → Prop) :
    Processor τ ρ → ProcessorMove τ ρ → Processor τ ρ → Prop
  | begin (cpu : Processor τ ρ) (ops : List (LockOp ρ)) (idle : cpu.code cpu.running = [])
      (live : cpu.status cpu.running = .live) (known : sections cpu.running ops) :
      Step gate sections cpu (.begin ops) (cpu.passed ops)
  | lock (cpu : Processor τ ρ) (name : ρ) (rest : List (LockOp ρ)) (next : cpu.code cpu.running = .lock name::rest)
      (free : cpu.holder name = none) :
      Step gate sections cpu .act {cpu.passed rest with holder := Function.update cpu.holder name (some cpu.running)}
  | spin (cpu : Processor τ ρ) (name : ρ) (rest : List (LockOp ρ)) (next : cpu.code cpu.running = .lock name::rest)
      (taken : cpu.holder name ≠ none) : Step gate sections cpu .act cpu
  | unlock (cpu : Processor τ ρ) (name : ρ) (rest : List (LockOp ρ))
      (next : cpu.code cpu.running = .unlock name::rest) :
      Step gate sections cpu .act {cpu.passed rest with holder := Function.update cpu.holder name none}
  | mask (cpu : Processor τ ρ) (rest : List (LockOp ρ)) (next : cpu.code cpu.running = .mask::rest) :
      Step gate sections cpu .act
        {cpu.passed rest with depth := Function.update cpu.depth cpu.running (cpu.depth cpu.running + 1)}
  | unmask (cpu : Processor τ ρ) (rest : List (LockOp ρ)) (next : cpu.code cpu.running = .unmask::rest) :
      Step gate sections cpu .act
        {cpu.passed rest with depth := Function.update cpu.depth cpu.running (cpu.depth cpu.running - 1)}
  | switch (cpu : Processor τ ρ) (target : τ) (rest : List (LockOp ρ))
      (next : cpu.code cpu.running = .switch::rest) (may : cpu.MayRun target) :
      Step gate sections cpu .act {cpu.passed rest with running := target}
  | start (cpu : Processor τ ρ) (fresh : τ) (rest : List (LockOp ρ)) (next : cpu.code cpu.running = .start::rest)
      (unused : cpu.status fresh = .new) :
      Step gate sections cpu .act {cpu.passed rest with status := Function.update cpu.status fresh .live}
  | full (cpu : Processor τ ρ) (rest : List (LockOp ρ)) (next : cpu.code cpu.running = .start::rest) :
      Step gate sections cpu .act (cpu.passed rest)
  | finish (cpu : Processor τ ρ) (rest : List (LockOp ρ)) (next : cpu.code cpu.running = .finish::rest) :
      Step gate sections cpu .act {cpu.passed rest with status := Function.update cpu.status cpu.running .dead}
  | kill (cpu : Processor τ ρ) (victim : τ) (rest : List (LockOp ρ)) (next : cpu.code cpu.running = .kill::rest)
      (other : victim ≠ cpu.running) :
      Step gate sections cpu .act {cpu.passed rest with status := Function.update cpu.status victim .dead}
  | spare (cpu : Processor τ ρ) (rest : List (LockOp ρ)) (next : cpu.code cpu.running = .kill::rest) :
      Step gate sections cpu .act (cpu.passed rest)
  | tick (cpu : Processor τ ρ) (target : τ) (enabled : cpu.depth cpu.running = 0) (free : cpu.holder gate = none)
      (may : cpu.MayRun target) : Step gate sections cpu (.tick target) {cpu with running := target}

variable {sections : τ → List (LockOp ρ) → Prop} {last : Processor τ ρ} {move : ProcessorMove τ ρ}
variable {moves : List (ProcessorMove τ ρ)}

/-! What a step does to the locks of each task. -/

theorem held_lock (free : cpu.holder name = none) (task : τ) :
    ({cpu.passed rest with holder := Function.update cpu.holder name (some cpu.running)} : Processor τ ρ).held task =
      if task = cpu.running then insert name (cpu.held task) else cpu.held task := by
  ext lock
  by_cases same : lock = name
  · subst same
    by_cases own : task = cpu.running
    · simp [held,own]
    · have apart : ¬cpu.running = task := fun same => own same.symm
      simp [held,own,apart,free]
  · by_cases own : task = cpu.running <;> simp [held,own,same]

theorem held_unlock (taken : name ∈ cpu.held cpu.running) (task : τ) :
    ({cpu.passed rest with holder := Function.update cpu.holder name none} : Processor τ ρ).held task =
      if task = cpu.running then cpu.held task \ {name} else cpu.held task := by
  have holder : cpu.holder name = some cpu.running := taken
  ext lock
  by_cases same : lock = name
  · subst same
    by_cases own : task = cpu.running
    · simp [held,own]
    · have apart : ¬cpu.running = task := fun same => own same.symm
      simp [held,own,apart,holder]
  · by_cases own : task = cpu.running <;> simp [held,own,same]

/-- Every step keeps the order and the discipline of the locks. -/
theorem Sound.step (sound : Sound rank gate rules cpu)
    (known : ∀ task ops, sections task ops → Orderly rank gate (rules task) ∅ 0 ops)
    (step : Step gate sections cpu move next) : Sound rank gate rules next := by
  have order := sound.orderly cpu.running
  cases step with
  | begin ops idle live section_ =>
    rw [idle] at order
    obtain ⟨none,zero⟩ := order
    refine sound.passed ?_
    rw [none,zero]
    exact known _ _ section_
  | lock name rest code free =>
    rw [code] at order
    obtain ⟨_,plain,_,order⟩ := order
    refine sound.own rfl (fun task other => ⟨?_,rfl,Function.update_of_ne other _ _⟩) ?_ ?_
    · rw [held_lock free,if_neg other]
    · rw [held_lock free,if_pos rfl]
      dsimp only [Processor.passed]
      rwa [Function.update_self]
    · intro zero lock taken guarded
      rw [held_lock free,if_pos rfl] at taken
      obtain ⟨asked,_,only⟩ := plain zero
      rcases taken with rfl | before
      · have same := only guarded
        exact ⟨same,same ▸ asked⟩
      · exact sound.plain zero lock before guarded
  | spin name rest code taken => exact sound
  | unlock name rest code =>
    rw [code] at order
    obtain ⟨taken,order⟩ := order
    refine sound.own rfl (fun task other => ⟨?_,rfl,Function.update_of_ne other _ _⟩) ?_ ?_
    · rw [held_unlock taken,if_neg other]
    · rw [held_unlock taken,if_pos rfl]
      dsimp only [Processor.passed]
      rwa [Function.update_self]
    · intro zero lock left
      rw [held_unlock taken,if_pos rfl] at left
      exact sound.plain zero lock left.1
  | mask rest code =>
    rw [code] at order
    refine sound.own rfl (fun task other => ⟨rfl,Function.update_of_ne other _ _,Function.update_of_ne other _ _⟩) ?_ ?_
    · dsimp only [Processor.passed]
      rw [Function.update_self,Function.update_self]
      exact order
    · intro zero
      dsimp only [Processor.passed] at zero
      rw [Function.update_self] at zero
      cases zero
  | unmask rest code =>
    rw [code] at order
    obtain ⟨deep,last,order⟩ := order
    refine sound.own rfl (fun task other => ⟨rfl,Function.update_of_ne other _ _,Function.update_of_ne other _ _⟩) ?_ ?_
    · dsimp only [Processor.passed]
      rw [Function.update_self,Function.update_self]
      exact order
    · intro zero lock taken guarded
      dsimp only [Processor.passed] at zero
      rw [Function.update_self] at zero
      exact (Set.disjoint_left.mp (last (by omega)) taken guarded).elim
  | switch target rest code may =>
    rw [code] at order
    obtain ⟨_,clear,order⟩ := order
    exact (sound.passed order).moved clear target
  | start fresh rest code =>
    rw [code] at order
    have passed : Sound rank gate rules (cpu.passed rest) := sound.passed order
    exact ⟨passed.orderly,passed.away,passed.plain⟩
  | full rest code =>
    rw [code] at order
    exact sound.passed order
  | finish rest code =>
    rw [code] at order
    have passed : Sound rank gate rules (cpu.passed rest) := sound.passed order.2
    exact ⟨passed.orderly,passed.away,passed.plain⟩
  | kill victim rest code other =>
    rw [code] at order
    have passed : Sound rank gate rules (cpu.passed rest) := sound.passed order.2
    exact ⟨passed.orderly,passed.away,passed.plain⟩
  | spare rest code =>
    rw [code] at order
    exact sound.passed order.2
  | tick target enabled free may =>
    refine sound.moved (Set.disjoint_left.mpr fun name taken guarded => ?_) target
    obtain ⟨rfl,_⟩ := sound.plain enabled name taken guarded
    cases free.symm.trans taken

/-- A task that no other task kills and that does not end itself goes on. -/
theorem Sound.step_live {root : τ} (sound : Sound rank gate rules cpu) (lasts : ¬(rules root).ends)
    (killer : ∀ task, (rules task).kills → task = root) (live : cpu.status root = .live)
    (step : Step gate sections cpu move next) : next.status root = .live := by
  have order := sound.orderly cpu.running
  cases step with
  | start fresh rest code unused =>
    have other : root ≠ fresh := by
      rintro rfl
      cases live.symm.trans unused
    exact (Function.update_of_ne other _ _).trans live
  | finish rest code =>
    rw [code] at order
    have other : root ≠ cpu.running := fun same => lasts (same ▸ order.1)
    exact (Function.update_of_ne other _ _).trans live
  | kill victim rest code apart =>
    rw [code] at order
    have other : root ≠ victim := fun same => apart (same.symm.trans (killer _ order.1).symm)
    exact (Function.update_of_ne other _ _).trans live
  | _ => exact live

/-- A lock of a dead task is never given back. -/
theorem Sound.step_orphaned (sound : Sound rank gate rules cpu) (dead : cpu.status task = .dead) (away : task ≠ cpu.running)
    (taken : cpu.holder name = some task) (step : Step gate sections cpu move next) :
    next.status task = .dead ∧ task ≠ next.running ∧ next.holder name = some task := by
  have order := sound.orderly cpu.running
  have elsewhere : ∀ target, cpu.MayRun target → task ≠ target := by
    rintro target (rfl | live) rfl
    · exact away rfl
    · cases live.symm.trans dead
  cases step with
  | lock other rest code free =>
    have apart : name ≠ other := by
      rintro rfl
      cases free.symm.trans taken
    exact ⟨dead,away,(Function.update_of_ne apart _ _).trans taken⟩
  | unlock other rest code =>
    rw [code] at order
    have apart : name ≠ other := by
      rintro rfl
      exact away (Option.some.inj (taken.symm.trans order.1))
    exact ⟨dead,away,(Function.update_of_ne apart _ _).trans taken⟩
  | switch target rest code may => exact ⟨dead,elsewhere target may,taken⟩
  | tick target enabled free may => exact ⟨dead,elsewhere target may,taken⟩
  | start fresh rest code unused =>
    have apart : task ≠ fresh := by
      rintro rfl
      cases unused.symm.trans dead
    exact ⟨(Function.update_of_ne apart _ _).trans dead,away,taken⟩
  | finish rest code => exact ⟨(Function.update_of_ne away _ _).trans dead,away,taken⟩
  | kill victim rest code other =>
    refine ⟨?_,away,taken⟩
    by_cases same : task = victim
    · rw [same]
      exact Function.update_self ..
    · exact (Function.update_of_ne same _ _).trans dead
  | _ => exact ⟨dead,away,taken⟩

/-! Where each task stands in its code. -/

theorem Inside.step (inside : Inside sections cpu) (step : Step gate sections cpu move next) : Inside sections next := by
  cases step with
  | begin ops idle live known =>
    intro task
    by_cases own : task = cpu.running
    · subst own
      rw [passed_code]
      exact Or.inr ⟨ops,known,List.suffix_rfl⟩
    · rw [Processor.passed]
      dsimp only
      rw [Function.update_of_ne own]
      exact inside task
  | spin name rest code => exact inside
  | tick target => exact inside
  | lock name rest code => exact inside.passed code
  | unlock name rest code => exact inside.passed code
  | mask rest code => exact inside.passed code
  | unmask rest code => exact inside.passed code
  | switch target rest code => exact inside.passed code
  | start fresh rest code => exact inside.passed code
  | full rest code => exact inside.passed code
  | finish rest code => exact inside.passed code
  | kill victim rest code => exact inside.passed code
  | spare rest code => exact inside.passed code

theorem Inside.run (inside : Inside sections cpu) (run : Run (Step gate sections) cpu moves last) : Inside sections last :=
  run.keeps (fun _ _ _ inside step => Inside.step inside step) inside

/-! Where the processor stops for ever. -/

theorem Stuck.step (stuck : cpu.Stuck) (step : Step gate sections cpu move next) : next = cpu := by
  obtain ⟨⟨other,name,rest,code,taken⟩,kept⟩ := stuck
  cases step with
  | spin => rfl
  | begin _ idle => cases code.symm.trans idle
  | lock _ _ again free =>
    cases code.symm.trans again
    cases taken.symm.trans free
  | unlock _ _ again => cases code.symm.trans again
  | mask _ again => cases code.symm.trans again
  | unmask _ again => cases code.symm.trans again
  | switch _ _ again => cases code.symm.trans again
  | start _ _ again => cases code.symm.trans again
  | full _ again => cases code.symm.trans again
  | finish _ again => cases code.symm.trans again
  | kill _ _ again => cases code.symm.trans again
  | spare _ again => cases code.symm.trans again
  | tick target enabled _ may =>
    rcases kept with masked | alone
    · exact absurd enabled (Nat.ne_of_gt masked)
    · have same : target = cpu.running := may.elim id (alone target)
      rw [same]

theorem Stuck.run (stuck : cpu.Stuck) (run : Run (Step gate sections) cpu moves last) : last = cpu := by
  have each : ∀ first action last, first = cpu → Step gate sections first action last → last = cpu := by
    rintro first action last rfl step
    exact stuck.step step
  exact run.keeps each rfl

theorem Step.takes (free : cpu.holder name = none) : Step gate sections (cpu.passed (.lock name::rest)) .act
    ({cpu with holder := Function.update cpu.holder name (some cpu.running)}.passed rest) := by
  have step := @Step.lock τ ρ _ _ gate sections (cpu.passed (.lock name::rest)) name rest (passed_code ..) free
  rwa [passed_passed] at step

theorem Step.gives : Step gate sections (cpu.passed (.unlock name::rest)) .act
    ({cpu with holder := Function.update cpu.holder name none}.passed rest) := by
  have step := @Step.unlock τ ρ _ _ gate sections (cpu.passed (.unlock name::rest)) name rest (passed_code ..)
  rwa [passed_passed] at step

theorem Step.masks : Step gate sections (cpu.passed (.mask::rest)) .act
    ({cpu with depth := Function.update cpu.depth cpu.running (cpu.depth cpu.running + 1)}.passed rest) := by
  have step := @Step.mask τ ρ _ _ gate sections (cpu.passed (.mask::rest)) rest (passed_code ..)
  rwa [passed_passed] at step

theorem Step.unmasks : Step gate sections (cpu.passed (.unmask::rest)) .act
    ({cpu with depth := Function.update cpu.depth cpu.running (cpu.depth cpu.running - 1)}.passed rest) := by
  have step := @Step.unmask τ ρ _ _ gate sections (cpu.passed (.unmask::rest)) rest (passed_code ..)
  rwa [passed_passed] at step

theorem Step.starts (fresh : τ) (unused : cpu.status fresh = .new) : Step gate sections (cpu.passed (.start::rest)) .act
    ({cpu with status := Function.update cpu.status fresh .live}.passed rest) := by
  have step := @Step.start τ ρ _ _ gate sections (cpu.passed (.start::rest)) fresh rest (passed_code ..) unused
  rwa [passed_passed] at step

end Processor

end Library
