import PolarOs.Kernel.Context

/-! Runs of tasks under `Task::new` and `switch_context`. Between the calls the running
task changes registers freely and stores only into its own stack. A task that is not
running keeps its frame, since no store of another task reaches it. -/
namespace PolarOs.Context
open Library

/-- The stack of a task; `entryFn` is what `Task::new` was given, none for the kernel. -/
structure TaskStack where
  base : Nat
  size : Nat
  entryFn : Option UInt64

def TaskStack.stop (stack : TaskStack) : Nat := stack.base + stack.size

def TaskStack.Apart (first second : TaskStack) : Prop :=
  first.stop ≤ second.base ∨ second.stop ≤ first.base

structure State where
  machine : Machine
  taskStacks : List TaskStack
  current : Nat

/-- A switch names the running task, the next one and the registers at the call. -/
inductive Act where
  | code
  | new (stack entryFn : UInt64)
  | switch (old next : Nat) (call : Registers)

def State.newTask (trampoline : UInt64) (state : State) (stack entryFn : UInt64) : State :=
  let made := Context.newTask trampoline state.machine.memory stack entryFn
  let contexts := Function.update state.machine.contexts state.taskStacks.length made.2
  {state with
    machine := {state.machine with memory := made.1, contexts := contexts}
    taskStacks := state.taskStacks ++ [⟨stack.toNat,taskStackSize,some entryFn⟩]}

def State.switchTo (state : State) (next : Nat) : State :=
  {state with machine := state.machine.call switchContext state.current next, current := next}

/-- Stacks are apart and lie below the end of memory; at a call of `switch_context` the
running task has room for its frame. -/
inductive Step (trampoline : UInt64) : State → Act → State → Prop
  | code (state : State) (own : TaskStack) (registers : Registers) (memory : Memory)
      (running : state.taskStacks[state.current]? = some own)
      (stores : ∀ start stop, stop ≤ own.base ∨ own.stop ≤ start → Memory.Agree memory state.machine.memory start stop) :
      Step trampoline state .code {state with machine := {state.machine with registers, memory}}
  | new (state : State) (stack entryFn : UInt64) (fits : stack.toNat + taskStackSize < 2^64)
      (fresh : ∀ other ∈ state.taskStacks, other.Apart ⟨stack.toNat,taskStackSize,some entryFn⟩) :
      Step trampoline state (.new stack entryFn) (state.newTask trampoline stack entryFn)
  | switch (state : State) (own : TaskStack) (next : Nat) (known : next < state.taskStacks.length)
      (running : state.taskStacks[state.current]? = some own)
      (room : own.base + 56 ≤ state.machine.registers.rsp.toNat)
      (within : state.machine.registers.rsp.toNat ≤ own.stop) :
      Step trampoline state (.switch state.current next state.machine.registers) (state.switchTo next)

/-- The kernel thread runs on its own stack before any task exists. -/
def boot (machine : Machine) (base size : Nat) : State := ⟨machine,[⟨base,size,none⟩],0⟩

def callOf (task : Nat) : Act → Option Registers
  | .switch old _ call => if old = task then some call else none
  | _ => none

def lastCall (task : Nat) (acts : List Act) : Option Registers := (acts.filterMap (callOf task)).getLast?

theorem lastCall_snoc (task : Nat) (acts : List Act) (act : Act) :
    lastCall task (acts ++ [act]) = (callOf task act).or (lastCall task acts) := by
  rw [lastCall,List.filterMap_append]
  cases called : callOf task act with
  | none =>
    rw [List.filterMap_cons_none called,List.filterMap_nil,List.append_nil]
    rfl
  | some call =>
    rw [List.filterMap_cons_some called,List.filterMap_nil,List.getLast?_concat]
    rfl

/-- What a task resumes with: its last call, or what `Task::new` prepared. -/
def Resumes (trampoline : UInt64) (acts : List Act) (task : Nat) (stack : TaskStack) (registers : Registers) : Prop :=
  lastCall task acts = some registers ∨
    lastCall task acts = none ∧ ∃ entryFn, stack.entryFn = some entryFn ∧
      registers = firstRegisters trampoline entryFn (UInt64.ofNat stack.stop)

/-- The frame of a task lies in its stack. -/
structure Suspended (state : State) (task : Nat) (stack : TaskStack) (registers : Registers) : Prop where
  saved : Saved state.machine.memory (state.machine.contexts task) registers
  above : stack.base ≤ (state.machine.contexts task).toNat
  below : registers.rsp.toNat ≤ stack.stop

structure Consistent (trampoline : UInt64) (acts : List Act) (state : State) : Prop where
  running : state.current < state.taskStacks.length
  apart : state.taskStacks.Pairwise TaskStack.Apart
  kernel : ∃ stack, state.taskStacks[0]? = some stack ∧ stack.entryFn = none
  called : ∀ task, state.taskStacks.length ≤ task → lastCall task acts = none
  entered : ∀ task, task = state.current ∨ lastCall task acts ≠ none →
    task = 0 ∨ ∃ old call, Act.switch old task call ∈ acts
  suspended : ∀ task stack, state.taskStacks[task]? = some stack → task ≠ state.current →
    ∃ registers, Resumes trampoline acts task stack registers ∧ Suspended state task stack registers

/-! A frame survives what happens outside its stack. -/

theorem Suspended.keeps {first second : State} {task : Nat} {stack : TaskStack} {registers : Registers}
    (suspended : Suspended first task stack registers)
    (context : second.machine.contexts task = first.machine.contexts task)
    (same : Memory.Agree second.machine.memory first.machine.memory stack.base stack.stop) :
    Suspended second task stack registers := by
  obtain ⟨saved,above,below⟩ := suspended
  have place := saved.place
  refine ⟨?_,?_,below⟩
  · rw [context]
    apply saved.congr
    intro byte low high
    exact same byte (by omega) (by omega)
  · rw [context]
    exact above

theorem apart_at {stackList : List TaskStack} (apart : stackList.Pairwise TaskStack.Apart) {i j : Nat}
    {first second : TaskStack} (one : stackList[i]? = some first) (other : stackList[j]? = some second)
    (different : i ≠ j) : first.Apart second := by
  obtain ⟨i_lt,rfl⟩ := List.getElem?_eq_some_iff.mp one
  obtain ⟨j_lt,rfl⟩ := List.getElem?_eq_some_iff.mp other
  rcases Nat.lt_or_gt_of_ne different with before | after
  · exact List.pairwise_iff_getElem.mp apart i j i_lt j_lt before
  · exact (List.pairwise_iff_getElem.mp apart j i j_lt i_lt after).symm

theorem Resumes.keeps {trampoline : UInt64} {acts : List Act} {task : Nat} {stack : TaskStack} {registers : Registers}
    {act : Act} (resumes : Resumes trampoline acts task stack registers) (silent : callOf task act = none) :
    Resumes trampoline (acts ++ [act]) task stack registers := by
  rw [Resumes,lastCall_snoc,silent,Option.none_or]
  exact resumes

variable {trampoline : UInt64} {acts : List Act} {state : State}

theorem consistent_boot (machine : Machine) (base size : Nat) : Consistent trampoline [] (boot machine base size) where
  running := Nat.one_pos
  apart := List.pairwise_singleton _ _
  kernel := ⟨_,rfl,rfl⟩
  called := fun _ _ => rfl
  entered := by
    intro task entered
    rcases entered with first | called
    · exact Or.inl first
    · exact absurd rfl called
  suspended := by
    intro task stack found other
    obtain ⟨bound,_⟩ := List.getElem?_eq_some_iff.mp found
    exact absurd (Nat.lt_one_iff.mp bound) other

theorem consistent_code (consistent : Consistent trampoline acts state) {own : TaskStack} (registers : Registers)
    {memory : Memory} (running : state.taskStacks[state.current]? = some own)
    (stores : ∀ start stop, stop ≤ own.base ∨ own.stop ≤ start → Memory.Agree memory state.machine.memory start stop) :
    Consistent trampoline (acts ++ [.code]) {state with machine := {state.machine with registers, memory}} where
  running := consistent.running
  apart := consistent.apart
  kernel := consistent.kernel
  called := by
    intro task beyond
    rw [lastCall_snoc]
    exact consistent.called task beyond
  entered := by
    intro task entered
    rw [lastCall_snoc] at entered
    rcases consistent.entered task entered with kernel | ⟨old,call,member⟩
    · exact Or.inl kernel
    · exact Or.inr ⟨old,call,List.mem_append_left _ member⟩
  suspended := by
    intro task stack found other
    obtain ⟨kept,resumes,suspended⟩ := consistent.suspended task stack found other
    have apart := apart_at consistent.apart found running other
    exact ⟨kept,resumes.keeps rfl,suspended.keeps rfl (stores _ _ apart)⟩

theorem frame_fits : 56 ≤ taskStackSize := by
  unfold taskStackSize
  decide

theorem agree_newTask {memory : Memory} {stack : UInt64} {start stop : Nat} (entryFn : UInt64)
    (fits : stack.toNat + taskStackSize < 2^64)
    (apart : stop ≤ stack.toNat ∨ stack.toNat + taskStackSize ≤ start) :
    Memory.Agree (newTask trampoline memory stack entryFn).1 memory start stop := by
  have top := firstRegisters_rsp fits trampoline entryFn
  have enough := frame_fits
  rw [newTask_frame]
  generalize firstRegisters trampoline entryFn (stack + UInt64.ofNat taskStackSize) = registers at top ⊢
  have pushed : Memory.Agree (registers.frame.foldl pushWord (newStack memory stack,registers.rsp)).1
      (newStack memory stack) start stop := agree_frame (by omega) (by omega)
  intro byte low high
  exact (pushed byte low high).trans (agree_newStack apart byte low high)

theorem suspended_new {stack : UInt64} (entryFn : UInt64) (fits : stack.toNat + taskStackSize < 2^64) :
    Suspended (state.newTask trampoline stack entryFn) state.taskStacks.length
      ⟨stack.toNat,taskStackSize,some entryFn⟩
      (firstRegisters trampoline entryFn (stack + UInt64.ofNat taskStackSize)) := by
  have top := firstRegisters_rsp fits trampoline entryFn
  have enough := frame_fits
  have context : (state.newTask trampoline stack entryFn).machine.contexts state.taskStacks.length =
      (newTask trampoline state.machine.memory stack entryFn).2 := Function.update_self ..
  have memory : (state.newTask trampoline stack entryFn).machine.memory =
      (newTask trampoline state.machine.memory stack entryFn).1 := rfl
  have saved : Saved (newTask trampoline state.machine.memory stack entryFn).1
      (newTask trampoline state.machine.memory stack entryFn).2
      (firstRegisters trampoline entryFn (stack + UInt64.ofNat taskStackSize)) := by
    rw [newTask_frame]
    exact saved_frame (by omega)
  have place := saved.place
  refine ⟨?_,?_,top.le⟩
  · rw [context,memory]
    exact saved
  · rw [context]
    dsimp only
    omega

theorem consistent_new (consistent : Consistent trampoline acts state) {stack : UInt64} (entryFn : UInt64)
    (fits : stack.toNat + taskStackSize < 2^64)
    (fresh : ∀ other ∈ state.taskStacks, other.Apart ⟨stack.toNat,taskStackSize,some entryFn⟩) :
    Consistent trampoline (acts ++ [.new stack entryFn]) (state.newTask trampoline stack entryFn) where
  running := by
    have running := consistent.running
    rw [State.newTask,List.length_append]
    exact Nat.lt_add_right _ running
  apart := by
    apply List.pairwise_append.mpr
    refine ⟨consistent.apart,List.pairwise_singleton _ _,?_⟩
    intro other member made same
    exact List.mem_singleton.mp same ▸ fresh other member
  kernel := by
    obtain ⟨kernel,first,entry⟩ := consistent.kernel
    refine ⟨kernel,?_,entry⟩
    rw [State.newTask,List.getElem?_append_left (Nat.zero_lt_of_lt consistent.running)]
    exact first
  called := by
    intro task beyond
    have more : state.taskStacks.length + 1 ≤ task := by
      rw [State.newTask,List.length_append] at beyond
      exact beyond
    rw [lastCall_snoc]
    exact consistent.called task (Nat.le_of_succ_le more)
  entered := by
    intro task entered
    rw [lastCall_snoc] at entered
    rcases consistent.entered task entered with kernel | ⟨old,call,member⟩
    · exact Or.inl kernel
    · exact Or.inr ⟨old,call,List.mem_append_left _ member⟩
  suspended := by
    intro task own found other
    by_cases old : task < state.taskStacks.length
    · rw [State.newTask,List.getElem?_append_left old] at found
      obtain ⟨registers,resumes,suspended⟩ := consistent.suspended task own found other
      have apart := fresh own (List.mem_of_getElem? found)
      refine ⟨registers,resumes.keeps rfl,suspended.keeps ?_ (agree_newTask entryFn fits apart)⟩
      exact Function.update_of_ne (Nat.ne_of_lt old) ..
    · obtain ⟨bound,_⟩ := List.getElem?_eq_some_iff.mp found
      have last : task = state.taskStacks.length := by
        rw [State.newTask,List.length_append] at bound
        exact Nat.le_antisymm (Nat.le_of_lt_succ bound) (Nat.le_of_not_lt old)
      subst last
      rw [State.newTask,List.getElem?_concat_length] at found
      cases found
      have stackTop : UInt64.ofNat (stack.toNat + taskStackSize) = stack + UInt64.ofNat taskStackSize := by
        rw [UInt64.ofNat_add,UInt64.ofNat_toNat]
      refine ⟨_,Or.inr ⟨?_,entryFn,rfl,rfl⟩,?_⟩
      · rw [lastCall_snoc]
        exact consistent.called _ (Nat.le_refl _)
      · rw [TaskStack.stop,stackTop]
        exact suspended_new entryFn fits

/-! The switch: afterwards the frame of the old task is on its stack, too. -/

theorem suspended_old {own : TaskStack} (target : Nat) (room : own.base + 56 ≤ state.machine.registers.rsp.toNat)
    (within : state.machine.registers.rsp.toNat ≤ own.stop) :
    Suspended {state with machine := state.machine.switched state.current target} state.current own
      state.machine.registers := by
  have context : (state.machine.switched state.current target).contexts state.current =
      (state.machine.registers.frame.foldl pushWord (state.machine.memory,state.machine.registers.rsp)).2 :=
    Function.update_self ..
  have saved : Saved (state.machine.registers.frame.foldl pushWord (state.machine.memory,state.machine.registers.rsp)).1
      (state.machine.registers.frame.foldl pushWord (state.machine.memory,state.machine.registers.rsp)).2
      state.machine.registers := saved_frame (by omega)
  have place := saved.place
  refine ⟨?_,?_,within⟩
  · dsimp only
    rw [context]
    exact saved
  · dsimp only
    rw [context]
    omega

theorem suspended_switched (consistent : Consistent trampoline acts state) {own : TaskStack} (target : Nat)
    (running : state.taskStacks[state.current]? = some own)
    (room : own.base + 56 ≤ state.machine.registers.rsp.toNat) (within : state.machine.registers.rsp.toNat ≤ own.stop)
    {task : Nat} {stack : TaskStack} (found : state.taskStacks[task]? = some stack) :
    ∃ registers, Resumes trampoline (acts ++ [.switch state.current target state.machine.registers]) task stack registers ∧
      Suspended {state with machine := state.machine.switched state.current target} task stack registers := by
  by_cases same : task = state.current
  · subst same
    obtain rfl : own = stack := Option.some.inj (running.symm.trans found)
    refine ⟨_,Or.inl ?_,suspended_old target room within⟩
    rw [lastCall_snoc,callOf,if_pos rfl,Option.some_or]
  · obtain ⟨registers,resumes,suspended⟩ := consistent.suspended task stack found same
    have apart := apart_at consistent.apart found running same
    have silent : callOf task (.switch state.current target state.machine.registers) = none :=
      if_neg (Ne.symm same)
    refine ⟨registers,resumes.keeps silent,suspended.keeps ?_ ?_⟩
    · exact Function.update_of_ne same ..
    · apply agree_frame (by omega)
      rcases apart with below | above
      · exact Or.inl (by omega)
      · exact Or.inr (by omega)

theorem switchTo_resumes (consistent : Consistent trampoline acts state) {own : TaskStack} {target : Nat}
    (known : target < state.taskStacks.length) (running : state.taskStacks[state.current]? = some own)
    (room : own.base + 56 ≤ state.machine.registers.rsp.toNat) (within : state.machine.registers.rsp.toNat ≤ own.stop) :
    ∃ stack registers, state.taskStacks[target]? = some stack ∧
      Resumes trampoline (acts ++ [.switch state.current target state.machine.registers]) target stack registers ∧
      state.switchTo target = {state with
        machine := {state.machine.switched state.current target with registers := registers}
        current := target} := by
  obtain ⟨registers,resumes,suspended⟩ :=
    suspended_switched consistent target running room within (List.getElem?_eq_getElem known)
  refine ⟨_,registers,List.getElem?_eq_getElem known,resumes,?_⟩
  rw [State.switchTo,call_switchContext,restoring_frame suspended.saved]

theorem consistent_switch (consistent : Consistent trampoline acts state) {own : TaskStack} {target : Nat}
    (known : target < state.taskStacks.length) (running : state.taskStacks[state.current]? = some own)
    (room : own.base + 56 ≤ state.machine.registers.rsp.toNat) (within : state.machine.registers.rsp.toNat ≤ own.stop) :
    Consistent trampoline (acts ++ [.switch state.current target state.machine.registers]) (state.switchTo target) := by
  obtain ⟨_,_,_,_,after⟩ := switchTo_resumes consistent known running room within
  rw [after]
  refine {
    running := known
    apart := consistent.apart
    kernel := consistent.kernel
    called := ?called
    entered := ?entered
    suspended := ?suspended }
  case called =>
    intro task beyond
    have different : state.current ≠ task := Nat.ne_of_lt (Nat.lt_of_lt_of_le consistent.running beyond)
    rw [lastCall_snoc,callOf,if_neg different]
    exact consistent.called task beyond
  case entered =>
    intro task entered
    by_cases next : task = target
    · subst next
      exact Or.inr ⟨_,_,List.mem_append_right _ List.mem_cons_self⟩
    · have earlier : task = state.current ∨ lastCall task acts ≠ none := by
        rcases entered with now | called
        · exact absurd now next
        · by_cases caller : task = state.current
          · exact Or.inl caller
          · rw [lastCall_snoc,callOf,if_neg (Ne.symm caller)] at called
            exact Or.inr called
      rcases consistent.entered task earlier with kernel | ⟨old,call,member⟩
      · exact Or.inl kernel
      · exact Or.inr ⟨old,call,List.mem_append_left _ member⟩
  case suspended =>
    intro task stack found _
    obtain ⟨registers,resumes,suspended⟩ := suspended_switched consistent target running room within found
    exact ⟨registers,resumes,suspended.keeps rfl fun _ _ _ => rfl⟩

theorem Step.consistent {act : Act} {next : State} (step : Step trampoline state act next)
    (consistent : Consistent trampoline acts state) : Consistent trampoline (acts ++ [act]) next := by
  cases step with
  | code own registers memory running stores => exact consistent_code consistent registers running stores
  | new stack entryFn fits fresh => exact consistent_new consistent entryFn fits fresh
  | switch own target known running room within => exact consistent_switch consistent known running room within

theorem consistent_run {first last : State} {before after : List Act} (run : Run (Step trampoline) first after last)
    (consistent : Consistent trampoline before first) : Consistent trampoline (before ++ after) last := by
  induction run generalizing before with
  | nil => rwa [List.append_nil]
  | cons start rest ih =>
    rw [List.append_cons]
    exact ih (start.consistent consistent)

/-- In every run a task that is switched to has the registers of its own last call of
`switch_context`, and a task of `Task::new` that is switched to for the first time
arrives at the trampoline with its entry function in `r12` and an empty stack. -/
theorem switch_restores {machine : Machine} {base size : Nat} {target : Nat} {call : Registers} {next : State}
    (run : Run (Step trampoline) (boot machine base size) acts state)
    (switched : Step trampoline state (.switch state.current target call) next) :
    next.current = target ∧
      (∀ saved, lastCall target (acts ++ [.switch state.current target call]) = some saved →
        next.machine.registers = saved) ∧
      ∀ stack entryFn, state.taskStacks[target]? = some stack → stack.entryFn = some entryFn →
        (∀ old call, Act.switch old target call ∉ acts) →
        next.machine.registers = firstRegisters trampoline entryFn (UInt64.ofNat stack.stop) := by
  have consistent := consistent_run run (consistent_boot machine base size)
  rw [List.nil_append] at consistent
  cases switched with
  | switch own target known running room within =>
    obtain ⟨stack,registers,found,resumes,after⟩ := switchTo_resumes consistent known running room within
    rw [after]
    refine ⟨rfl,?_,?_⟩
    · intro saved last
      rcases resumes with call | ⟨never,_⟩
      · exact Option.some.inj (call.symm.trans last)
      · rw [never] at last
        cases last
    · intro other entryFn present entry first
      obtain rfl : stack = other := Option.some.inj (found.symm.trans present)
      have unentered : ¬(target = state.current ∨ lastCall target acts ≠ none) := by
        intro entered
        rcases consistent.entered target entered with kernel | ⟨old,call,member⟩
        · obtain ⟨kernelStack,zero,none⟩ := consistent.kernel
          subst kernel
          rw [Option.some.inj (zero.symm.trans found),entry] at none
          cases none
        · exact first old call member
      have different : state.current ≠ target := fun same => unentered (Or.inl same.symm)
      have silent : lastCall target (acts ++ [.switch state.current target state.machine.registers]) = none := by
        rw [lastCall_snoc,callOf,if_neg different]
        by_contra called
        exact unentered (Or.inr called)
      rcases resumes with call | ⟨_,known,made,fresh⟩
      · rw [silent] at call
        cases call
      · rw [entry] at made
        cases made
        exact fresh

def sampleMachine : Machine where
  registers := ⟨7,992,1,2,3,4,5,6⟩
  memory := fun _ => 0
  contexts := fun _ => 0
  rdi := 0
  rsi := 0

def sampleNew : State := (boot sampleMachine 0 1000).newTask 5 4096 77

/-- A task is made and switched to, and the kernel is switched back to. -/
theorem switch_restores_two :
    (sampleNew.switchTo 1).machine.registers = firstRegisters 5 77 (UInt64.ofNat (4096 + taskStackSize)) ∧
      ((sampleNew.switchTo 1).switchTo 0).machine.registers = ⟨7,992,1,2,3,4,5,6⟩ := by
  have size : taskStackSize = 16384 := by
    unfold taskStackSize
    rfl
  have made : Step 5 (boot sampleMachine 0 1000) (.new 4096 77) sampleNew := by
    apply Step.new
    · rw [size]
      decide
    · intro other member
      rw [List.mem_singleton.mp member]
      exact Or.inl (by decide)
  have entered : Step 5 sampleNew (.switch 0 1 ⟨7,992,1,2,3,4,5,6⟩) (sampleNew.switchTo 1) :=
    .switch sampleNew ⟨0,1000,none⟩ 1 (Nat.lt_succ_self 1) rfl (by decide) (by decide)
  have first := switch_restores (.cons made (.nil _)) entered
  have arrived := first.2.2 ⟨4096,taskStackSize,some 77⟩ 77 rfl rfl (by simp)
  have top : (sampleNew.switchTo 1).machine.registers.rsp.toNat = 20480 := by
    rw [arrived,TaskStack.stop,size]
    rfl
  have left : Step 5 (sampleNew.switchTo 1) (.switch 1 0 (sampleNew.switchTo 1).machine.registers)
      ((sampleNew.switchTo 1).switchTo 0) := by
    apply Step.switch (sampleNew.switchTo 1) ⟨4096,taskStackSize,some 77⟩ 0 (Nat.zero_lt_succ 1) rfl
    · rw [top]
      decide
    · rw [top,TaskStack.stop,size]
      decide
  have back := switch_restores (.cons made (.cons entered (.nil _))) left
  exact ⟨arrived,back.2.1 _ rfl⟩

end PolarOs.Context
