import PolarOs.Kernel.Switching
import PolarOs.Kernel.TimerFrame

/-! Tasks under the timer. The running task executes its own code, or kernel code with interrupts
disabled (`without_interrupts`). A tick leads through `timer_interrupt_handler`, which may switch to
another task before it returns. -/
namespace PolarOs.Context
open Library

namespace Cpu

/-- The registers that `switch_context` is about. -/
def registers (cpu : Cpu) : Registers where
  rip := cpu.rip
  rsp := cpu.rsp
  rbp := cpu.gprs .rbp
  rbx := cpu.gprs .rbx
  r12 := cpu.gprs .r12
  r13 := cpu.gprs .r13
  r14 := cpu.gprs .r14
  r15 := cpu.gprs .r15

def withRegisters (cpu : Cpu) (registers : Registers) : Cpu :=
  {cpu with
    rip := registers.rip
    rsp := registers.rsp
    gprs := fun
      | .rbp => registers.rbp
      | .rbx => registers.rbx
      | .r12 => registers.r12
      | .r13 => registers.r13
      | .r14 => registers.r14
      | .r15 => registers.r15
      | gpr => cpu.gprs gpr }

end Cpu

/-- What a task executes: its own code, kernel code inside `without_interrupts`, which remembers
whether interrupts were enabled, or the handler of the timer with its frame. -/
inductive Mode where
  | own
  | critical (enabled : Bool)
  | handling (frame : UInt64) (outer : Mode)

/-- `switch_context` is called by `yield_now` and `exit_current_task` inside `without_interrupts`, and
by `scheduler_schedule` below the frame of the handler. -/
def Mode.Switches (mode : Mode) (rsp : UInt64) : Prop :=
  match mode with
  | .own => False
  | .critical _ => True
  | .handling frame _ => rsp.toNat ≤ frame.toNat

structure Preemptible where
  cpu : Cpu
  memory : Memory
  contexts : Nat → UInt64
  taskStacks : List TaskStack
  modes : Nat → Mode
  current : Nat

inductive TimedAct where
  | code
  | disable
  | restore
  | tick (task : Nat) (cpu : Cpu) (memory : Memory)
  | leave (task : Nat)
  | new (stack entryFn : UInt64)
  | switch (old next : Nat) (call : Registers)

namespace Preemptible

def enterMode (state : Preemptible) (mode : Mode) : Nat → Mode := Function.update state.modes state.current mode

@[simp] theorem enterMode_current (state : Preemptible) (mode : Mode) : state.enterMode mode state.current = mode :=
  Function.update_self ..

theorem enterMode_other {state : Preemptible} {task : Nat} (other : task ≠ state.current) (mode : Mode) :
    state.enterMode mode task = state.modes task := Function.update_of_ne other ..

def tick (gate : Gate) (state : Preemptible) : Preemptible :=
  let core := Core.enter gate ⟨state.cpu,state.memory⟩
  {state with
    cpu := core.cpu
    memory := core.memory
    modes := state.enterMode (.handling core.cpu.rsp (state.modes state.current))}

def leave (state : Preemptible) (outer : Mode) : Preemptible :=
  let core := Core.leave ⟨state.cpu,state.memory⟩
  {state with cpu := core.cpu, memory := core.memory, modes := state.enterMode outer}

/-- A task of `Task::new` begins in the trampoline, which enables interrupts. -/
def newTask (trampoline : UInt64) (state : Preemptible) (stack entryFn : UInt64) : Preemptible :=
  let made := Context.newTask trampoline state.memory stack entryFn
  {state with
    memory := made.1
    contexts := Function.update state.contexts state.taskStacks.length made.2
    taskStacks := state.taskStacks ++ [⟨stack.toNat,taskStackSize,some entryFn⟩]
    modes := Function.update state.modes state.taskStacks.length (.critical true)}

def machine (state : Preemptible) : Machine := ⟨state.cpu.registers,state.memory,state.contexts,0,0⟩

def switchTo (state : Preemptible) (next : Nat) : Preemptible :=
  let machine := state.machine.call switchContext state.current next
  {state with
    cpu := state.cpu.withRegisters machine.registers
    memory := machine.memory
    contexts := machine.contexts
    current := next}

end Preemptible

/-- Code of the running task stores only into its own stack, and in the handler only below the frame,
which is where the handler's stack pointer is when `scheduler_schedule` has returned. -/
inductive TimedStep (gate : Gate) (trampoline : UInt64) : Preemptible → TimedAct → Preemptible → Prop
  | code (state : Preemptible) (own : TaskStack) (cpu : Cpu) (memory : Memory)
      (running : state.taskStacks[state.current]? = some own)
      (flag : cpu.interruptible = state.cpu.interruptible)
      (stores : ∀ start stop, stop ≤ own.base ∨ own.stop ≤ start → Memory.Agree memory state.memory start stop)
      (below : ∀ frame outer, state.modes state.current = .handling frame outer →
        Memory.Agree memory state.memory frame.toNat own.stop) :
      TimedStep gate trampoline state .code {state with cpu, memory}
  | disable (state : Preemptible) (mode : state.modes state.current = .own) :
      TimedStep gate trampoline state .disable
        {state with cpu := state.cpu.disable, modes := state.enterMode (.critical state.cpu.interruptible)}
  | restore (state : Preemptible) (enabled : Bool) (mode : state.modes state.current = .critical enabled) :
      TimedStep gate trampoline state .restore
        {state with cpu := if enabled then state.cpu.enable else state.cpu, modes := state.enterMode .own}
  | tick (state : Preemptible) (own : TaskStack) (running : state.taskStacks[state.current]? = some own)
      (flag : state.cpu.interruptible) (room : own.base + 176 ≤ state.cpu.rsp.toNat)
      (within : state.cpu.rsp.toNat ≤ own.stop) :
      TimedStep gate trampoline state (.tick state.current state.cpu state.memory) (state.tick gate)
  | leave (state : Preemptible) (outer : Mode) (mode : state.modes state.current = .handling state.cpu.rsp outer) :
      TimedStep gate trampoline state (.leave state.current) (state.leave outer)
  | new (state : Preemptible) (stack entryFn : UInt64) (fits : stack.toNat + taskStackSize < 2^64)
      (fresh : ∀ other ∈ state.taskStacks, other.Apart ⟨stack.toNat,taskStackSize,some entryFn⟩) :
      TimedStep gate trampoline state (.new stack entryFn) (state.newTask trampoline stack entryFn)
  | switch (state : Preemptible) (own : TaskStack) (next : Nat) (known : next < state.taskStacks.length)
      (running : state.taskStacks[state.current]? = some own)
      (mode : (state.modes state.current).Switches state.cpu.rsp)
      (room : own.base + 56 ≤ state.cpu.rsp.toNat) (within : state.cpu.rsp.toNat ≤ own.stop) :
      TimedStep gate trampoline state (.switch state.current next state.cpu.registers) (state.switchTo next)

/-- The kernel thread when the interrupts have been enabled. -/
def timedBoot (cpu : Cpu) (memory : Memory) (contexts : Nat → UInt64) (base size : Nat) : Preemptible :=
  ⟨cpu,memory,contexts,[⟨base,size,none⟩],fun _ => .own,0⟩

def tickOf (task : Nat) : TimedAct → Option (Cpu × Memory)
  | .tick old cpu memory => if old = task then some (cpu,memory) else none
  | _ => none

/-- The processor and the memory at the last tick that hit the task. -/
def lastTick (task : Nat) (acts : List TimedAct) : Option (Cpu × Memory) := (acts.filterMap (tickOf task)).getLast?

/-! The flags. -/

namespace Cpu

variable (cpu : Cpu)

theorem interruptible_disable : cpu.disable.interruptible = false := by
  have cleared : ~~~interruptFlag &&& interruptFlag = 0 := by decide
  rw [interruptible,disable,UInt64.and_assoc,cleared,UInt64.and_zero]
  rfl

theorem interruptible_enable : cpu.enable.interruptible = true := by
  have set : (cpu.rflags ||| interruptFlag) &&& interruptFlag = interruptFlag := by
    apply UInt64.eq_of_toBitVec_eq
    ext i inside
    simp only [UInt64.toBitVec_and,UInt64.toBitVec_or,BitVec.getElem_and,BitVec.getElem_or]
    cases interruptFlag.toBitVec[i] <;> simp
  rw [interruptible,enable,set]
  rfl

end Cpu

theorem interruptible_enter (gate : Gate) (core : Core) : (core.enter gate).cpu.interruptible = false := by
  have cleared : ~~~Cpu.gateFlags &&& Cpu.interruptFlag = 0 := by decide
  rw [enter_frame,Cpu.interruptible]
  dsimp only
  rw [UInt64.and_assoc,cleared,UInt64.and_zero]
  rfl

theorem lastTick_snoc (task : Nat) (acts : List TimedAct) (act : TimedAct) :
    lastTick task (acts ++ [act]) = (tickOf task act).or (lastTick task acts) := by
  rw [lastTick,List.filterMap_append]
  cases hit : tickOf task act with
  | none =>
    rw [List.filterMap_cons_none hit,List.filterMap_nil,List.append_nil]
    rfl
  | some tick =>
    rw [List.filterMap_cons_some hit,List.filterMap_nil,List.getLast?_concat]
    rfl

/-! The invariant. -/

/-- The frame of the handler stands for the last tick of the task. -/
structure Handled (acts : List TimedAct) (state : Preemptible) (task : Nat) (stack : TaskStack) (frame : UInt64)
    (cpu : Cpu) (before : Memory) : Prop where
  last : lastTick task acts = some (cpu,before)
  flag : cpu.interruptible
  above : stack.base ≤ frame.toNat
  interrupted : Interrupted state.memory stack.stop frame cpu before

structure Guarded (acts : List TimedAct) (state : Preemptible) : Prop where
  running : state.current < state.taskStacks.length
  apart : state.taskStacks.Pairwise TaskStack.Apart
  flag : state.cpu.interruptible ↔ state.modes state.current = .own
  parked : ∀ task < state.taskStacks.length, task ≠ state.current → state.modes task ≠ .own
  enabled : ∀ task < state.taskStacks.length, ∀ enabled, state.modes task = .critical enabled → enabled = true
  handled : ∀ task stack frame outer, state.taskStacks[task]? = some stack → state.modes task = .handling frame outer →
    outer = .own ∧ ∃ cpu before, Handled acts state task stack frame cpu before

variable {gate : Gate} {trampoline : UInt64} {acts : List TimedAct} {state next : Preemptible} {task : Nat}
  {stack own : TaskStack} {frame : UInt64} {cpu : Cpu} {before : Memory}

theorem Handled.keeps {act : TimedAct} (handled : Handled acts state task stack frame cpu before)
    (silent : tickOf task act = none) (same : Memory.Agree next.memory state.memory frame.toNat stack.stop) :
    Handled (acts ++ [act]) next task stack frame cpu before where
  last := by
    rw [lastTick_snoc,silent]
    exact handled.last
  flag := handled.flag
  above := handled.above
  interrupted := handled.interrupted.congr same

theorem guarded_boot (enabled : cpu.interruptible) (memory : Memory) (contexts : Nat → UInt64) (base size : Nat) :
    Guarded [] (timedBoot cpu memory contexts base size) where
  running := Nat.one_pos
  apart := List.pairwise_singleton _ _
  flag := iff_of_true enabled rfl
  parked := by
    intro task below other
    exact absurd (Nat.lt_one_iff.mp below) other
  enabled := by
    intro task below enabled mode
    cases mode
  handled := by
    intro task stack frame outer found mode
    cases mode

/-- A step in which the running task stores into its own stack, below the frame it may have there. -/
theorem Guarded.handled_of_stores {act : TimedAct} (guarded : Guarded acts state)
    (running : state.taskStacks[state.current]? = some own)
    (stores : ∀ start stop, stop ≤ own.base ∨ own.stop ≤ start → Memory.Agree next.memory state.memory start stop)
    (below : ∀ frame outer, state.modes state.current = .handling frame outer →
      Memory.Agree next.memory state.memory frame.toNat own.stop)
    (silent : tickOf task act = none) (found : state.taskStacks[task]? = some stack) {outer : Mode}
    (mode : state.modes task = .handling frame outer) :
    outer = .own ∧ ∃ cpu before, Handled (acts ++ [act]) next task stack frame cpu before := by
  obtain ⟨direct,cpu,before,handled⟩ := guarded.handled task stack frame outer found mode
  refine ⟨direct,cpu,before,handled.keeps silent ?_⟩
  by_cases same : task = state.current
  · subst same
    obtain rfl := Option.some.inj (running.symm.trans found)
    exact below frame outer mode
  · have apart := apart_at guarded.apart found running same
    have above := handled.above
    intro byte low high
    exact stores stack.base stack.stop apart byte (Nat.le_trans above low) high

theorem Guarded.code (guarded : Guarded acts state) (cpu : Cpu) {memory : Memory}
    (running : state.taskStacks[state.current]? = some own) (flag : cpu.interruptible = state.cpu.interruptible)
    (stores : ∀ start stop, stop ≤ own.base ∨ own.stop ≤ start → Memory.Agree memory state.memory start stop)
    (below : ∀ frame outer, state.modes state.current = .handling frame outer →
      Memory.Agree memory state.memory frame.toNat own.stop) : Guarded (acts ++ [.code]) {state with cpu, memory} where
  running := guarded.running
  apart := guarded.apart
  flag := by
    rw [flag]
    exact guarded.flag
  parked := guarded.parked
  enabled := guarded.enabled
  handled := by
    intro task stack frame outer found mode
    exact guarded.handled_of_stores running stores below rfl found mode

/-- The mode of the running task changes, and no memory. -/
theorem Guarded.enterMode {act : TimedAct} (guarded : Guarded acts state) (cpu : Cpu) {mode : Mode}
    (flag : cpu.interruptible ↔ mode = .own) (kept : ∀ enabled, mode = .critical enabled → enabled = true)
    (plain : ∀ frame outer, mode ≠ .handling frame outer) (silent : ∀ task, tickOf task act = none) :
    Guarded (acts ++ [act]) {state with cpu, modes := state.enterMode mode} where
  running := guarded.running
  apart := guarded.apart
  flag := by
    dsimp only
    rw [Preemptible.enterMode_current]
    exact flag
  parked := by
    intro task below other
    dsimp only at other ⊢
    rw [Preemptible.enterMode_other other]
    exact guarded.parked task below other
  enabled := by
    intro task below enabled critical
    dsimp only at critical
    by_cases same : task = state.current
    · subst same
      rw [Preemptible.enterMode_current] at critical
      exact kept enabled critical
    · rw [Preemptible.enterMode_other same] at critical
      exact guarded.enabled task below enabled critical
  handled := by
    intro task stack frame outer found handling
    dsimp only at handling
    by_cases same : task = state.current
    · subst same
      rw [Preemptible.enterMode_current] at handling
      exact absurd handling (plain frame outer)
    · rw [Preemptible.enterMode_other same] at handling
      obtain ⟨direct,cpu,before,handled⟩ := guarded.handled task stack frame outer found handling
      exact ⟨direct,cpu,before,handled.keeps (silent task) fun _ _ _ => rfl⟩

/-- The handler has been entered with this processor and memory. -/
theorem Guarded.entered (guarded : Guarded acts state) (running : state.taskStacks[state.current]? = some own)
    (flag : state.cpu.interruptible) {core : Core} (disabled : core.cpu.interruptible = false)
    (interrupted : Interrupted core.memory own.stop core.cpu.rsp state.cpu state.memory)
    (above : own.base ≤ core.cpu.rsp.toNat)
    (stores : ∀ start stop, stop ≤ own.base ∨ own.stop ≤ start → Memory.Agree core.memory state.memory start stop) :
    Guarded (acts ++ [.tick state.current state.cpu state.memory]) {state with
      cpu := core.cpu
      memory := core.memory
      modes := state.enterMode (.handling core.cpu.rsp (state.modes state.current))} where
  running := guarded.running
  apart := guarded.apart
  flag := by
    dsimp only
    rw [disabled,Preemptible.enterMode_current]
    exact iff_of_false Bool.false_ne_true (by intro same; cases same)
  parked := by
    intro task below other
    dsimp only at other ⊢
    rw [Preemptible.enterMode_other other]
    exact guarded.parked task below other
  enabled := by
    intro task below enabled critical
    dsimp only at critical
    by_cases same : task = state.current
    · subst same
      rw [Preemptible.enterMode_current] at critical
      cases critical
    · rw [Preemptible.enterMode_other same] at critical
      exact guarded.enabled task below enabled critical
  handled := by
    intro task stack frame outer found handling
    dsimp only at handling
    by_cases same : task = state.current
    · subst same
      obtain rfl := Option.some.inj (running.symm.trans found)
      rw [Preemptible.enterMode_current] at handling
      cases handling
      refine ⟨guarded.flag.mp flag,state.cpu,state.memory,?_,flag,above,interrupted⟩
      rw [lastTick_snoc,tickOf,if_pos rfl,Option.some_or]
    · rw [Preemptible.enterMode_other same] at handling
      obtain ⟨direct,cpu,before,handled⟩ := guarded.handled task stack frame outer found handling
      have silent : tickOf task (.tick state.current state.cpu state.memory) = none := if_neg (Ne.symm same)
      refine ⟨direct,cpu,before,handled.keeps silent ?_⟩
      have apart := apart_at guarded.apart found running same
      have start := handled.above
      intro byte low high
      exact stores stack.base stack.stop apart byte (Nat.le_trans start low) high

theorem Guarded.tick (guarded : Guarded acts state) (running : state.taskStacks[state.current]? = some own)
    (flag : state.cpu.interruptible) (room : own.base + 176 ≤ state.cpu.rsp.toNat)
    (within : state.cpu.rsp.toNat ≤ own.stop) :
    Guarded (acts ++ [.tick state.current state.cpu state.memory]) (state.tick gate) := by
  obtain ⟨interrupted,above,stores⟩ := @enter_interrupted ⟨state.cpu,state.memory⟩ gate own.base own.stop room within
  exact guarded.entered running flag (interruptible_enter gate _) interrupted above stores

/-- `iretq` leaves the handler with the state of the last tick. -/
theorem Guarded.leave_eq (guarded : Guarded acts state) {outer : Mode}
    (running : state.taskStacks[state.current]? = some own)
    (mode : state.modes state.current = .handling state.cpu.rsp outer) :
    ∃ cpu before, Handled acts state state.current own state.cpu.rsp cpu before ∧
      state.leave outer = {state with cpu, modes := state.enterMode .own} := by
  obtain ⟨direct,cpu,before,handled⟩ := guarded.handled _ _ _ _ running mode
  have place := handled.interrupted.place
  have bound := cpu.rsp.toNat_lt
  have left := @leave_frame ⟨state.cpu,state.memory⟩ cpu (by dsimp only; omega) handled.interrupted.words
  refine ⟨cpu,before,handled,?_⟩
  rw [Preemptible.leave,left,direct]

theorem Guarded.new (guarded : Guarded acts state) {stack : UInt64} (entryFn : UInt64)
    (fits : stack.toNat + taskStackSize < 2^64)
    (fresh : ∀ other ∈ state.taskStacks, other.Apart ⟨stack.toNat,taskStackSize,some entryFn⟩) :
    Guarded (acts ++ [.new stack entryFn]) (state.newTask trampoline stack entryFn) where
  running := by
    have running := guarded.running
    rw [Preemptible.newTask,List.length_append]
    exact Nat.lt_add_right _ running
  apart := by
    apply List.pairwise_append.mpr
    refine ⟨guarded.apart,List.pairwise_singleton _ _,?_⟩
    intro other member made same
    exact List.mem_singleton.mp same ▸ fresh other member
  flag := by
    dsimp only [Preemptible.newTask]
    rw [Function.update_of_ne (Nat.ne_of_lt guarded.running)]
    exact guarded.flag
  parked := by
    intro task below other
    dsimp only [Preemptible.newTask] at other ⊢
    by_cases made : task = state.taskStacks.length
    · subst made
      rw [Function.update_self]
      intro same
      cases same
    · rw [Preemptible.newTask,List.length_append,List.length_singleton] at below
      rw [Function.update_of_ne made]
      exact guarded.parked task (by omega) other
  enabled := by
    intro task below enabled critical
    dsimp only [Preemptible.newTask] at critical
    by_cases made : task = state.taskStacks.length
    · subst made
      rw [Function.update_self] at critical
      cases critical
      rfl
    · rw [Preemptible.newTask,List.length_append,List.length_singleton] at below
      rw [Function.update_of_ne made] at critical
      exact guarded.enabled task (by omega) enabled critical
  handled := by
    intro task known frame outer found handling
    dsimp only [Preemptible.newTask] at found handling
    by_cases made : task = state.taskStacks.length
    · subst made
      rw [Function.update_self] at handling
      cases handling
    · rw [Function.update_of_ne made] at handling
      have old : task < state.taskStacks.length := by
        obtain ⟨bound,_⟩ := List.getElem?_eq_some_iff.mp found
        rw [List.length_append,List.length_singleton] at bound
        omega
      rw [List.getElem?_append_left old] at found
      obtain ⟨direct,cpu,before,handled⟩ := guarded.handled task known frame outer found handling
      have apart := fresh known (List.mem_of_getElem? found)
      have start := handled.above
      refine ⟨direct,cpu,before,handled.keeps rfl ?_⟩
      intro byte low high
      exact agree_newTask entryFn fits apart byte (Nat.le_trans start low) high

theorem restoring_memory (machine : Machine) : (restoring.foldl Machine.exec machine).memory = machine.memory := by
  simp only [restoring,List.foldl_cons,List.foldl_nil,Machine.exec]

theorem switchTo_memory (state : Preemptible) (next : Nat) :
    (state.switchTo next).memory =
      (state.cpu.registers.frame.foldl pushWord (state.memory,state.cpu.registers.rsp)).1 := by
  rw [Preemptible.switchTo]
  dsimp only
  rw [call_switchContext,restoring_memory]
  rfl

theorem Guarded.switch (guarded : Guarded acts state) {target : Nat} (call : Registers)
    (known : target < state.taskStacks.length) (running : state.taskStacks[state.current]? = some own)
    (mode : (state.modes state.current).Switches state.cpu.rsp) (room : own.base + 56 ≤ state.cpu.rsp.toNat)
    (within : state.cpu.rsp.toNat ≤ own.stop) :
    Guarded (acts ++ [.switch state.current target call]) (state.switchTo target) := by
  have busy : state.modes state.current ≠ .own := by
    intro same
    rw [same] at mode
    exact mode
  have parked : ∀ task < state.taskStacks.length, state.modes task ≠ .own := by
    intro task below
    by_cases same : task = state.current
    · rw [same]
      exact busy
    · exact guarded.parked task below same
  have pushed : ∀ start stop, stop ≤ state.cpu.rsp.toNat - 56 ∨ state.cpu.rsp.toNat ≤ start →
      Memory.Agree (state.switchTo target).memory state.memory start stop := by
    intro start stop apart
    rw [switchTo_memory]
    exact agree_frame (Nat.le_of_add_left_le room) apart
  refine ⟨known,guarded.apart,?_,fun task below _ => parked task below,guarded.enabled,?_⟩
  · exact iff_of_false (mt guarded.flag.mp busy) (parked target known)
  · intro task stack frame outer found handling
    refine guarded.handled_of_stores running ?_ ?_ rfl found handling
    · intro start stop apart
      exact pushed start stop (by omega)
    · intro frame outer handling
      rw [handling] at mode
      exact pushed frame.toNat own.stop (Or.inr mode)

theorem TimedStep.guarded {act : TimedAct} (step : TimedStep gate trampoline state act next)
    (guarded : Guarded acts state) : Guarded (acts ++ [act]) next := by
  cases step with
  | code own cpu memory running flag stores below => exact guarded.code cpu running flag stores below
  | disable mode =>
    refine guarded.enterMode state.cpu.disable ?_ ?_ (by intro frame outer same; cases same) fun _ => rfl
    · rw [Cpu.interruptible_disable]
      exact iff_of_false Bool.false_ne_true (by intro same; cases same)
    · intro enabled same
      cases same
      exact guarded.flag.mpr mode
  | restore enabled mode =>
    have set := guarded.enabled _ guarded.running enabled mode
    refine guarded.enterMode _ ?_ (by intro enabled same; cases same) (by intro frame outer same; cases same) fun _ => rfl
    rw [if_pos set,Cpu.interruptible_enable]
    exact iff_of_true rfl rfl
  | tick own running flag room within => exact guarded.tick running flag room within
  | leave outer mode =>
    obtain ⟨cpu,before,handled,left⟩ := guarded.leave_eq (List.getElem?_eq_getElem guarded.running) mode
    rw [left]
    refine guarded.enterMode cpu ?_ (by intro enabled same; cases same) (by intro frame outer same; cases same) fun _ => rfl
    exact iff_of_true handled.flag rfl
  | new stack entryFn fits fresh => exact guarded.new entryFn fits fresh
  | switch own target known running mode room within => exact guarded.switch _ known running mode room within

theorem guarded_run {first last : Preemptible} {earlier later : List TimedAct}
    (run : Run (TimedStep gate trampoline) first later last) (guarded : Guarded earlier first) :
    Guarded (earlier ++ later) last := by
  induction run generalizing earlier with
  | nil => rwa [List.append_nil]
  | cons start rest ih =>
    rw [List.append_cons]
    exact ih (start.guarded guarded)

/-- However ticks and switches follow each other, a task that leaves the handler has all registers and
flags of the moment the tick hit it, and its stack from there up is untouched. -/
theorem preemption_is_transparent (gate : Gate) (trampoline : UInt64) {cpu : Cpu} {memory : Memory}
    {contexts : Nat → UInt64} {base size : Nat} (enabled : cpu.interruptible)
    (run : Run (TimedStep gate trampoline) (timedBoot cpu memory contexts base size) acts state)
    (left : TimedStep gate trampoline state (.leave state.current) next) :
    ∃ cpu before stack, lastTick state.current acts = some (cpu,before) ∧ next.cpu = cpu ∧
      state.taskStacks[state.current]? = some stack ∧
      Memory.Agree next.memory before cpu.rsp.toNat stack.stop := by
  have guarded := guarded_run run (guarded_boot enabled memory contexts base size)
  rw [List.nil_append] at guarded
  cases left with
  | leave outer mode =>
    have running := List.getElem?_eq_getElem guarded.running
    obtain ⟨cpu,before,handled,after⟩ := guarded.leave_eq running mode
    rw [after]
    exact ⟨cpu,before,_,handled.last,rfl,running,handled.interrupted.above⟩

def sampleCpu : Cpu := ⟨fun _ => 3,7,992,0x202,8,16⟩

def sampleGate : Gate := ⟨4096,8⟩

def sampleBoot : Preemptible := timedBoot sampleCpu (fun _ => 0) (fun _ => 0) 0 1000

theorem sample_tick : TimedStep sampleGate 5 sampleBoot (.tick 0 sampleCpu fun _ => 0) (sampleBoot.tick sampleGate) :=
  .tick sampleBoot ⟨0,1000,none⟩ rfl (by decide) (by decide) (by decide)

/-- The same tick when a second task has been made. -/
def sampleTicked : Preemptible := (sampleBoot.newTask 5 4096 77).tick sampleGate

theorem sample_new : TimedStep sampleGate 5 sampleBoot (.new 4096 77) (sampleBoot.newTask 5 4096 77) := by
  have size : taskStackSize = 16384 := by
    unfold taskStackSize
    rfl
  apply TimedStep.new
  · rw [size]
    decide
  · intro other member
    rw [List.mem_singleton.mp member]
    exact Or.inl (by decide)

theorem sample_ticked : TimedStep sampleGate 5 (sampleBoot.newTask 5 4096 77)
    (.tick 0 sampleCpu (sampleBoot.newTask 5 4096 77).memory) sampleTicked :=
  .tick _ ⟨0,1000,none⟩ rfl (by decide) (by decide) (by decide)

theorem sample_frame : sampleTicked.cpu.rsp = 832 := by decide +kernel

theorem sample_switched :
    TimedStep sampleGate 5 sampleTicked (.switch 0 1 sampleTicked.cpu.registers) (sampleTicked.switchTo 1) := by
  refine .switch sampleTicked ⟨0,1000,none⟩ 1 (Nat.lt_succ_self 1) rfl (Nat.le_refl _) ?_ ?_
  · rw [sample_frame]
    decide
  · rw [sample_frame]
    decide

/-- The tick switches to the second task, which yields before the handler returns. -/
theorem preemption_is_transparent_once :
    (((sampleTicked.switchTo 1).switchTo 0).leave .own).cpu = sampleCpu := by
  have size : taskStackSize = 16384 := by
    unfold taskStackSize
    rfl
  have top : (sampleTicked.switchTo 1).cpu.rsp = 20480 := by decide +kernel
  have frame : ((sampleTicked.switchTo 1).switchTo 0).cpu.rsp = sampleTicked.cpu.rsp := by decide +kernel
  have back : TimedStep sampleGate 5 (sampleTicked.switchTo 1) (.switch 1 0 (sampleTicked.switchTo 1).cpu.registers)
      ((sampleTicked.switchTo 1).switchTo 0) := by
    refine .switch (sampleTicked.switchTo 1) ⟨4096,taskStackSize,some 77⟩ 0 (Nat.zero_lt_succ 1) rfl trivial ?_ ?_
    · rw [top]
      decide
    · rw [top,TaskStack.stop,size]
      decide
  have left : TimedStep sampleGate 5 ((sampleTicked.switchTo 1).switchTo 0) (.leave 0)
      (((sampleTicked.switchTo 1).switchTo 0).leave .own) :=
    .leave _ .own (congrArg (Mode.handling · .own) frame.symm)
  obtain ⟨cpu,before,stack,last,same,_⟩ := preemption_is_transparent sampleGate 5 (by decide)
    (.cons sample_new (.cons sample_ticked (.cons sample_switched (.cons back (.nil _))))) left
  cases last
  exact same

/-- Interrupts are enabled exactly while the running task executes its own code, so no tick hits the
handler, a switch or a critical section, and every critical section enables them again. -/
theorem interrupts_follow_modes (gate : Gate) (trampoline : UInt64) {cpu : Cpu} {memory : Memory}
    {contexts : Nat → UInt64} {base size : Nat} (enabled : cpu.interruptible)
    (run : Run (TimedStep gate trampoline) (timedBoot cpu memory contexts base size) acts state) :
    (state.cpu.interruptible ↔ state.modes state.current = .own) ∧
      (∀ task < state.taskStacks.length, task ≠ state.current → state.modes task = .critical true ∨
        ∃ frame, state.modes task = .handling frame .own) ∧
      ∀ enabled, state.modes state.current = .critical enabled → enabled = true := by
  have guarded := guarded_run run (guarded_boot enabled memory contexts base size)
  rw [List.nil_append] at guarded
  refine ⟨guarded.flag,?_,guarded.enabled _ guarded.running⟩
  intro task below other
  cases mode : state.modes task with
  | own => exact absurd mode (guarded.parked task below other)
  | critical enabled => exact Or.inl (by rw [guarded.enabled task below enabled mode])
  | handling frame outer =>
    obtain ⟨direct,_⟩ := guarded.handled task _ frame outer (List.getElem?_eq_getElem below) mode
    exact Or.inr ⟨frame,by rw [direct]⟩

theorem interrupts_follow_modes_tick : ¬(sampleBoot.tick sampleGate).cpu.interruptible := by
  have flags := interrupts_follow_modes sampleGate 5 (by decide) (.cons sample_tick (.nil _))
  exact mt flags.1.mp (by intro same; cases same)

/-! Without its flags and modes the machine is the one of the calls of `switch_context`. -/

/-- A tick and the way out of the handler are code of the running task. -/
def TimedAct.plain : TimedAct → Act
  | .new stack entryFn => .new stack entryFn
  | .switch old next call => .switch old next call
  | .code | .disable | .restore | .tick .. | .leave _ => .code

structure Projects (state : Preemptible) (plain : State) : Prop where
  registers : plain.machine.registers = state.cpu.registers
  memory : plain.machine.memory = state.memory
  contexts : plain.machine.contexts = state.contexts
  taskStacks : plain.taskStacks = state.taskStacks
  current : plain.current = state.current

variable {plain : State}

theorem Projects.call (same : Projects state plain) (old next : Nat) :
    plain.machine.call switchContext old next = state.machine.call switchContext old next := by
  obtain ⟨⟨registers,memory,contexts,rdi,rsi⟩,taskStacks,current⟩ := plain
  obtain ⟨one,two,three,_,_⟩ := same
  dsimp only at one two three
  subst one two three
  rw [Machine.call,Machine.call]
  rfl

/-- Whatever the running task does on its own stack is a step of code. -/
theorem Projects.code (same : Projects state plain) (running : state.taskStacks[state.current]? = some own)
    (contexts : next.contexts = state.contexts) (taskStacks : next.taskStacks = state.taskStacks)
    (current : next.current = state.current)
    (stores : ∀ start stop, stop ≤ own.base ∨ own.stop ≤ start → Memory.Agree next.memory state.memory start stop) :
    ∃ after, Step trampoline plain .code after ∧ Projects next after := by
  refine ⟨_,.code plain own next.cpu.registers next.memory ?_ ?_,?_⟩
  · rw [same.taskStacks,same.current]
    exact running
  · rw [same.memory]
    exact stores
  · exact ⟨rfl,rfl,same.contexts.trans contexts.symm,same.taskStacks.trans taskStacks.symm,
      same.current.trans current.symm⟩

theorem TimedStep.simulates {act : TimedAct} (step : TimedStep gate trampoline state act next)
    (guarded : Guarded acts state) (same : Projects state plain) :
    ∃ after, Step trampoline plain act.plain after ∧ Projects next after := by
  have running := List.getElem?_eq_getElem guarded.running
  cases step with
  | code own cpu memory running flag stores below => exact same.code running rfl rfl rfl stores
  | disable mode => exact same.code running rfl rfl rfl fun _ _ _ _ _ _ => rfl
  | restore enabled mode => exact same.code running rfl rfl rfl fun _ _ _ _ _ _ => rfl
  | tick own running flag room within =>
    obtain ⟨_,_,stores⟩ := @enter_interrupted ⟨state.cpu,state.memory⟩ gate own.base own.stop room within
    exact same.code running rfl rfl rfl stores
  | leave outer mode =>
    obtain ⟨cpu,before,handled,left⟩ := guarded.leave_eq running mode
    rw [left]
    exact same.code running rfl rfl rfl fun _ _ _ _ _ _ => rfl
  | new stack entryFn fits fresh =>
    refine ⟨_,.new plain stack entryFn fits ?_,?_⟩
    · rw [same.taskStacks]
      exact fresh
    · refine ⟨same.registers,?_,?_,?_,same.current⟩
      · exact congrArg (fun memory => (Context.newTask trampoline memory stack entryFn).1) same.memory
      · dsimp only [State.newTask,Preemptible.newTask]
        rw [same.contexts,same.taskStacks,same.memory]
      · dsimp only [State.newTask,Preemptible.newTask]
        rw [same.taskStacks]
  | switch own target known running mode room within =>
    have rsp : plain.machine.registers.rsp = state.cpu.rsp := congrArg Registers.rsp same.registers
    have made := @Step.switch trampoline plain own target (by rw [same.taskStacks]; exact known)
      (by rw [same.taskStacks,same.current]; exact running) (by rw [rsp]; exact room) (by rw [rsp]; exact within)
    rw [same.registers,same.current] at made
    refine ⟨_,made,?_⟩
    have called := same.call plain.current target
    rw [same.current] at called
    rw [State.switchTo,same.current,called,Preemptible.switchTo]
    generalize state.machine.call switchContext state.current target = machine
    exact ⟨rfl,rfl,rfl,same.taskStacks,rfl⟩

theorem simulates_run {first last : Preemptible} {earlier later : List TimedAct} {plain : State}
    (run : Run (TimedStep gate trampoline) first later last) (guarded : Guarded earlier first)
    (same : Projects first plain) :
    ∃ after, Run (Step trampoline) plain (later.map TimedAct.plain) after ∧ Projects last after := by
  induction run generalizing earlier plain with
  | nil => exact ⟨plain,.nil plain,same⟩
  | cons start rest ih =>
    obtain ⟨middle,first,projects⟩ := start.simulates guarded same
    obtain ⟨after,later,final⟩ := ih (start.guarded guarded) projects
    exact ⟨after,.cons first later,final⟩

/-- Ticks do not disturb the calls of `switch_context`, nor do calls made inside the handler: each
returns with the registers it was called with, and a new task arrives at the trampoline. -/
theorem preempted_switch_returns (gate : Gate) (trampoline : UInt64) {cpu : Cpu} {memory : Memory}
    {contexts : Nat → UInt64} {base size target : Nat} {call : Registers} (enabled : cpu.interruptible)
    (run : Run (TimedStep gate trampoline) (timedBoot cpu memory contexts base size) acts state)
    (switched : TimedStep gate trampoline state (.switch state.current target call) next) :
    next.current = target ∧ ∃ stack, state.taskStacks[target]? = some stack ∧
      Resumes trampoline ((acts ++ [TimedAct.switch state.current target call]).map TimedAct.plain) target stack
        next.cpu.registers := by
  have booted : Guarded [] (timedBoot cpu memory contexts base size) := guarded_boot enabled memory contexts base size
  have start : Projects (timedBoot cpu memory contexts base size)
    (boot ⟨cpu.registers,memory,contexts,0,0⟩ base size) := ⟨rfl,rfl,rfl,rfl,rfl⟩
  obtain ⟨plain,calls,same⟩ := simulates_run run booted start
  have consistent := consistent_run calls (consistent_boot ⟨cpu.registers,memory,contexts,0,0⟩ base size)
  have guarded := guarded_run run booted
  rw [List.nil_append] at consistent guarded
  obtain ⟨after,step,final⟩ := switched.simulates guarded same
  change Step trampoline plain (.switch state.current target call) after at step
  rw [← same.current] at step
  cases step with
  | switch own target known running room within =>
    obtain ⟨stack,registers,found,resumes,arrived⟩ := switchTo_resumes consistent known running room within
    rw [arrived] at final
    refine ⟨final.current.symm,stack,same.taskStacks ▸ found,?_⟩
    rw [List.map_append,← final.registers,← same.current]
    exact resumes

/-- The first tick after a task was made switches to it. -/
theorem preempted_switch_returns_new : (sampleTicked.switchTo 1).cpu.registers =
    firstRegisters 5 77 (UInt64.ofNat (4096 + taskStackSize)) := by
  obtain ⟨_,stack,found,resumes⟩ := preempted_switch_returns sampleGate 5 (by decide)
    (.cons sample_new (.cons sample_ticked (.nil _))) sample_switched
  cases found
  rcases resumes with called | ⟨_,entryFn,entry,first⟩
  · cases called
  · cases entry
    exact first

end PolarOs.Context
