import PolarOs.Library.Memory
import PolarOs.Library.Transition
import Mathlib.Data.List.Pairwise

/-! Context switching (`kernel/task/context.rs`, `Task::new` in `kernel/task/scheduler.rs`):
the instructions of `switch_context` on registers, memory and the saved stack pointers,
and the frame that `Task::new` builds by hand. A context pointer is the number of the
task whose context it points to. -/
namespace PolarOs.Context
open Library

/-- `rip` is where the code continues: inside a callee, the return address. -/
structure Registers where
  rip : UInt64
  rsp : UInt64
  rbp : UInt64
  rbx : UInt64
  r12 : UInt64
  r13 : UInt64
  r14 : UInt64
  r15 : UInt64
deriving DecidableEq

inductive Register where
  | rbp | rbx | r12 | r13 | r14 | r15
deriving DecidableEq

namespace Registers

def get (registers : Registers) : Register → UInt64
  | .rbp => registers.rbp
  | .rbx => registers.rbx
  | .r12 => registers.r12
  | .r13 => registers.r13
  | .r14 => registers.r14
  | .r15 => registers.r15

def set (registers : Registers) (register : Register) (word : UInt64) : Registers :=
  match register with
  | .rbp => {registers with rbp := word}
  | .rbx => {registers with rbx := word}
  | .r12 => {registers with r12 := word}
  | .r13 => {registers with r13 := word}
  | .r14 => {registers with r14 := word}
  | .r15 => {registers with r15 := word}

end Registers

/-- `rdi` and `rsi` hold the context pointers of the call; `contexts` are the `rsp` fields. -/
structure Machine where
  registers : Registers
  memory : Memory
  contexts : Nat → UInt64
  rdi : Nat
  rsi : Nat

inductive Instruction where
  | push (register : Register)
  | saveRsp
  | loadRsp
  | pop (register : Register)
  | ret

/-- A word stored below a stack pointer, which moves down to it. -/
def pushWord (stack : Memory × UInt64) (word : UInt64) : Memory × UInt64 :=
  (stack.1.store (stack.2 - 8).toNat word,stack.2 - 8)

namespace Machine

def pushWord (machine : Machine) (word : UInt64) : Machine :=
  let pushed := Context.pushWord (machine.memory,machine.registers.rsp) word
  {machine with memory := pushed.1, registers := {machine.registers with rsp := pushed.2}}

def top (machine : Machine) : UInt64 := machine.memory.load machine.registers.rsp.toNat

def exec (machine : Machine) : Instruction → Machine
  | .push register => machine.pushWord (machine.registers.get register)
  -- mov [rdi], rsp
  | .saveRsp => {machine with contexts := Function.update machine.contexts machine.rdi machine.registers.rsp}
  -- mov rsp, [rsi]
  | .loadRsp => {machine with registers := {machine.registers with rsp := machine.contexts machine.rsi}}
  | .pop register =>
    let registers := machine.registers.set register machine.top
    {machine with registers := {registers with rsp := registers.rsp + 8}}
  | .ret => {machine with registers := {machine.registers with rip := machine.top, rsp := machine.registers.rsp + 8}}

/-- A call instruction pushes the return address, then the callee runs. -/
def call (machine : Machine) (instructions : List Instruction) (rdi rsi : Nat) : Machine :=
  instructions.foldl exec {machine.pushWord machine.registers.rip with rdi := rdi, rsi := rsi}

end Machine

def switchContext : List Instruction :=
  [.push .rbp,.push .rbx,.push .r12,.push .r13,.push .r14,.push .r15,
    .saveRsp,
    .loadRsp,
    .pop .r15,.pop .r14,.pop .r13,.pop .r12,.pop .rbx,.pop .rbp,
    .ret]

@[irreducible] def taskStackSize : Nat := 4096 * 4

/-- `Box::new([0u8; TASK_STACK_SIZE])` at `stack`. -/
def newStack (memory : Memory) (stack : UInt64) : Memory := fun place =>
  if stack.toNat ≤ place ∧ place < stack.toNat + taskStackSize then 0 else memory place

/-- The memory and the context of `Task::new` with its stack at `stack`. -/
def newTask (trampoline : UInt64) (memory : Memory) (stack entryFn : UInt64) : Memory × UInt64 :=
  let stackTop := stack + UInt64.ofNat taskStackSize
  let frame := pushWord (newStack memory stack,stackTop) trampoline
  -- rbp, rbx
  let frame := pushWord frame 0
  let frame := pushWord frame 0
  -- r12, which the trampoline reads
  let frame := pushWord frame entryFn
  -- r13, r14, r15
  let frame := pushWord frame 0
  let frame := pushWord frame 0
  pushWord frame 0

/-! Seven words on a stack. -/

def Registers.frame (registers : Registers) : List UInt64 :=
  [registers.rip,registers.rbp,registers.rbx,registers.r12,registers.r13,registers.r14,registers.r15]

theorem pushWord_foldl (memory : Memory) {rsp : UInt64} {pushed : List UInt64} (room : 8 * pushed.length ≤ rsp.toNat) :
    (pushed.foldl pushWord (memory,rsp)).1 = memory.pushes rsp.toNat pushed ∧
      (pushed.foldl pushWord (memory,rsp)).2.toNat = rsp.toNat - 8 * pushed.length := by
  induction pushed generalizing memory rsp with
  | nil => exact ⟨rfl,rfl⟩
  | cons word rest ih =>
    rw [List.length_cons] at room
    have enough : 8 ≤ rsp.toNat := by omega
    have lower : (rsp - 8).toNat = rsp.toNat - 8 := UInt64.toNat_sub_of_le _ _ (UInt64.le_iff_toNat_le.mpr enough)
    obtain ⟨stored,moved⟩ := ih _ (by omega : 8 * rest.length ≤ (rsp - 8).toNat)
    rw [List.foldl_cons,pushWord]
    refine ⟨?_,?_⟩
    · rw [stored,lower]
      rfl
    · rw [moved,lower,List.length_cons]
      omega

/-- The frame of `registers` lies at a saved stack pointer. -/
structure Saved (memory : Memory) (rsp : UInt64) (registers : Registers) : Prop where
  place : rsp.toNat + 56 = registers.rsp.toNat
  words : memory.words rsp.toNat 7 = registers.frame.reverse

theorem saved_frame {memory : Memory} {registers : Registers} (room : 56 ≤ registers.rsp.toNat) :
    Saved (registers.frame.foldl pushWord (memory,registers.rsp)).1
      (registers.frame.foldl pushWord (memory,registers.rsp)).2 registers := by
  have seven : 8 * registers.frame.length ≤ registers.rsp.toNat := room
  obtain ⟨stored,moved⟩ := pushWord_foldl memory seven
  constructor
  · rw [moved]
    exact Nat.sub_add_cancel room
  · rw [stored,moved]
    exact Memory.words_pushes seven

theorem agree_frame {memory : Memory} {registers : Registers} {start stop : Nat} (room : 56 ≤ registers.rsp.toNat)
    (apart : stop ≤ registers.rsp.toNat - 56 ∨ registers.rsp.toNat ≤ start) :
    Memory.Agree (registers.frame.foldl pushWord (memory,registers.rsp)).1 memory start stop := by
  have seven : 8 * registers.frame.length ≤ registers.rsp.toNat := room
  rw [(pushWord_foldl memory seven).1]
  exact Memory.agree_pushes seven apart

theorem Saved.congr {first second : Memory} {rsp : UInt64} {registers : Registers} (saved : Saved first rsp registers)
    (same : Memory.Agree second first rsp.toNat (rsp.toNat + 56)) : Saved second rsp registers where
  place := saved.place
  words := (Memory.words_congr same).trans saved.words

def restoring : List Instruction := [.pop .r15,.pop .r14,.pop .r13,.pop .r12,.pop .rbx,.pop .rbp,.ret]

theorem toNat_add_eight {rsp : UInt64} (below : rsp.toNat + 8 < 2^64) : (rsp + 8).toNat = rsp.toNat + 8 := by
  rw [UInt64.toNat_add]
  exact Nat.mod_eq_of_lt below

theorem restoring_frame {machine : Machine} {registers : Registers}
    (saved : Saved machine.memory machine.registers.rsp registers) :
    restoring.foldl Machine.exec machine = {machine with registers := registers} := by
  obtain ⟨place,words⟩ := saved
  have bound := registers.rsp.toNat_lt
  have one := toNat_add_eight (by omega : machine.registers.rsp.toNat + 8 < 2^64)
  have two := toNat_add_eight (by omega : (machine.registers.rsp + 8).toNat + 8 < 2^64)
  have three := toNat_add_eight (by omega : (machine.registers.rsp + 8 + 8).toNat + 8 < 2^64)
  have four := toNat_add_eight (by omega : (machine.registers.rsp + 8 + 8 + 8).toNat + 8 < 2^64)
  have five := toNat_add_eight (by omega : (machine.registers.rsp + 8 + 8 + 8 + 8).toNat + 8 < 2^64)
  have six := toNat_add_eight (by omega : (machine.registers.rsp + 8 + 8 + 8 + 8 + 8).toNat + 8 < 2^64)
  have seven := toNat_add_eight (by omega : (machine.registers.rsp + 8 + 8 + 8 + 8 + 8 + 8).toNat + 8 < 2^64)
  have rsp : machine.registers.rsp + 8 + 8 + 8 + 8 + 8 + 8 + 8 = registers.rsp := by
    apply UInt64.toNat_inj.mp
    omega
  simp only [Memory.words,Registers.frame,List.reverse_cons,List.reverse_nil,List.nil_append,List.cons_append,
    List.cons.injEq,and_true,← one,← two,← three,← four,← five,← six] at words
  obtain ⟨r15,r14,r13,r12,rbx,rbp,rip⟩ := words
  simp only [restoring,List.foldl_cons,List.foldl_nil,Machine.exec,Machine.top,Registers.set,r15,r14,r13,r12,rbx,rbp,
    rip,rsp]

/-- The call before its pops: the frame is pushed, the old context has its place, the
stack pointer is the new context's. -/
def Machine.switched (machine : Machine) (old new : Nat) : Machine :=
  let pushed := machine.registers.frame.foldl Context.pushWord (machine.memory,machine.registers.rsp)
  let contexts := Function.update machine.contexts old pushed.2
  {registers := {machine.registers with rsp := contexts new}, memory := pushed.1, contexts, rdi := old, rsi := new}

theorem saving_foldl (machine : Machine) (old new : Nat) :
    [Instruction.push .rbp,.push .rbx,.push .r12,.push .r13,.push .r14,.push .r15,.saveRsp,.loadRsp].foldl Machine.exec
      {machine.pushWord machine.registers.rip with rdi := old, rsi := new} = machine.switched old new := by
  simp only [List.foldl_cons,List.foldl_nil,Machine.exec,Machine.pushWord,Registers.get,Machine.switched,Registers.frame]

theorem call_switchContext (machine : Machine) (old new : Nat) :
    machine.call switchContext old new = restoring.foldl Machine.exec (machine.switched old new) := by
  rw [← saving_foldl,← List.foldl_append]
  rfl

/-- The registers of a task that `Task::new` made, when it is first switched to. -/
def firstRegisters (trampoline entryFn stackTop : UInt64) : Registers where
  rip := trampoline
  rsp := stackTop
  rbp := 0
  rbx := 0
  r12 := entryFn
  r13 := 0
  r14 := 0
  r15 := 0

/-- The hand-built frame is the frame of these registers. -/
theorem newTask_frame (trampoline : UInt64) (memory : Memory) (stack entryFn : UInt64) :
    newTask trampoline memory stack entryFn =
      (firstRegisters trampoline entryFn (stack + UInt64.ofNat taskStackSize)).frame.foldl pushWord
        (newStack memory stack,(firstRegisters trampoline entryFn (stack + UInt64.ofNat taskStackSize)).rsp) := by
  simp only [newTask,Registers.frame,firstRegisters,List.foldl_cons,List.foldl_nil]

theorem firstRegisters_rsp {stack : UInt64} (fits : stack.toNat + taskStackSize < 2^64) (trampoline entryFn : UInt64) :
    (firstRegisters trampoline entryFn (stack + UInt64.ofNat taskStackSize)).rsp.toNat = stack.toNat + taskStackSize := by
  have size : (UInt64.ofNat taskStackSize).toNat = taskStackSize := by
    unfold taskStackSize
    rfl
  rw [firstRegisters,UInt64.toNat_add,size]
  exact Nat.mod_eq_of_lt fits

theorem agree_newStack {memory : Memory} {stack : UInt64} {start stop : Nat}
    (apart : stop ≤ stack.toNat ∨ stack.toNat + taskStackSize ≤ start) :
    Memory.Agree (newStack memory stack) memory start stop := by
  intro place low high
  rw [newStack,if_neg (by omega)]

end PolarOs.Context
