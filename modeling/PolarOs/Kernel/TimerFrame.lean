import PolarOs.Kernel.Context

/-! The entry and the exit of `timer_interrupt_handler` (`kernel/timer.rs`): what the processor and the
pushes leave on the stack of the interrupted task, and that the pops and `iretq` put all of it back. -/
namespace PolarOs.Context
open Library

inductive Gpr where
  | rax | rbx | rcx | rdx | rsi | rdi | rbp | r8 | r9 | r10 | r11 | r12 | r13 | r14 | r15
deriving DecidableEq

structure Cpu where
  gprs : Gpr → UInt64
  rip : UInt64
  rsp : UInt64
  rflags : UInt64
  cs : UInt64
  ss : UInt64

/-- The entry of the timer in the interrupt table. -/
structure Gate where
  handler : UInt64
  selector : UInt64

namespace Cpu

/-- IF, the interrupt flag. -/
def interruptFlag : UInt64 := 0x200

/-- What an interrupt gate clears: TF, IF, NT, RF and VM. -/
def gateFlags : UInt64 := 0x34300

def interruptible (cpu : Cpu) : Bool := cpu.rflags &&& interruptFlag ≠ 0

def disable (cpu : Cpu) : Cpu := {cpu with rflags := cpu.rflags &&& ~~~interruptFlag}

def enable (cpu : Cpu) : Cpu := {cpu with rflags := cpu.rflags ||| interruptFlag}

/-- What the processor pushes. -/
def interruptFrame (cpu : Cpu) : List UInt64 := [cpu.ss,cpu.rsp,cpu.rflags,cpu.cs,cpu.rip]

def savedGprs : List Gpr :=
  [.rax,.rbx,.rcx,.rdx,.rsi,.rdi,.rbp,.r8,.r9,.r10,.r11,.r12,.r13,.r14,.r15]

/-- Everything that the handler finds on the stack after its pushes. -/
def frame (cpu : Cpu) : List UInt64 := cpu.interruptFrame ++ savedGprs.map cpu.gprs

/-- The processor aligns the stack before it pushes. -/
def alignedRsp (cpu : Cpu) : UInt64 := cpu.rsp - cpu.rsp % 16

end Cpu

structure Core where
  cpu : Cpu
  memory : Memory

namespace Core

def interrupt (gate : Gate) (core : Core) : Core :=
  let pushed := core.cpu.interruptFrame.foldl pushWord (core.memory,core.cpu.alignedRsp)
  ⟨{core.cpu with
    rip := gate.handler, cs := gate.selector, rsp := pushed.2, rflags := core.cpu.rflags &&& ~~~Cpu.gateFlags},pushed.1⟩

def push (core : Core) (gpr : Gpr) : Core :=
  let pushed := pushWord (core.memory,core.cpu.rsp) (core.cpu.gprs gpr)
  ⟨{core.cpu with rsp := pushed.2},pushed.1⟩

def pop (core : Core) (gpr : Gpr) : Core :=
  let word := core.memory.load core.cpu.rsp.toNat
  {core with cpu := {core.cpu with gprs := Function.update core.cpu.gprs gpr word, rsp := core.cpu.rsp + 8}}

def iretq (core : Core) : Core :=
  let rsp := core.cpu.rsp
  {core with cpu := {core.cpu with
    rip := core.memory.load rsp.toNat
    cs := core.memory.load (rsp + 8).toNat
    rflags := core.memory.load (rsp + 16).toNat
    rsp := core.memory.load (rsp + 24).toNat
    ss := core.memory.load (rsp + 32).toNat}}

/-- From the interrupt to the call of `rust_timer_handler`. -/
@[irreducible] def enter (gate : Gate) (core : Core) : Core := Cpu.savedGprs.foldl push (core.interrupt gate)

/-- From the return of `scheduler_schedule` on. -/
@[irreducible] def leave (core : Core) : Core := iretq (Cpu.savedGprs.reverse.foldl pop core)

end Core

variable {core : Core} {cpu : Cpu} {gate : Gate}

theorem pushes_foldl (core : Core) (gprs : List Gpr) :
    gprs.foldl Core.push core =
      let pushed := (gprs.map core.cpu.gprs).foldl pushWord (core.memory,core.cpu.rsp)
      ⟨{core.cpu with rsp := pushed.2},pushed.1⟩ := by
  induction gprs generalizing core with
  | nil => rfl
  | cons gpr gprs ih =>
    rw [List.foldl_cons,ih]
    rfl

theorem enter_frame (gate : Gate) (core : Core) :
    core.enter gate =
      let pushed := core.cpu.frame.foldl pushWord (core.memory,core.cpu.alignedRsp)
      ⟨{core.cpu with
        rip := gate.handler, cs := gate.selector, rsp := pushed.2, rflags := core.cpu.rflags &&& ~~~Cpu.gateFlags},
        pushed.1⟩ := by
  rw [Core.enter,pushes_foldl,Cpu.frame,List.foldl_append]
  rfl

theorem toNat_add_small {rsp : UInt64} {n : Nat} (below : rsp.toNat + n < 2^64) :
    (rsp + UInt64.ofNat n).toNat = rsp.toNat + n := by
  have small : (UInt64.ofNat n).toNat = n := UInt64.toNat_ofNat_of_lt' (Nat.lt_of_le_of_lt (Nat.le_add_left n _) below)
  rw [UInt64.toNat_add,small]
  exact Nat.mod_eq_of_lt below

/-- Pops of words that lie one above the other. -/
theorem pops_foldl {gprs : List Gpr} {values : Gpr → UInt64} (below : core.cpu.rsp.toNat + 8 * gprs.length < 2^64)
    (words : core.memory.words core.cpu.rsp.toNat gprs.length = gprs.map values) :
    gprs.foldl Core.pop core = {core with cpu := {core.cpu with
      gprs := fun gpr => if gpr ∈ gprs then values gpr else core.cpu.gprs gpr
      rsp := core.cpu.rsp + UInt64.ofNat (8 * gprs.length)}} := by
  induction gprs generalizing core with
  | nil => simp
  | cons gpr gprs ih =>
    rw [List.length_cons] at below words
    have above := toNat_add_eight (by omega : core.cpu.rsp.toNat + 8 < 2^64)
    obtain ⟨top,rest⟩ := List.cons.inj words
    rw [← above] at rest
    have popped : (core.pop gpr).cpu.rsp.toNat = core.cpu.rsp.toNat + 8 := above
    rw [List.foldl_cons,ih (by omega) rest,Core.pop,top]
    have length : core.cpu.rsp + 8 + UInt64.ofNat (8 * gprs.length) =
        core.cpu.rsp + UInt64.ofNat (8 * (gpr :: gprs).length) := by
      rw [List.length_cons,Nat.mul_succ,Nat.add_comm,UInt64.ofNat_add,UInt64.add_assoc]
      rfl
    have taken : (fun other => if other ∈ gprs then values other else Function.update core.cpu.gprs gpr (values gpr) other) =
        fun other => if other ∈ gpr :: gprs then values other else core.cpu.gprs other := by
      ext other
      by_cases same : other = gpr
      · simp [same]
      · simp [same]
    dsimp only
    rw [taken,length]

theorem mem_savedGprs (gpr : Gpr) : gpr ∈ Cpu.savedGprs := by cases gpr <;> decide

/-- The words of the frame bring the whole state of the processor back. -/
theorem leave_frame (below : core.cpu.rsp.toNat + 160 < 2^64)
    (words : core.memory.words core.cpu.rsp.toNat 20 = cpu.frame.reverse) : core.leave = ⟨cpu,core.memory⟩ := by
  have parts : cpu.frame.reverse =
      Cpu.savedGprs.reverse.map cpu.gprs ++ [cpu.rip,cpu.cs,cpu.rflags,cpu.rsp,cpu.ss] := rfl
  rw [parts,Memory.words_add core.memory core.cpu.rsp.toNat 15 5] at words
  obtain ⟨gprs,rest⟩ := List.append_inj' words (Memory.length_words ..)
  have popped := @pops_foldl core Cpu.savedGprs.reverse cpu.gprs
    (by change core.cpu.rsp.toNat + 120 < 2^64; omega) gprs
  have all : (fun gpr => if gpr ∈ Cpu.savedGprs.reverse then cpu.gprs gpr else core.cpu.gprs gpr) = cpu.gprs := by
    ext gpr
    rw [if_pos (List.mem_reverse.mpr (mem_savedGprs gpr))]
  have top : (core.cpu.rsp + UInt64.ofNat 120).toNat = core.cpu.rsp.toNat + 8 * 15 := toNat_add_small (by omega)
  have above {n : Nat} (small : n ≤ 40) :
      (core.cpu.rsp + UInt64.ofNat 120 + UInt64.ofNat n).toNat = core.cpu.rsp.toNat + 8 * 15 + n := by
    rw [toNat_add_small (by omega),top]
  simp only [Memory.words,List.cons.injEq,and_true,Nat.add_assoc] at rest
  obtain ⟨rip,cs,rflags,rsp,ss⟩ := rest
  rw [Core.leave,popped,all,Core.iretq]
  dsimp only
  rw [show 8 * Cpu.savedGprs.reverse.length = 120 from rfl]
  have second : (core.cpu.rsp + UInt64.ofNat 120 + 8).toNat = core.cpu.rsp.toNat + 8 * 15 + 8 := @above 8 (by decide)
  have third : (core.cpu.rsp + UInt64.ofNat 120 + 16).toNat = core.cpu.rsp.toNat + 8 * 15 + 16 := @above 16 (by decide)
  have fourth : (core.cpu.rsp + UInt64.ofNat 120 + 24).toNat = core.cpu.rsp.toNat + 8 * 15 + 24 := @above 24 (by decide)
  have fifth : (core.cpu.rsp + UInt64.ofNat 120 + 32).toNat = core.cpu.rsp.toNat + 8 * 15 + 32 := @above 32 (by decide)
  rw [top,second,third,fourth,fifth,rip,cs,rflags,rsp,ss]

theorem alignedRsp_toNat (cpu : Cpu) : cpu.alignedRsp.toNat = cpu.rsp.toNat - cpu.rsp.toNat % 16 := by
  have part : (cpu.rsp % 16).toNat = cpu.rsp.toNat % 16 := UInt64.toNat_mod ..
  have small : cpu.rsp % 16 ≤ cpu.rsp := by
    rw [UInt64.le_iff_toNat_le,part]
    exact Nat.mod_le _ _
  rw [Cpu.alignedRsp,UInt64.toNat_sub_of_le _ _ small,part]

/-- The frame of an interrupt lies at `frame`, and the stack above is what it was. -/
structure Interrupted (memory : Memory) (stop : Nat) (frame : UInt64) (cpu : Cpu) (before : Memory) : Prop where
  place : frame.toNat + 160 ≤ cpu.rsp.toNat
  within : cpu.rsp.toNat ≤ stop
  words : memory.words frame.toNat 20 = cpu.frame.reverse
  above : Memory.Agree memory before cpu.rsp.toNat stop

theorem Interrupted.congr {first second before : Memory} {stop : Nat} {frame : UInt64}
    (interrupted : Interrupted first stop frame cpu before) (same : Memory.Agree second first frame.toNat stop) :
    Interrupted second stop frame cpu before where
  place := interrupted.place
  within := interrupted.within
  words := by
    have place := interrupted.place
    have within := interrupted.within
    rw [← interrupted.words]
    apply Memory.words_congr
    intro byte low high
    exact same byte low (by omega)
  above := by
    have place := interrupted.place
    intro byte low high
    rw [same byte (by omega) high]
    exact interrupted.above byte low high

theorem enter_interrupted (gate : Gate) {base stop : Nat} (room : base + 176 ≤ core.cpu.rsp.toNat)
    (within : core.cpu.rsp.toNat ≤ stop) :
    Interrupted (core.enter gate).memory stop (core.enter gate).cpu.rsp core.cpu core.memory ∧
      base ≤ (core.enter gate).cpu.rsp.toNat ∧
      ∀ start top, top ≤ base ∨ stop ≤ start → Memory.Agree (core.enter gate).memory core.memory start top := by
  have aligned := alignedRsp_toNat core.cpu
  have twenty : 8 * core.cpu.frame.length ≤ core.cpu.alignedRsp.toNat := by
    change 160 ≤ core.cpu.alignedRsp.toNat
    omega
  obtain ⟨stored,moved⟩ := @pushWord_foldl core.memory core.cpu.alignedRsp core.cpu.frame twenty
  have words := @Memory.words_pushes core.memory core.cpu.alignedRsp.toNat core.cpu.frame twenty
  have length : core.cpu.frame.length = 20 := rfl
  rw [length] at moved words
  rw [enter_frame]
  dsimp only
  rw [stored,moved]
  refine ⟨⟨?_,within,?_,?_⟩,by omega,?_⟩
  · rw [moved]
    omega
  · rw [moved]
    exact words
  · exact Memory.agree_pushes twenty (Or.inr (by omega))
  · intro start top apart
    exact Memory.agree_pushes twenty (by rw [length]; omega)

end PolarOs.Context
