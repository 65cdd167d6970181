import PolarOs.Library.SpinLocks

/-! The spin locks of the kernel. Each function is here as the locks it takes and gives back and the
stretches without interrupts; what it computes between them is left out. Only the task of the kernel
and the programs that `exec` and `spawn` start take locks that another task may wait for; the locks
of the keyboard and mouse handlers are modelled with the drivers. -/
namespace PolarOs.Locks
open Library Library.LockOp

inductive Lock where
  | fs
  | envVars
  | memoryManager
  | scheduler
  | allocator
  | writer
  | serial1
deriving DecidableEq

abbrev LockOps := List (LockOp Lock)

/-- Uses of the heap: `LockedHeap` takes its lock for each of them. -/
def allocations (count : Nat) : LockOps := (List.replicate count (locked .allocator [])).flatten

def print : LockOps := withoutInterrupts (locked .writer [])

def serialPrint : LockOps := withoutInterrupts (locked .serial1 [])

/-! `scheduler.rs`. -/

def spawn (count : Nat) : LockOps := withoutInterrupts (locked .scheduler (allocations count ++ [.start]))

def yieldNow : LockOps := withoutInterrupts (locked .scheduler [] ++ [.switch])

def exitCurrentTask : LockOps := withoutInterrupts (locked .scheduler [.finish] ++ [.switch])

/-! `handlers.rs`. -/

def sysExit (count : Nat) : LockOps := allocations count ++ exitCurrentTask

def sysWrite (count : Nat) : LockOps := (List.replicate count print).flatten

def sysGetpid : LockOps := locked .scheduler []

def sysOpen (before after : Nat) : LockOps := allocations before ++ locked .fs [] ++ allocations after

def sysRead : LockOps := locked .fs []

def sysClose (count : Nat) : LockOps := allocations count

def sysStat (before after : Nat) : LockOps := allocations before ++ locked .fs [] ++ allocations after

/-- What `syscall_dispatch` may do. -/
inductive SyscallDispatch : LockOps → Prop
  | exit (count : Nat) : SyscallDispatch (sysExit count)
  | write (count : Nat) : SyscallDispatch (sysWrite count)
  | yield : SyscallDispatch yieldNow
  | getpid : SyscallDispatch sysGetpid
  | openFile (before after : Nat) : SyscallDispatch (sysOpen before after)
  | read : SyscallDispatch sysRead
  | close (count : Nat) : SyscallDispatch (sysClose count)
  | stat (before after : Nat) : SyscallDispatch (sysStat before after)
  | refused : SyscallDispatch []

/-- The instruction masks the interrupts (`SFMASK`) until `sysretq`. -/
def syscallEntry (ops : LockOps) : LockOps := withoutInterrupts ops

/-! The task of the kernel: the shell or the desktop with the commands. -/

/-- What the commands do while they hold `FS` or `ENV_VARS`, and anywhere else. -/
inductive Use where
  | heap
  | print
  | serialPrint

def Use.ops : Use → LockOps
  | heap => locked .allocator []
  | print => Locks.print
  | serialPrint => Locks.serialPrint

def uses (all : List Use) : LockOps := (all.map Use.ops).flatten

def cmdPs (count : Nat) : LockOps := withoutInterrupts (locked .scheduler (allocations count))

def cmdKill (count : Nat) : LockOps := withoutInterrupts (locked .scheduler (.kill::allocations count))

inductive KernelSection : LockOps → Prop
  | use (use : Use) : KernelSection use.ops
  | files (all : List Use) : KernelSection (locked .fs (uses all))
  | environment (all : List Use) : KernelSection (locked .envVars (uses all))
  | loadAndMapElf : KernelSection (locked .memoryManager [])
  | spawn (count : Nat) : KernelSection (spawn count)
  | ps (count : Nat) : KernelSection (cmdPs count)
  | kill (count : Nat) : KernelSection (cmdKill count)

/-! The programs that the kernel starts. -/

inductive UserProgram where
  /-- `demo_counter` and `demo_hello`. -/
  | demo
  /-- `run_user_hello`, which calls `syscall_dispatch` directly. -/
  | hello
  /-- `run_user_counter`, likewise. -/
  | counter
  | elf

/-- The files that `sys_exit` frees have been opened by ELF programs, if there are any (`files`). -/
inductive UserSection (files : Prop) : UserProgram → LockOps → Prop
  | serialPrint : UserSection files .demo serialPrint
  | demoYield : UserSection files .demo yieldNow
  | demoExit : UserSection files .demo exitCurrentTask
  | helloWrite (count : Nat) : UserSection files .hello (sysWrite count)
  | helloGetpid : UserSection files .hello sysGetpid
  | helloYield : UserSection files .hello yieldNow
  | helloExit (count : Nat) (opened : 0 < count → files) : UserSection files .hello (sysExit count)
  | counterWrite (count : Nat) : UserSection files .counter (sysWrite count)
  | counterYield : UserSection files .counter yieldNow
  | counterExit : UserSection files .counter exitCurrentTask
  | syscall {ops : LockOps} (dispatched : SyscallDispatch ops) : UserSection files .elf (syscallEntry ops)
  | elfExit : UserSection files .elf exitCurrentTask

/-! Who takes which lock where. -/

/-- A task takes a lock only while the locks it holds have lower ranks. -/
def Lock.rank : Lock → Nat
  | fs | envVars | memoryManager => 0
  | scheduler => 1
  | allocator => 2
  | writer | serial1 => 3

def kernelRules : Discipline Lock where
  plain := {.fs,.envVars,.memoryManager,.allocator}
  masked := {.scheduler,.allocator,.writer,.serial1}
  guards := {.scheduler,.writer,.serial1}
  ends := False
  kills := True

def UserProgram.rules (files : Prop) : UserProgram → Discipline Lock
  | demo => ⟨∅,{.scheduler,.serial1},Set.univ,True,False⟩
  | hello => ⟨{name | name = .scheduler ∨ name = .allocator ∧ files},{.scheduler,.writer},
      {name | ¬(name = .allocator ∧ files)},True,False⟩
  | counter => ⟨∅,{.scheduler,.writer},Set.univ,True,False⟩
  | elf => ⟨∅,{.fs,.scheduler,.allocator,.writer},Set.univ,True,False⟩

section Order

variable {rules : Discipline Lock} {held : Set Lock} {depth : Nat}

abbrev Keeps (rules : Discipline Lock) (held : Set Lock) (depth : Nat) (ops : LockOps) : Prop :=
  Processor.Balanced Lock.rank .scheduler rules held depth ops

theorem allocations_keep (one : Keeps rules held depth (locked .allocator [])) (count : Nat) :
    Keeps rules held depth (allocations count) := by
  apply Processor.Balanced.flatten
  intro part member
  rw [List.eq_of_mem_replicate member]
  exact one

/-- Any task may allocate while interrupts are masked, if it may ask for the lock there. -/
theorem masked_allocations_keep (asks : .allocator ∈ rules.masked) (below : ∀ other ∈ held, other.rank < 2)
    (deep : 0 < depth) (count : Nat) : Keeps rules held depth (allocations count) :=
  allocations_keep (.locked below (fun zero => absurd zero (Nat.ne_of_gt deep)) (fun _ => asks) .nil) count

theorem print_keeps (asks : .writer ∈ rules.masked) (below : ∀ other ∈ held, other.rank < 3)
    (clear : depth = 0 → Disjoint held rules.guards) : Keeps rules held depth print :=
  .withoutInterrupts clear (.locked below (fun zero => absurd zero (Nat.succ_ne_zero _)) (fun _ => asks) .nil)

theorem serialPrint_keeps (asks : .serial1 ∈ rules.masked) (below : ∀ other ∈ held, other.rank < 3)
    (clear : depth = 0 → Disjoint held rules.guards) : Keeps rules held depth serialPrint :=
  .withoutInterrupts clear (.locked below (fun zero => absurd zero (Nat.succ_ne_zero _)) (fun _ => asks) .nil)

theorem sysWrite_keeps (asks : .writer ∈ rules.masked) (count : Nat) : Keeps rules ∅ depth (sysWrite count) := by
  apply Processor.Balanced.flatten
  intro part member
  rw [List.eq_of_mem_replicate member]
  exact print_keeps asks (by simp) (by simp)

theorem scheduler_keeps {ops : LockOps} (asks : .scheduler ∈ rules.masked) (deep : 0 < depth)
    (inner : Keeps rules {.scheduler} depth ops) : Keeps rules ∅ depth (locked .scheduler ops) := by
  refine .locked (by simp) (fun zero => absurd zero (Nat.ne_of_gt deep)) (fun _ => asks) ?_
  rwa [insert_empty_eq]

theorem yieldNow_keeps (asks : .scheduler ∈ rules.masked) : Keeps rules ∅ depth yieldNow :=
  .withoutInterrupts (by simp) (.append (scheduler_keeps asks (Nat.succ_pos depth) .nil)
    (.switch (Nat.succ_pos depth) (by simp)))

theorem exitCurrentTask_keeps (asks : .scheduler ∈ rules.masked) (ends : rules.ends) : Keeps rules ∅ depth exitCurrentTask :=
  .withoutInterrupts (by simp) (.append (scheduler_keeps asks (Nat.succ_pos depth) (.finish ends))
    (.switch (Nat.succ_pos depth) (by simp)))

end Order

theorem syscall_keeps (files : Prop) {ops : LockOps} (dispatched : SyscallDispatch ops) :
    Keeps (UserProgram.rules files .elf) ∅ 1 ops := by
  have heap : .allocator ∈ (UserProgram.rules files .elf).masked := by simp [UserProgram.rules]
  have scheduler : .scheduler ∈ (UserProgram.rules files .elf).masked := by simp [UserProgram.rules]
  have writer : .writer ∈ (UserProgram.rules files .elf).masked := by simp [UserProgram.rules]
  have reads : Keeps (UserProgram.rules files .elf) ∅ 1 (locked .fs []) :=
    .locked (by simp) (by simp) (fun _ => by simp [UserProgram.rules]) .nil
  have free (count : Nat) : Keeps (UserProgram.rules files .elf) ∅ 1 (allocations count) :=
    masked_allocations_keep heap (by simp) Nat.one_pos count
  cases dispatched with
  | exit count => exact .append (free count) (exitCurrentTask_keeps scheduler trivial)
  | write count => exact sysWrite_keeps writer count
  | yield => exact yieldNow_keeps scheduler
  | getpid => exact .locked (by simp) (by simp) (fun _ => scheduler) .nil
  | openFile before after => exact .append (.append (free before) reads) (free after)
  | read => exact reads
  | close count => exact free count
  | stat before after => exact .append (.append (free before) reads) (free after)
  | refused => exact .nil

theorem kernelSection_orderly {ops : LockOps} (known : KernelSection ops) :
    Processor.Orderly Lock.rank .scheduler kernelRules ∅ 0 ops := by
  have use_keeps (use : Use) {held : Set Lock} (few : ∀ other ∈ held, other.rank = 0) :
      Keeps kernelRules held 0 use.ops := by
    have below {top : Nat} (high : 0 < top) : ∀ other ∈ held, other.rank < top :=
      fun other member => (few other member).trans_lt high
    have clear : Disjoint held kernelRules.guards := by
      rw [Set.disjoint_left]
      intro other member guarded
      have low := few other member
      rcases guarded with rfl | rfl | rfl <;> cases low
    have absent : Lock.scheduler ∉ held := fun member => absurd (few _ member) Nat.one_ne_zero
    cases use with
    | heap => exact .locked (below Nat.two_pos) (fun _ => by simp [kernelRules,absent]) (by simp) .nil
    | print => exact print_keeps (by simp [kernelRules]) (below (by omega)) fun _ => clear
    | serialPrint => exact serialPrint_keeps (by simp [kernelRules]) (below (by omega)) fun _ => clear
  have uses_keep (all : List Use) {held : Set Lock} (few : ∀ other ∈ held, other.rank = 0) :
      Keeps kernelRules held 0 (uses all) := by
    apply Processor.Balanced.flatten
    intro part member
    obtain ⟨use,_,rfl⟩ := List.mem_map.mp member
    exact use_keeps use few
  have masked (count : Nat) : Keeps kernelRules {.scheduler} 1 (allocations count) :=
    masked_allocations_keep (by simp [kernelRules]) (by simp [Lock.rank]) Nat.one_pos count
  have asks : .scheduler ∈ kernelRules.masked := by simp [kernelRules]
  apply Processor.Balanced.orderly
  cases known with
  | use use => exact use_keeps use (by simp)
  | files all =>
    exact .locked (by simp) (by simp [kernelRules]) (by simp) (uses_keep all (by simp [Lock.rank]))
  | environment all =>
    exact .locked (by simp) (by simp [kernelRules]) (by simp) (uses_keep all (by simp [Lock.rank]))
  | loadAndMapElf => exact .locked (by simp) (by simp [kernelRules]) (by simp) .nil
  | spawn count => exact .withoutInterrupts (by simp) (scheduler_keeps asks Nat.one_pos (.append (masked count) .start))
  | ps count => exact .withoutInterrupts (by simp) (scheduler_keeps asks Nat.one_pos (masked count))
  | kill count =>
    exact .withoutInterrupts (by simp) (scheduler_keeps asks Nat.one_pos (.append (.kill trivial) (masked count)))

theorem userSection_orderly {files : Prop} {program : UserProgram} {ops : LockOps} (known : UserSection files program ops) :
    Processor.Orderly Lock.rank .scheduler (program.rules files) ∅ 0 ops := by
  have asks : .scheduler ∈ (program.rules files).masked := by cases program <;> simp [UserProgram.rules]
  have ends : (program.rules files).ends := by cases program <;> trivial
  apply Processor.Balanced.orderly
  cases known with
  | serialPrint => exact serialPrint_keeps (by simp [UserProgram.rules]) (by simp) (by simp)
  | demoYield => exact yieldNow_keeps asks
  | demoExit => exact exitCurrentTask_keeps asks ends
  | helloWrite count => exact sysWrite_keeps (by simp [UserProgram.rules]) count
  | helloGetpid => exact .locked (by simp) (by simp [UserProgram.rules]) (by simp) .nil
  | helloYield => exact yieldNow_keeps asks
  | helloExit count opened =>
    refine .append ?_ (exitCurrentTask_keeps asks ends)
    cases count with
    | zero => exact .nil
    | succ count =>
      have files := opened (Nat.succ_pos count)
      exact allocations_keep (.locked (by simp) (by simp [UserProgram.rules,files]) (by simp) .nil) _
  | counterWrite count => exact sysWrite_keeps (by simp [UserProgram.rules]) count
  | counterYield => exact yieldNow_keeps asks
  | counterExit => exact exitCurrentTask_keeps asks ends
  | syscall dispatched => exact .withoutInterrupts (by simp) (syscall_keeps files dispatched)
  | elfExit => exact exitCurrentTask_keeps asks ends

/-! The system: the task of the kernel (`none`) and those it starts. -/

variable {τ : Type} {program : τ → UserProgram}

def HasElf (program : τ → UserProgram) : Prop := ∃ user, program user = .elf

def rules (program : τ → UserProgram) : Option τ → Discipline Lock
  | none => kernelRules
  | some task => (program task).rules (HasElf program)

def sections (program : τ → UserProgram) : Option τ → LockOps → Prop
  | none,ops => KernelSection ops
  | some task,ops => UserSection (HasElf program) (program task) ops

abbrev Cpu (τ : Type) := Processor (Option τ) Lock

def boot : Cpu τ where
  running := none
  holder _ := none
  code _ := []
  depth _ := 0
  status
    | none => .live
    | some _ => .new

abbrev Sound (program : τ → UserProgram) (cpu : Cpu τ) : Prop := cpu.Sound Lock.rank .scheduler (rules program)

abbrev Moves (τ : Type) := List (ProcessorMove (Option τ) Lock)

variable {moves : Moves τ} {last later : Cpu τ} {task other : Option τ} {name : Lock}

theorem sections_orderly (task : Option τ) (ops : LockOps) (known : sections program task ops) :
    Processor.Orderly Lock.rank .scheduler (rules program task) ∅ 0 ops := by
  cases task with
  | none => exact kernelSection_orderly known
  | some task => exact userSection_orderly known

theorem boot_sound (program : τ → UserProgram) : Sound program boot := by
  have nothing : ∀ task, (boot : Cpu τ).held task = ∅ := fun task =>
    Set.eq_empty_of_forall_notMem fun name taken => by cases taken
  refine ⟨fun task => ⟨nothing task,rfl⟩,fun task _ => ?_,fun _ name taken => by cases taken⟩
  rw [nothing task]
  exact Set.empty_disjoint _

theorem kernel_kills (program : τ → UserProgram) (task : Option τ) (kills : (rules program task).kills) : task = none := by
  cases task with
  | none => rfl
  | some task =>
    rw [rules] at kills
    cases known : program task <;> rw [known] at kills <;> cases kills

theorem guarded_by_all (program : τ → UserProgram) (among : name = .scheduler ∨ name = .writer ∨ name = .serial1)
    (task : Option τ) : name ∈ (rules program task).guards := by
  cases task with
  | none => rcases among with rfl | rfl | rfl <;> simp [rules,kernelRules]
  | some task =>
    rw [rules]
    cases program task <;> rcases among with rfl | rfl | rfl <;> simp [UserProgram.rules]

theorem held_away (sound : Sound program last) (away : task ≠ last.running) (taken : last.holder name = some task) :
    task = none ∨ (name = .allocator ∧ HasElf program) ∧ ∃ user, task = some user ∧ program user = .hello := by
  have clear := Set.disjoint_left.mp (sound.away task away) taken
  cases task with
  | none => exact Or.inl rfl
  | some user =>
    rw [rules] at clear
    cases known : program user with
    | hello =>
      rw [known] at clear
      exact Or.inr ⟨by simpa [UserProgram.rules] using clear,user,rfl,known⟩
    | _ =>
      rw [known] at clear
      exact absurd (Set.mem_univ name) clear

/-! Where a `run_user_hello` stands that holds a lock outside the critical sections. -/

section Hello

variable {files : Prop} {rules : Discipline Lock} {held : Set Lock} {depth : Nat} {ops code : LockOps}

abbrev Ordered (rules : Discipline Lock) (held : Set Lock) (depth : Nat) (code : LockOps) : Prop :=
  Processor.Orderly Lock.rank .scheduler rules held depth code

theorem Ordered.gives (order : Ordered rules held depth code) (taken : name ∈ held) : .unlock name ∈ code := by
  have whole : Processor.Orderly Lock.rank .scheduler rules held depth (code ++ []) := by rwa [List.append_nil]
  exact whole.unlocks taken (Or.inl rfl)

theorem mem_allocations {op : LockOp Lock} {count : Nat} (member : op ∈ allocations count) :
    op = .lock .allocator ∨ op = .unlock .allocator := by
  obtain ⟨part,among,there⟩ := List.mem_flatten.mp member
  rw [List.eq_of_mem_replicate among] at there
  simpa [locked] using there

theorem sysExit_succ (count : Nat) : sysExit (count + 1) = .lock .allocator::.unlock .allocator::sysExit count := rfl

/-- Unmasked code that holds the scheduler is no part of a critical section on it. -/
theorem critical_unheld {inner : LockOps} (one : inner = [] ∨ inner = [.finish]) (order : Ordered rules held 0 code)
    (taken : .scheduler ∈ held) : ¬code <:+ withoutInterrupts (locked .scheduler inner ++ [.switch]) := by
  have masked : ∀ {depth : Nat} {rest : LockOps}, ¬Ordered rules held depth (.lock .scheduler::rest) :=
    fun order => Nat.lt_irrefl _ (order.1 .scheduler taken)
  intro suffix
  have gives := order.gives taken
  rcases one with rfl | rfl <;>
    simp only [withoutInterrupts,locked,List.cons_append,List.nil_append,List.suffix_cons_iff,List.suffix_nil] at suffix
  · rcases suffix with rfl | rfl | rfl | rfl | rfl | rfl
    · exact masked order
    · exact masked order
    · exact absurd order.2.1 (Nat.lt_irrefl 0)
    · exact absurd order.1 (Nat.lt_irrefl 0)
    · exact absurd order.1 (Nat.lt_irrefl 0)
    · exact List.not_mem_nil gives
  · rcases suffix with rfl | rfl | rfl | rfl | rfl | rfl | rfl
    · exact masked order
    · exact masked order
    · exact absurd order.2.2.1 (Nat.lt_irrefl 0)
    · exact absurd order.2.1 (Nat.lt_irrefl 0)
    · exact absurd order.1 (Nat.lt_irrefl 0)
    · exact absurd order.1 (Nat.lt_irrefl 0)
    · exact List.not_mem_nil gives

/-- What is left of the frees of `sys_exit` holds the scheduler nowhere. -/
theorem sysExit_unheld (order : Ordered rules held 0 code) (taken : .scheduler ∈ held) (count : Nat) :
    ¬code <:+ sysExit count := by
  have frees : ∀ {depth : Nat} (few : LockOps), (∀ op ∈ few, op = .lock .allocator ∨ op = .unlock .allocator) →
      ¬Ordered rules held depth (few ++ exitCurrentTask) := by
    intro depth few only order
    have split : few ++ exitCurrentTask =
        (few ++ [.mask]) ++ .lock .scheduler::[.finish,.unlock .scheduler,.switch,.unmask] := by
      simp [exitCurrentTask,withoutInterrupts,locked]
    rw [split] at order
    have early := Processor.Orderly.unlocks order taken (Or.inr ⟨_,rfl⟩)
    rcases List.mem_append.mp early with before | mask
    · rcases only _ before with same | same <;> cases same
    · cases List.mem_singleton.mp mask
  induction count with
  | zero => exact critical_unheld (Or.inr rfl) order taken
  | succ count ih =>
    have freed : ∀ op ∈ allocations count, op = .lock .allocator ∨ op = .unlock .allocator := fun _ => mem_allocations
    rw [sysExit_succ,List.suffix_cons_iff,List.suffix_cons_iff]
    rintro (rfl | rfl | fewer)
    · exact frees (.lock .allocator::.unlock .allocator::allocations count) (by simpa using freed) order
    · exact frees (.unlock .allocator::allocations count) (by simpa using freed) order
    · exact ih fewer

/-- Without masking, it holds the scheduler in `sys_getpid` alone. -/
theorem hello_in_getpid (known : UserSection files .hello ops) (suffix : code <:+ ops)
    (order : Ordered rules held 0 code) (taken : .scheduler ∈ held) : sysGetpid = .lock .scheduler::code := by
  cases known with
  | helloWrite count =>
    obtain ⟨part,among,there⟩ := List.mem_flatten.mp (suffix.subset (order.gives taken))
    rw [List.eq_of_mem_replicate among] at there
    simp [print,withoutInterrupts,locked] at there
  | helloGetpid =>
    simp only [sysGetpid,locked,List.nil_append,List.suffix_cons_iff,List.suffix_nil] at suffix
    rcases suffix with rfl | rfl | rfl
    · exact absurd (order.1 .scheduler taken) (Nat.lt_irrefl _)
    · rfl
    · exact absurd (order.gives taken) List.not_mem_nil
  | helloYield => exact absurd suffix (critical_unheld (Or.inl rfl) order taken)
  | helloExit count opened => exact absurd suffix (sysExit_unheld order taken count)

/-- It holds the heap only where `sys_exit` frees the files. -/
theorem hello_in_exit (known : UserSection files .hello ops) (suffix : code <:+ ops)
    (order : Ordered rules held depth code) (taken : .allocator ∈ held) : ∃ count, sysExit count = .lock .allocator::code := by
  have gives := order.gives taken
  have member := suffix.subset gives
  cases known with
  | helloWrite count =>
    obtain ⟨part,among,there⟩ := List.mem_flatten.mp member
    rw [List.eq_of_mem_replicate among] at there
    simp [print,withoutInterrupts,locked] at there
  | helloGetpid => simp [sysGetpid,locked] at member
  | helloYield => simp [yieldNow,withoutInterrupts,locked] at member
  | helloExit count opened =>
    clear member opened
    induction count with
    | zero =>
      have last := suffix.subset gives
      simp [sysExit,allocations,exitCurrentTask,withoutInterrupts,locked] at last
    | succ count ih =>
      rw [sysExit_succ,List.suffix_cons_iff,List.suffix_cons_iff] at suffix
      rcases suffix with rfl | rfl | fewer
      · exact absurd (order.1 .allocator taken) (Nat.lt_irrefl _)
      · exact ⟨count + 1,rfl⟩
      · exact ih fewer

end Hello

variable [DecidableEq τ]

abbrev Step (program : τ → UserProgram) : Cpu τ → ProcessorMove (Option τ) Lock → Cpu τ → Prop :=
  Processor.Step .scheduler (sections program)

theorem run_sound (run : Run (Step program) boot moves last) : Sound program last ∧ last.status none = .live := by
  have each : ∀ first action last, (Sound program first ∧ first.status none = .live) → Step program first action last →
      Sound program last ∧ last.status none = .live := by
    rintro first action last ⟨sound,live⟩ step
    exact ⟨sound.step sections_orderly step,sound.step_live (fun ends => ends) (kernel_kills program) live step⟩
  exact run.keeps each ⟨boot_sound program,rfl⟩

theorem run_inside (run : Run (Step program) boot moves last) : last.Inside (sections program) :=
  Processor.Inside.run (fun _ => Or.inl rfl) run

/-- A `run_user_hello` that holds a lock is in the middle of one of its sections. -/
theorem hello_section {user : τ} (run : Run (Step program) boot moves last) (hello : program user = .hello)
    (taken : last.holder name = some (some user)) : ∃ ops, UserSection (HasElf program) .hello ops ∧
      last.code (some user) <:+ ops := by
  rcases run_inside run (some user) with idle | ⟨ops,known,suffix⟩
  · have order := (run_sound run).1.orderly (some user)
    rw [idle] at order
    have member : name ∈ last.held (some user) := taken
    rw [order.1] at member
    exact member.elim
  · rw [sections,hello] at known
    exact ⟨ops,known,suffix⟩

/-! A run into a hang. -/

/-- `spawn` or `exec` has started one task. -/
def started (user : τ) : Cpu τ := {boot with status := Function.update boot.status (some user) .live}

theorem run_started (program : τ → UserProgram) (user : τ) : ∃ moves, Run (Step program) boot moves (started user) := by
  have begun : Step program boot (.begin (spawn 0)) (boot.passed (spawn 0)) := .begin boot _ rfl rfl (.spawn 0)
  have ended : ({(boot : Cpu τ) with
      status := Function.update boot.status (some user) .live
      holder := Function.update (Function.update boot.holder .scheduler (some none)) .scheduler none
      depth := Function.update (Function.update boot.depth none 1) none 0 } : Cpu τ).passed [] = started user := by
    have holder : Function.update (boot : Cpu τ).holder .scheduler none = boot.holder :=
      Function.update_eq_self Lock.scheduler (boot : Cpu τ).holder
    have depth : Function.update (boot : Cpu τ).depth none 0 = boot.depth :=
      Function.update_eq_self none (boot : Cpu τ).depth
    rw [Processor.passed_nil rfl,Function.update_idem,Function.update_idem,holder,depth]
    rfl
  rw [← ended]
  refine ⟨[.begin (spawn 0),.act,.act,.act,.act,.act],.cons begun ?_⟩
  refine .cons .masks (.cons (.takes rfl) (.cons (Processor.Step.starts (some user) rfl) (.cons .gives (.cons .unmasks ?_))))
  exact .nil _

/-- An ELF image and a `hello`. -/
def samplePrograms : Bool → UserProgram
  | true => .elf
  | false => .hello

/-- Whoever asks for the lock of the scheduler, the screen or the serial port gets it at once, in any
interleaving, and a tick finds the scheduler locked only inside the `sys_getpid` of `run_user_hello`. -/
theorem scheduler_lock_never_waits (run : Run (Step program) boot moves last) :
    (∀ name, name = .scheduler ∨ name = .writer ∨ name = .serial1 →
      (∀ task, last.holder name = some task → task = last.running) ∧
      ∀ rest, last.code last.running = .lock name::rest → last.holder name = none) ∧
    (last.depth last.running = 0 → last.holder .scheduler ≠ none → ∃ task, last.running = some task ∧
      program task = .hello ∧ sysGetpid = .lock .scheduler::last.code last.running) := by
  obtain ⟨sound,_⟩ := run_sound run
  constructor
  · intro name among
    have guarded := guarded_by_all program among
    exact ⟨fun task taken => sound.holder_eq guarded taken,fun rest code => sound.free guarded code⟩
  · intro enabled taken
    have guarded := guarded_by_all program (Or.inl rfl)
    obtain ⟨holder,held⟩ := Option.ne_none_iff_exists'.mp taken
    obtain rfl := sound.holder_eq guarded held
    obtain ⟨_,plain⟩ := sound.plain enabled _ held (guarded _)
    cases running : last.running with
    | none =>
      rw [running] at plain
      simp [rules,kernelRules] at plain
    | some task =>
      rw [running,rules] at plain
      have hello : program task = .hello := by cases known : program task <;> simp [UserProgram.rules,known] at plain ⊢
      rw [running] at held enabled
      obtain ⟨ops,known,suffix⟩ := hello_section run hello held
      have order := sound.orderly (some task)
      rw [enabled] at order
      exact ⟨task,rfl,hello,hello_in_getpid known suffix order held⟩

theorem scheduler_lock_never_waits_spawn : ∃ moves last rest, Run (Step samplePrograms) boot moves last ∧
    last.code last.running = .lock .scheduler::rest ∧ last.holder .scheduler = none := by
  have begun : Step samplePrograms boot (.begin (spawn 0)) (boot.passed (spawn 0)) := .begin boot _ rfl rfl (.spawn 0)
  have masked := ((Run.nil _).snoc begun).snoc .masks
  exact ⟨_,_,_,masked,Processor.passed_code _ _,
    ((scheduler_lock_never_waits masked).1 .scheduler (Or.inl rfl)).2 _ (Processor.passed_code _ _)⟩

/-- `kill` can take no lock away but that of the heap, and that only with a `run_user_hello` that frees the
files of an ELF program in `sys_exit`; then no task ever gets the heap again. -/
theorem killed_task_keeps_heap (run : Run (Step program) boot moves last) (dead : last.status task = .dead)
    (away : task ≠ last.running) (taken : last.holder name = some task) :
    ((name = .allocator ∧ HasElf program) ∧ ∃ user, task = some user ∧ program user = .hello) ∧
      (∃ count, sysExit count = .lock .allocator::last.code task) ∧
      ∀ moves later, Run (Step program) last moves later → later.holder name = some task := by
  obtain ⟨sound,live⟩ := run_sound run
  have heap : (name = .allocator ∧ HasElf program) ∧ ∃ user, task = some user ∧ program user = .hello := by
    rcases held_away sound away taken with rfl | heap
    · cases live.symm.trans dead
    · exact heap
  refine ⟨heap,?_,fun moves later more => ?_⟩
  · obtain ⟨⟨rfl,_⟩,user,rfl,hello⟩ := heap
    obtain ⟨ops,known,suffix⟩ := hello_section run hello taken
    exact hello_in_exit known suffix (sound.orderly (some user)) taken
  · have each : ∀ first action next, (Sound program first ∧ first.status task = .dead ∧ task ≠ first.running ∧
        first.holder name = some task) → Step program first action next →
        Sound program next ∧ next.status task = .dead ∧ task ≠ next.running ∧ next.holder name = some task := by
      rintro first action next ⟨sound,dead,away,taken⟩ step
      exact ⟨sound.step sections_orderly step,sound.step_orphaned dead away taken step⟩
    exact (more.keeps each ⟨sound,dead,away,taken⟩).2.2.2

theorem killed_task_keeps_heap_hello : ∃ moves last, Run (Step samplePrograms) boot moves last ∧
    ((Lock.allocator = .allocator ∧ HasElf samplePrograms) ∧ ∃ user, some false = some user ∧ samplePrograms user = .hello) ∧
      (∃ count, sysExit count = .lock .allocator::last.code (some false)) ∧
      ∀ moves later, Run (Step samplePrograms) last moves later → later.holder .allocator = some (some false) := by
  have elf : HasElf samplePrograms := ⟨true,rfl⟩
  obtain ⟨moves,run⟩ := run_started samplePrograms false
  have given := run.snoc (.tick _ (some false) rfl rfl (Or.inr rfl))
  have exits := given.snoc (.begin _ _ rfl rfl (.helloExit 1 fun _ => elf))
  have taken := exits.snoc (.takes rfl)
  have back := taken.snoc (.tick _ none rfl rfl (Or.inr rfl))
  have kills := back.snoc (.begin _ _ rfl rfl (.kill 0))
  have masked := kills.snoc .masks
  have locked := masked.snoc (.takes rfl)
  have killed := locked.snoc (.kill _ (some false) _ (Processor.passed_code _ _) (Option.some_ne_none false))
  exact ⟨_,_,killed,killed_task_keeps_heap killed rfl (Option.some_ne_none false) rfl⟩

end PolarOs.Locks
