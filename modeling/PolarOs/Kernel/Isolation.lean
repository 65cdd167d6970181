import PolarOs.Kernel.Descriptors

/-! Two tasks on the one descriptor table: when the system calls of one of them can be
seen by the other, which opens, reads and closes files. -/
namespace PolarOs
open Library

variable {fs : RamFs} {fds : FdTable}

/-- What a call shows its caller: the value in RAX and the bytes in its buffer. -/
abbrev Observation := UInt64 × Bytes

/-- A program chooses its next call from what its calls have shown so far. -/
abbrev Program := List Observation → FileCall

/-- One place of an interleaving: the next call of the observed task, or a call of the
other one, with the scheduler it finds. -/
inductive Turn where
  | own
  | other (sched : Scheduler) (call : Call)

def Turn.isOwn : Turn → Bool
  | .own => true
  | .other _ _ => false

def observe (fs : RamFs) (fds : FdTable) (call : FileCall) : Observation :=
  ((fileCall fs fds call).1.rax,(fileCall fs fds call).2.1)

def observations (fs : RamFs) (program : Program) : List Turn → FdTable → List Observation → List Observation
  | [],_,seen => seen
  | .own::turns,fds,seen =>
    let call := program seen
    observations fs program turns (fileCall fs fds call).2.2 (seen ++ [observe fs fds call])
  | .other sched call::turns,fds,seen => observations fs program turns (syscallDispatch fs sched fds call).2 seen

/-- The observed task sees what it sees when it runs alone. -/
def Isolated (fs : RamFs) (program : Program) (turns : List Turn) (fds : FdTable) : Prop :=
  observations fs program turns fds [] = observations fs program (turns.filter Turn.isOwn) fds []

/-- A call that, by the table it finds, has no descriptor to open, close or advance. -/
def Quiet (fs : RamFs) (fds : FdTable) : Call → Prop
  | .exit _ => ∀ fd, reservedFds ≤ fd → fds.slot fd = none
  | .openFile path => fileAt fs path = none ∨ ∀ fd : Fin maxFds, reservedFds ≤ fd.val → fds fd ≠ none
  | .read fd len => ∀ file data, fds.slot fd = some file → fs.read file.path file.name = some data →
      len = 0 ∨ data.length ≤ file.offset
  | .close fd => reservedFds ≤ fd → fds.slot fd = none
  | _ => True

def QuietRun (fs : RamFs) (program : Program) : List Turn → FdTable → List Observation → Prop
  | [],_,_ => True
  | .own::turns,fds,seen =>
    let call := program seen
    QuietRun fs program turns (fileCall fs fds call).2.2 (seen ++ [observe fs fds call])
  | .other sched call::turns,fds,seen =>
    Quiet fs fds call ∧ QuietRun fs program turns (syscallDispatch fs sched fds call).2 seen

theorem sysExit_slot (fds : FdTable) (fd : Nat) :
    (sysExit fds).slot fd = if reservedFds ≤ fd then none else fds.slot fd := by
  unfold FdTable.slot sysExit
  split
  next inside => rfl
  next outside => simp

theorem slot_injective {first second : FdTable} (same : ∀ fd, first.slot fd = second.slot fd) : first = second := by
  funext fd
  simpa [FdTable.slot] using same fd.val

theorem quiet_keeps (sched : Scheduler) {call : Call} (quiet : Quiet fs fds call) :
    (syscallDispatch fs sched fds call).2 = fds := by
  cases call with
  | exit code =>
    apply slot_injective
    intro fd
    simp only [syscallDispatch,sysExit_slot]
    split
    next user => exact (quiet fd user).symm
    next _ => rfl
  | openFile path =>
    simp only [syscallDispatch]
    rcases sysOpen_cases fs path fds with ⟨_,same,_⟩ | ⟨fd,_,_,_,found,_,_,there⟩
    · exact same
    · have free := allocFd_some found
      rcases quiet with missing | full
      · simp [there] at missing
      · exact absurd free.2 (full fd free.1)
  | read fd len =>
    simp only [syscallDispatch]
    rcases sysRead_cases fs fd len fds with ⟨_,same,_⟩ | ⟨inside,file,data,opened,found,run⟩
    · exact congrArg Prod.snd same
    · have nothing : ((data.drop file.offset).take len).length = 0 := by
        rw [List.length_take,List.length_drop]
        have := quiet file data opened found
        omega
      have slot : fds ⟨fd,inside⟩ = some file := by simpa [FdTable.slot,inside] using opened
      rw [run,nothing]
      exact Function.update_eq_self_iff.mpr slot.symm
  | close fd =>
    simp only [syscallDispatch]
    rcases sysClose_cases fd fds with ⟨_,same,_⟩ | ⟨_,user,opened,_⟩
    · exact same
    · rw [quiet user] at opened
      cases opened
  | write fd buf => rfl
  | yield => rfl
  | getpid => rfl
  | stat path => rfl
  | other nr => rfl

theorem observations_quiet {program : Program} {turns : List Turn} {seen : List Observation}
    (quiet : QuietRun fs program turns fds seen) :
    observations fs program turns fds seen = observations fs program (turns.filter Turn.isOwn) fds seen := by
  induction turns generalizing fds seen with
  | nil => rfl
  | cons turn turns ih =>
    cases turn with
    | own => exact ih quiet
    | other sched call =>
      have kept := quiet_keeps sched quiet.1
      have rest := ih quiet.2
      rw [kept] at rest
      rw [observations,kept,rest]
      rfl

/-! A call that is not quiet is seen by some program. -/

theorem not_isolated {sched : Scheduler} {call : Call} (probe : FileCall)
    (differs : observe fs (syscallDispatch fs sched fds call).2 probe ≠ observe fs fds probe) :
    ¬Isolated fs (fun _ => probe) [.other sched call,.own] fds := by
  intro same
  simp only [Isolated,observations,List.filter,Turn.isOwn,List.nil_append,List.cons.injEq,and_true] at same
  exact differs same

theorem close_opened {fd : Nat} (user : reservedFds ≤ fd) (opened : (fds.slot fd).isSome) :
    observe fs fds (.close fd) = (0,[]) := by
  rcases sysClose_cases fd fds with ⟨_,_,missing⟩ | ⟨_,_,_,run⟩
  · simp [missing user] at opened
  · simp [observe,fileCall,run,Reply.rax]

theorem close_shut {fd : Nat} (shut : fds.slot fd = none) : observe fs fds (.close fd) ≠ (0,[]) := by
  rcases sysClose_cases fd fds with ⟨⟨errno,fails⟩,_⟩ | ⟨_,_,opened,_⟩
  · cases errno <;> simp [observe,fileCall,fails,Reply.rax,Errno.code]
  · simp [shut] at opened

/-- Two tables that differ in whether a user descriptor is open are told apart by closing it. -/
theorem close_differs {other : FdTable} {fd : Nat} (user : reservedFds ≤ fd) (opened : (fds.slot fd).isSome)
    (shut : other.slot fd = none) : observe fs fds (.close fd) ≠ observe fs other (.close fd) := by
  rw [close_opened user opened]
  exact (close_shut shut).symm

/-- Reading with the length of the file shows all that is left of it. -/
theorem read_rest {fd : Nat} {file : OpenFile} {data : Bytes} (opened : fds.slot fd = some file)
    (found : fs.read file.path file.name = some data) :
    (observe fs fds (.read fd data.length)).2 = data.drop file.offset := by
  rcases sysRead_cases fs fd data.length fds with ⟨_,_,missing⟩ | ⟨_,other,content,slot,there,run⟩
  · rw [missing file opened] at found
    cases found
  · rw [opened] at slot
    cases slot
    rw [found] at there
    cases there
    simp only [observe,fileCall,run]
    exact List.take_of_length_le (by rw [List.length_drop]; omega)

theorem loud_differs (sched : Scheduler) {call : Call} (loud : ¬Quiet fs fds call) :
    ∃ probe, observe fs (syscallDispatch fs sched fds call).2 probe ≠ observe fs fds probe := by
  cases call with
  | exit code =>
    simp only [Quiet,not_forall] at loud
    obtain ⟨fd,user,opened⟩ := loud
    refine ⟨.close fd,(close_differs user (Option.isSome_iff_ne_none.mpr opened) ?_).symm⟩
    simp only [syscallDispatch,sysExit_slot]
    exact if_pos user
  | openFile path =>
    simp only [Quiet,not_or,not_forall,not_not] at loud
    obtain ⟨there,free,user,empty⟩ := loud
    rcases sysOpen_cases fs path fds with ⟨_,_,missing | full⟩ | ⟨fd,file,content,run,found,_⟩
    · exact absurd missing there
    · exact absurd empty (allocFd_none.mp full free user)
    · have slot := allocFd_some found
      refine ⟨.close fd,close_differs slot.1 ?_ (slot_of_free slot.2)⟩
      simp [syscallDispatch,run,slot_update]
  | read fd len =>
    simp only [Quiet,not_forall,not_or,not_le] at loud
    obtain ⟨file,data,opened,found,asks,left⟩ := loud
    rcases sysRead_cases fs fd len fds with ⟨_,_,missing⟩ | ⟨inside,other,content,slot,there,run⟩
    · rw [missing file opened] at found
      cases found
    · rw [opened] at slot
      cases slot
      rw [found] at there
      cases there
      let moved : OpenFile := {file with offset := file.offset + ((data.drop file.offset).take len).length}
      have after : (syscallDispatch fs sched fds (.read fd len)).2.slot fd = some moved := by
        simp [syscallDispatch,run,slot_update,moved]
      refine ⟨.read fd data.length,fun same => ?_⟩
      have rests := congrArg (fun seen : Observation => seen.2.length) same
      simp only [read_rest after found,read_rest opened found,List.length_drop,moved,List.length_take] at rests
      omega
  | close fd =>
    simp only [Quiet,not_forall] at loud
    obtain ⟨user,opened⟩ := loud
    have slot := Option.isSome_iff_ne_none.mpr opened
    refine ⟨.close fd,(close_differs user slot ?_).symm⟩
    rcases sysClose_cases fd fds with ⟨_,_,missing⟩ | ⟨_,_,_,run⟩
    · exact absurd (missing user) opened
    · simp [syscallDispatch,run,slot_update]
  | write fd buf => exact absurd trivial loud
  | yield => exact absurd trivial loud
  | getpid => exact absurd trivial loud
  | stat path => exact absurd trivial loud
  | other nr => exact absurd trivial loud

/-- A run whose foreign calls are all quiet shows the observed task what it sees alone,
and a single call is seen by no program exactly when it is quiet. -/
theorem isolated_when_quiet (fs : RamFs) (fds : FdTable) :
    (∀ program turns, QuietRun fs program turns fds [] → Isolated fs program turns fds) ∧
    ∀ sched call, Quiet fs fds call ↔
      ∀ program count, Isolated fs program (.other sched call :: List.replicate count .own) fds := by
  refine ⟨fun program turns quiet => observations_quiet quiet,fun sched call => ⟨fun quiet program count => ?_,?_⟩⟩
  · have alone : (List.replicate count Turn.own).filter Turn.isOwn = List.replicate count Turn.own :=
      List.filter_eq_self.mpr fun turn member => by rw [List.eq_of_mem_replicate member]; rfl
    simp only [Isolated,observations,quiet_keeps sched quiet,List.filter_cons,alone]
    rfl
  · intro unseen
    by_contra loud
    obtain ⟨probe,differs⟩ := loud_differs sched loud
    exact not_isolated probe differs (unseen (fun _ => probe) 1)

/-- A task opens a file, the other one exits, and the descriptor is gone. -/
theorem exit_shuts_foreign : ¬Isolated (RamFs.new.write [] ['a'] [1,2,3]).2
    (fun seen => if seen.isEmpty then .openFile [97] else .read 3 1)
    [.own,.other Scheduler.new (.exit 0),.own] FdTable.empty := by
  unfold Isolated
  decide

theorem isolated_when_quiet_one : Isolated (RamFs.new.write [] ['a'] [1,2,3]).2
    (fun seen => if seen.isEmpty then .openFile [97] else .read 3 1)
    [.own,.other Scheduler.new (.close 5),.other Scheduler.new .yield,.own] FdTable.empty := by
  apply (isolated_when_quiet _ _).1
  exact ⟨fun _ => rfl,trivial,trivial⟩

end PolarOs
