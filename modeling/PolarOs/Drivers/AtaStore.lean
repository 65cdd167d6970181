import PolarOs.Drivers.AtaPorts

/-! The disk driver as a store of sectors. Each call at the ports does what the same call does on an
array of sectors, and so a run reads what it wrote last. -/
namespace PolarOs.Drivers.AtaPorts
open Library Library.Checked Drive

variable {driver : Driver Drive} {disk : Nat → Sector} {fuel : Nat}

/-- The driver is ready, no data is on its way, and the drive holds the sectors. -/
structure Serves (fuel : Nat) (disk : Nat → Sector) (driver : Driver Drive) : Prop where
  available : driver.available = true
  rest : driver.device.transfer = .none
  prompt : driver.device.backlog < fuel
  sectors : driver.device.sectors = disk

/-- After a command for data the drive is ready to pass it. -/
theorem data_ready {drive : Drive} {lba : UInt32} {cmd : UInt8} {transfer : Transfer} (rest : drive.transfer = .none)
    (prompt : drive.backlog < fuel)
    (begins : ∀ selected : Drive, selected.transfer = .none → selected.address = lba.toNat % 2^28 →
      selected.words = drive.words → selected.command cmd = work {selected with transfer})
    (pending : transfer ≠ .none) :
    ∃ ready : Drive, waitBsy ports fuel drive = .ok {drive with busy := 0} ∧
      waitDrq ports fuel (issue ports lba cmd {drive with busy := 0}) = .ok (true,ready) ∧
      ready.busy = 0 ∧ ready.transfer = transfer ∧ ready.words = drive.words ∧ ready.backlog < fuel := by
  obtain ⟨selected,issued,address,words,passing,busy,delays⟩ := @issue_eq {drive with busy := 0} rfl lba cmd
  have started := begins selected (passing.trans rest) address words
  have total : selected.backlog ≤ drive.backlog := by
    rw [backlog,backlog,busy,delays]
    exact Nat.add_le_add_right (Nat.zero_le _) _
  have later : (work {selected with transfer}).backlog < fuel := by
    rw [backlog_work]
    exact Nat.lt_of_le_of_lt total prompt
  have soon : (work {selected with transfer}).busy < fuel := Nat.lt_of_le_of_lt (Nat.le_add_right _ _) later
  refine ⟨{work {selected with transfer} with busy := 0},waitBsy_eq ?_,?_,rfl,rfl,words,?_⟩
  · exact Nat.lt_of_le_of_lt (Nat.le_add_right _ _) prompt
  · rw [issued,started]
    exact waitDrq_eq soon pending
  · exact Nat.lt_of_le_of_lt (Nat.add_le_add_right (Nat.zero_le _) _) later

theorem readSector_serves (serves : Serves fuel disk driver) (lba : UInt32) (buf : Sector) :
    ∃ next, readSector ports fuel lba buf driver = .ok ((true,disk (lba.toNat % 2^28)),next) ∧
      Serves fuel disk next := by
  have begins (selected : Drive) (rest : selected.transfer = .none) (address : selected.address = lba.toNat % 2^28)
      (words : selected.words = driver.device.words) : selected.command cmdRead =
        work {selected with transfer := .input (driver.device.words (lba.toNat % 2^28)) 0} := by
    rw [command_read rest,address,words]
  obtain ⟨ready,idle,answered,quiet,passing,words,prompt⟩ := data_ready serves.rest serves.prompt begins nofun
  refine ⟨⟨driver.available,{ready with transfer := .none}⟩,?_,serves.available,rfl,prompt,?_⟩
  · simp only [readSector,serves.available,if_true,idle,ok_bind,answered,readWords_eq quiet passing]
    rw [← serves.sectors]
    rfl
  · rw [← serves.sectors]
    exact sectors_congr words

/-- A flush changes no data, whether the drive takes it or is still busy. -/
theorem flush_eq {drive : Drive} (rest : drive.transfer = .none) :
    (writeByte commandPort cmdFlush drive).transfer = .none ∧
      (writeByte commandPort cmdFlush drive).backlog = drive.backlog ∧
      (writeByte commandPort cmdFlush drive).words = drive.words := by
  by_cases ready : drive.busy = 0
  · have taken : writeByte commandPort cmdFlush drive = drive.command cmdFlush := by
      simp [writeByte,ready,commandPort,driveHead,lbaLow,lbaMid,lbaHigh]
    rw [taken,command_flush rest]
    exact ⟨rest,backlog_work drive,rfl⟩
  · have ignored : writeByte commandPort cmdFlush drive = drive := if_pos ready
    rw [ignored]
    exact ⟨rest,rfl,rfl⟩

theorem writeSector_serves (serves : Serves fuel disk driver) (lba : UInt32) (buf : Sector) :
    ∃ next, writeSector ports fuel lba buf driver = .ok (true,next) ∧
      Serves fuel (Function.update disk (lba.toNat % 2^28) buf) next := by
  have begins (selected : Drive) (rest : selected.transfer = .none) (address : selected.address = lba.toNat % 2^28)
      (_ : selected.words = driver.device.words) : selected.command cmdWrite =
        work {selected with transfer := .output (lba.toNat % 2^28) 0} := by
    rw [command_write rest,address]
  obtain ⟨ready,idle,answered,quiet,passing,words,prompt⟩ := data_ready serves.rest serves.prompt begins nofun
  obtain ⟨stored,ran,done,same,sectors⟩ := writeWords_eq quiet passing buf
  obtain ⟨rest,held,flushed⟩ := flush_eq done
  have soon : (writeByte commandPort cmdFlush stored).backlog < fuel := by rwa [held,same]
  have waited := waitBsy_eq (Nat.lt_of_le_of_lt (Nat.le_add_right _ _) soon)
  refine ⟨⟨driver.available,{writeByte commandPort cmdFlush stored with busy := 0}⟩,?_,serves.available,rest,?_,?_⟩
  · simp only [writeSector,serves.available,if_true,idle,ok_bind,answered,ran]
    change (waitBsy ports fuel (writeByte commandPort cmdFlush stored) >>= _) = _
    rw [waited]
    rfl
  · exact Nat.lt_of_le_of_lt (Nat.add_le_add_right (Nat.zero_le _) _) soon
  · rw [← serves.sectors,← sectors_congr words,← sectors]
    exact sectors_congr flushed

/-- A drive that identifies itself is found. -/
theorem init_serves {words : Nat → Nat → UInt16} {delays : List Nat} (enough : delays.sum < fuel) :
    ∃ ready, init ports fuel ⟨false,start words delays⟩ = .ok ready ∧
      Serves fuel (start words delays).sectors ready := by
  let asked : Drive :=
    work {start words delays with head := driveHeadMasterLba, transfer := .input (fun _ => 0) 0}
  have total : asked.backlog < fuel := by
    rw [backlog_work,backlog]
    simpa [start] using enough
  have soon : asked.polled.busy < fuel :=
    Nat.lt_of_le_of_lt (Nat.le_trans (Nat.sub_le _ _) (Nat.le_add_right _ _)) total
  have answers : asked.status ≠ 0 := by
    rw [status]
    split
    next => decide
    next => exact (by decide : (0x40 : UInt8) ||| drq ≠ 0)
  let idle : Drive := {asked.polled with busy := 0}
  have pending : idle.transfer ≠ .none := by
    intro empty
    cases empty
  have waited : waitBsy ports fuel asked.polled = .ok idle := waitBsy_eq soon
  have answered : waitDrq ports fuel idle = .ok (true,idle) :=
    waitDrq_eq (Nat.lt_of_le_of_lt (Nat.zero_le _) soon) pending
  have skipped : skipWords ports idle = {idle with transfer := .none} := @skipWords_eq idle (fun _ => 0) rfl rfl
  refine ⟨⟨true,{idle with transfer := .none}⟩,?_,rfl,rfl,?_,rfl⟩
  · change (if asked.status = 0 then _ else waitBsy ports fuel asked.polled >>= _) = _
    rw [if_neg answers,waited,ok_bind]
    change (waitDrq ports fuel idle >>= _) = _
    rw [answered,ok_bind]
    change Except.ok (Driver.mk true (skipWords ports idle)) = _
    rw [skipped]
  · exact Nat.lt_of_le_of_lt (Nat.add_le_add_right (Nat.zero_le _) _) total

/-! Runs of calls. -/

inductive Call where
  | read (lba : UInt32) (buf : Sector)
  | write (lba : UInt32) (buf : Sector)

namespace Call

def lba : Call → UInt32
  | .read lba _ => lba
  | .write lba _ => lba

/-- The answer and the buffer of the caller afterwards, at the ports. -/
def onPorts (fuel : Nat) : Call → Driver Drive → Checked ((Bool × Sector) × Driver Drive)
  | .read lba buf,driver => readSector ports fuel lba buf driver
  | .write lba buf,driver => do
    let (written,driver) ← writeSector ports fuel lba buf driver
    return ((written,buf),driver)

/-- The same call on an array of sectors. -/
def onArray : Call → (Nat → Sector) → (Bool × Sector) × (Nat → Sector)
  | .read lba buf,disk =>
    let (found,disk) := arrayAta.readSector lba.toNat disk
    ((found.isSome,found.getD buf),disk)
  | .write lba buf,disk =>
    let (written,disk) := arrayAta.writeSector lba.toNat buf disk
    ((written,buf),disk)

theorem onPorts_serves {call : Call} (small : call.lba.toNat < 2^28) (serves : Serves fuel disk driver) :
    ∃ next, call.onPorts fuel driver = .ok ((call.onArray disk).1,next) ∧ Serves fuel (call.onArray disk).2 next := by
  cases call with
  | read lba buf =>
    have address : lba.toNat % 2^28 = lba.toNat := Nat.mod_eq_of_lt small
    obtain ⟨next,ran,kept⟩ := readSector_serves serves lba buf
    rw [address] at ran
    exact ⟨next,ran,kept⟩
  | write lba buf =>
    have address : lba.toNat % 2^28 = lba.toNat := Nat.mod_eq_of_lt small
    obtain ⟨next,ran,kept⟩ := writeSector_serves serves lba buf
    rw [address] at kept
    refine ⟨next,?_,kept⟩
    rw [onPorts,ran]
    rfl

end Call

def runPorts (fuel : Nat) : List Call → Driver Drive → Checked (List (Bool × Sector) × Driver Drive)
  | [],driver => .ok ([],driver)
  | call::calls,driver => do
    let (answer,driver) ← call.onPorts fuel driver
    let (answers,driver) ← runPorts fuel calls driver
    return (answer::answers,driver)

def runArray : List Call → (Nat → Sector) → List (Bool × Sector) × (Nat → Sector)
  | [],disk => ([],disk)
  | call::calls,disk =>
    let (answer,disk) := call.onArray disk
    let (answers,disk) := runArray calls disk
    (answer::answers,disk)

theorem runPorts_serves {calls : List Call} (small : ∀ call ∈ calls, call.lba.toNat < 2^28)
    (serves : Serves fuel disk driver) :
    ∃ last, runPorts fuel calls driver = .ok ((runArray calls disk).1,last) ∧
      Serves fuel (runArray calls disk).2 last := by
  induction calls generalizing disk driver with
  | nil => exact ⟨driver,rfl,serves⟩
  | cons call calls ih =>
    rw [List.forall_mem_cons] at small
    obtain ⟨middle,first,kept⟩ := call.onPorts_serves small.1 serves
    obtain ⟨last,rest,final⟩ := ih small.2 kept
    refine ⟨last,?_,final⟩
    rw [runPorts,first,ok_bind]
    dsimp only
    rw [rest]
    rfl

/-- What was written last to the sector. -/
def lastWrite (lba : UInt32) : List Call → Sector → Sector
  | [],kept => kept
  | .read _ _::calls,kept => lastWrite lba calls kept
  | .write other buf::calls,kept => lastWrite lba calls (if other = lba then buf else kept)

theorem runArray_lastWrite (calls : List Call) (disk : Nat → Sector) (lba : UInt32) :
    (runArray calls disk).2 lba.toNat = lastWrite lba calls (disk lba.toNat) := by
  induction calls generalizing disk with
  | nil => rfl
  | cons call calls ih =>
    cases call with
    | read other buf => exact ih disk
    | write other buf =>
      have stored := ih (Function.update disk other.toNat buf)
      rw [lastWrite]
      refine stored.trans (congrArg (lastWrite lba calls) ?_)
      by_cases same : other = lba
      · rw [same,Function.update_self,if_pos rfl]
      · rw [Function.update_of_ne (fun equal => same (UInt32.toNat_inj.mp equal.symm)),if_neg same]

theorem runArray_answers (calls : List Call) (disk : Nat → Sector) :
    ∀ answer ∈ (runArray calls disk).1, answer.1 = true := by
  induction calls generalizing disk with
  | nil => exact List.forall_mem_nil _
  | cons call calls ih => cases call <;> exact List.forall_mem_cons.mpr ⟨rfl,ih _⟩

theorem reads_last_write (words : Nat → Nat → UInt16) (delays : List Nat) {calls : List Call}
    (small : ∀ call ∈ calls, call.lba.toNat < 2^28) :
    ∃ enough, ∀ fuel ≥ enough, ∃ ready answers last,
      init ports fuel ⟨false,start words delays⟩ = .ok ready ∧
      runPorts fuel calls ready = .ok (answers,last) ∧ (∀ answer ∈ answers, answer.1 = true) ∧
      ∀ lba buf, lba.toNat < 2^28 → ∃ next, readSector ports fuel lba buf last =
        .ok ((true,lastWrite lba calls ((start words delays).sectors lba.toNat)),next) := by
  refine ⟨delays.sum + 1,?_⟩
  intro fuel enough
  obtain ⟨ready,found,serves⟩ := @init_serves fuel words delays enough
  obtain ⟨last,ran,final⟩ := runPorts_serves small serves
  refine ⟨ready,_,last,found,ran,runArray_answers calls _,?_⟩
  intro lba buf below
  obtain ⟨next,read,_⟩ := readSector_serves final lba buf
  rw [Nat.mod_eq_of_lt below,runArray_lastWrite] at read
  exact ⟨next,read⟩

def filled (byte : UInt8) : Sector := ⟨List.replicate 512 byte,List.length_replicate⟩

def threeWrites : List Call := [.write 5 (filled 1),.write 0x0FFFFFFF (filled 2),.write 5 (filled 3)]

theorem two_writes_read : ∃ enough, ∀ fuel ≥ enough, ∃ ready answers last,
    init ports fuel ⟨false,start (fun _ _ => 1) [3,1,4]⟩ = .ok ready ∧
    runPorts fuel threeWrites ready = .ok (answers,last) ∧
    (∀ buf, ∃ next, readSector ports fuel 5 buf last = .ok ((true,filled 3),next)) ∧
    ∀ buf, ∃ next, readSector ports fuel 0x0FFFFFFF buf last = .ok ((true,filled 2),next) := by
  have small : ∀ call ∈ threeWrites, call.lba.toNat < 2^28 := by simp [threeWrites,Call.lba]
  obtain ⟨enough,works⟩ := reads_last_write (fun _ _ => 1) [3,1,4] small
  refine ⟨enough,?_⟩
  intro fuel more
  obtain ⟨ready,answers,last,found,ran,_,reads⟩ := works fuel more
  exact ⟨ready,answers,last,found,ran,fun buf => reads 5 buf (by decide),fun buf => reads 0x0FFFFFFF buf (by decide)⟩

end PolarOs.Drivers.AtaPorts
