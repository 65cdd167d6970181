import PolarOs.Drivers.Ata
import PolarOs.Library.Loops
import Mathlib.Algebra.Ring.Nat

/-! The disk driver at its ports (`drivers/ata.rs`), over any machine with ports, and a drive that
keeps 256 words for each address and takes its time. With this drive the calls of the driver are
those of an array of sectors. -/
namespace PolarOs
open Library Library.Checked

/-- `buf[i] = byte`. -/
def Sector.store (buf : Sector) (i : Nat) (byte : UInt8) : Checked Sector :=
  if i < 512 then .ok ⟨buf.bytes.set i byte,(List.length_set ..).trans buf.size⟩ else .error .panic

namespace Drivers

/-- What the `in` and `out` instructions do to the machine behind the ports. -/
structure Ports (δ : Type) where
  readByte : UInt16 → δ → UInt8 × δ
  writeByte : UInt16 → UInt8 → δ → δ
  readWord : UInt16 → δ → UInt16 × δ
  writeWord : UInt16 → UInt16 → δ → δ

namespace AtaPorts

def dataPort : UInt16 := 0x1F0
def sectorCount : UInt16 := 0x1F2
def lbaLow : UInt16 := 0x1F3
def lbaMid : UInt16 := 0x1F4
def lbaHigh : UInt16 := 0x1F5
def driveHead : UInt16 := 0x1F6
def statusPort : UInt16 := 0x1F7
def commandPort : UInt16 := 0x1F7

def bsy : UInt8 := 0x80
def drq : UInt8 := 0x08
def err : UInt8 := 0x01

def cmdRead : UInt8 := 0x20
def cmdWrite : UInt8 := 0x30
def cmdFlush : UInt8 := 0xE7
def cmdIdentify : UInt8 := 0xEC

def driveHeadMasterLba : UInt8 := 0xE0
def wordsPerSector : Nat := 256

/-- The static of the driver and the machine it runs on. -/
structure Driver (δ : Type) where
  available : Bool
  device : δ

section

variable {δ : Type} (ports : Ports δ)

def waitBsy : Nat → δ → Checked δ
  | 0,_ => .error .fuel
  | fuel + 1,device =>
    let (status,device) := ports.readByte statusPort device
    if status &&& bsy ≠ 0 then waitBsy fuel device else .ok device

def waitDrq : Nat → δ → Checked (Bool × δ)
  | 0,_ => .error .fuel
  | fuel + 1,device =>
    let (s,device) := ports.readByte statusPort device
    if s &&& err ≠ 0 then .ok (false,device)
    else if s &&& drq ≠ 0 then .ok (true,device)
    else waitDrq fuel device

/-- The registers and the command that both calls write. -/
def issue (lba : UInt32) (cmd : UInt8) (device : δ) : δ :=
  let device := ports.writeByte driveHead (driveHeadMasterLba ||| ((lba >>> 24) &&& 0x0F).toUInt8) device
  let device := ports.writeByte sectorCount 1 device
  let device := ports.writeByte lbaLow lba.toUInt8 device
  let device := ports.writeByte lbaMid (lba >>> 8).toUInt8 device
  let device := ports.writeByte lbaHigh (lba >>> 16).toUInt8 device
  ports.writeByte commandPort cmd device

/-- A round of the loop in `read_sector`. -/
def readStep (state : Sector × δ) (i : Nat) : Checked (Sector × δ) := do
  let (buf,device) := state
  let (word,device) := ports.readWord dataPort device
  let buf ← buf.store (i * 2) word.toUInt8
  let buf ← buf.store (i * 2 + 1) (word >>> 8).toUInt8
  return (buf,device)

def readWords (buf : Sector) (device : δ) : Checked (Sector × δ) :=
  (List.range' 0 wordsPerSector).foldlM (readStep ports) (buf,device)

/-- A round of the loop in `write_sector`. -/
def writeStep (buf : Sector) (device : δ) (i : Nat) : Checked δ := do
  let high ← index buf.bytes (i * 2 + 1)
  let low ← index buf.bytes (i * 2)
  return ports.writeWord dataPort (high.toUInt16 <<< 8 ||| low.toUInt16) device

def writeWords (buf : Sector) (device : δ) : Checked δ :=
  (List.range' 0 wordsPerSector).foldlM (writeStep ports buf) device

/-- The words of the identification are read and dropped. -/
def skipWords (device : δ) : δ :=
  (List.range wordsPerSector).foldl (fun device _ => (ports.readWord dataPort device).2) device

def init (fuel : Nat) (driver : Driver δ) : Checked (Driver δ) := do
  let device := ports.writeByte driveHead driveHeadMasterLba driver.device
  let device := ports.writeByte sectorCount 0 device
  let device := ports.writeByte lbaLow 0 device
  let device := ports.writeByte lbaMid 0 device
  let device := ports.writeByte lbaHigh 0 device
  let device := ports.writeByte commandPort cmdIdentify device
  let (status,device) := ports.readByte statusPort device
  if status = 0 then return {driver with device := device}
  else
    let device ← waitBsy ports fuel device
    let (mid,device) := ports.readByte lbaMid device
    if mid ≠ 0 then return {driver with device := device}
    else
      let (high,device) := ports.readByte lbaHigh device
      if high ≠ 0 then return {driver with device := device}
      else
        let (ready,device) ← waitDrq ports fuel device
        if ready then return ⟨true,skipWords ports device⟩
        else return {driver with device := device}

/-- What the call answers, and the buffer afterwards. -/
def readSector (fuel : Nat) (lba : UInt32) (buf : Sector) (driver : Driver δ) : Checked ((Bool × Sector) × Driver δ) :=
  if driver.available then do
    let device ← waitBsy ports fuel driver.device
    let device := issue ports lba cmdRead device
    let (ready,device) ← waitDrq ports fuel device
    if ready then
      let (buf,device) ← readWords ports buf device
      return ((true,buf),{driver with device := device})
    else return ((false,buf),{driver with device := device})
  else return ((false,buf),driver)

def writeSector (fuel : Nat) (lba : UInt32) (buf : Sector) (driver : Driver δ) : Checked (Bool × Driver δ) :=
  if driver.available then do
    let device ← waitBsy ports fuel driver.device
    let device := issue ports lba cmdWrite device
    let (ready,device) ← waitDrq ports fuel device
    if ready then
      let device ← writeWords ports buf device
      let device := ports.writeByte commandPort cmdFlush device
      let device ← waitBsy ports fuel device
      return (true,{driver with device := device})
    else return (false,{driver with device := device})
  else return (false,driver)

end

/-! The drive. It keeps its words by an address of 28 bits, is busy for any number of polls after
each command and each sector it takes, and reports no error. While it is busy it takes nothing. -/

/-- The data that is passing the port: words to be read, or an address to be written. -/
inductive Transfer where
  | none
  | input (words : Nat → UInt16) (next : Nat)
  | output (address next : Nat)

structure Drive where
  words : Nat → Nat → UInt16
  head : UInt8
  low : UInt8
  mid : UInt8
  high : UInt8
  transfer : Transfer
  /-- The polls until the drive is ready. -/
  busy : Nat
  /-- The polls that it will take over what comes next. -/
  delays : List Nat

namespace Drive

def start (words : Nat → Nat → UInt16) (delays : List Nat) : Drive := ⟨words,0,0,0,0,.none,0,delays⟩

def address (drive : Drive) : Nat :=
  drive.head.toNat % 2^4 * 2^24 + drive.high.toNat * 2^16 + drive.mid.toNat * 2^8 + drive.low.toNat

def work (drive : Drive) : Drive :=
  {drive with busy := drive.busy + drive.delays.headD 0, delays := drive.delays.tail}

/-- `DRDY`, with `DRQ` while there is data to pass. -/
def status (drive : Drive) : UInt8 :=
  if drive.busy ≠ 0 then bsy else match drive.transfer with
    | .none => 0x40
    | _ => 0x40 ||| drq

def command (drive : Drive) (value : UInt8) : Drive :=
  match drive.transfer with
  | .none =>
    if value = cmdRead then work {drive with transfer := .input (drive.words drive.address) 0}
    else if value = cmdWrite then work {drive with transfer := .output drive.address 0}
    else if value = cmdIdentify then work {drive with transfer := .input (fun _ => 0) 0}
    else work drive
  | _ => drive

def readByte (port : UInt16) (drive : Drive) : UInt8 × Drive :=
  if port = statusPort then (drive.status,{drive with busy := drive.busy - 1})
  else if port = lbaLow then (drive.low,drive)
  else if port = lbaMid then (drive.mid,drive)
  else if port = lbaHigh then (drive.high,drive)
  else if port = driveHead then (drive.head,drive)
  else (0,drive)

def writeByte (port : UInt16) (value : UInt8) (drive : Drive) : Drive :=
  if drive.busy ≠ 0 then drive
  else if port = driveHead then {drive with head := value}
  else if port = lbaLow then {drive with low := value}
  else if port = lbaMid then {drive with mid := value}
  else if port = lbaHigh then {drive with high := value}
  else if port = commandPort then drive.command value
  else drive

def readWord (port : UInt16) (drive : Drive) : UInt16 × Drive :=
  if port = dataPort ∧ drive.busy = 0 then match drive.transfer with
    | .input words next =>
      (words next,{drive with transfer := if next + 1 = 256 then .none else .input words (next + 1)})
    | _ => (0,drive)
  else (0,drive)

def writeWord (port : UInt16) (word : UInt16) (drive : Drive) : Drive :=
  if port = dataPort ∧ drive.busy = 0 then match drive.transfer with
    | .output address next =>
      let sector := Function.update (drive.words address) next word
      let drive := {drive with words := Function.update drive.words address sector}
      if next + 1 = 256 then work {drive with transfer := .none}
      else {drive with transfer := .output address (next + 1)}
    | _ => drive
  else drive

def ports : Ports Drive := ⟨readByte,writeByte,readWord,writeWord⟩

/-- The byte `k` of a sector, the low half of a word before the high one. -/
def byteAt (words : Nat → UInt16) (k : Nat) : UInt8 :=
  if k % 2 = 0 then (words (k / 2)).toUInt8 else (words (k / 2) >>> 8).toUInt8

def sectorOf (words : Nat → UInt16) : Sector := ⟨(List.range 512).map (byteAt words),by simp⟩

def sectors (drive : Drive) (lba : Nat) : Sector := sectorOf (drive.words lba)

variable {drive : Drive} {fuel : Nat} {lba : UInt32} {buf : Sector} {words : Nat → UInt16}

/-! Halves of words. -/

def pack (high low : UInt8) : UInt16 := high.toUInt16 <<< 8 ||| low.toUInt16

theorem toNat_pack (high low : UInt8) : (pack high low).toNat = high.toNat * 2^8 + low.toNat := by
  have bound := high.toNat_lt
  have shifted : high.toNat <<< ((8 : UInt16).toNat % 16) % 2^16 = high.toNat <<< 8 := by
    change high.toNat <<< 8 % 2^16 = high.toNat <<< 8
    rw [Nat.shiftLeft_eq]
    omega
  rw [pack,UInt16.toNat_or,UInt16.toNat_shiftLeft,UInt8.toNat_toUInt16,UInt8.toNat_toUInt16,shifted,
    ← Nat.shiftLeft_add_eq_or_of_lt low.toNat_lt,Nat.shiftLeft_eq]

theorem pack_low (high low : UInt8) : (pack high low).toUInt8 = low := by
  have bound := low.toNat_lt
  rw [← UInt8.toNat_inj,UInt16.toNat_toUInt8,toNat_pack]
  omega

theorem pack_high (high low : UInt8) : (pack high low >>> 8).toUInt8 = high := by
  have bound := low.toNat_lt
  have small := high.toNat_lt
  rw [← UInt8.toNat_inj,UInt16.toNat_toUInt8,UInt16.toNat_shiftRight,toNat_pack]
  change (high.toNat * 2^8 + low.toNat) >>> 8 % 2^8 = high.toNat
  rw [Nat.shiftRight_eq_div_pow]
  omega

/-- The word `i` of a buffer. -/
def packed (buf : Sector) (i : Nat) : UInt16 := pack (buf.bytes.getD (i * 2 + 1) 0) (buf.bytes.getD (i * 2) 0)

theorem byteAt_packed (agree : ∀ i < 256, words i = packed buf i) {k : Nat} (inside : k < 512) :
    byteAt words k = buf.bytes.getD k 0 := by
  rw [byteAt]
  split
  next even =>
    have place : k / 2 * 2 = k := by omega
    rw [agree _ (by omega),packed,pack_low,place]
  next odd =>
    have place : k / 2 * 2 + 1 = k := by omega
    rw [agree _ (by omega),packed,pack_high,place]

theorem sectorOf_packed (agree : ∀ i < 256, words i = packed buf i) : sectorOf words = buf := by
  apply Sector.ext
  apply List.ext_getElem
  · simp [sectorOf,buf.size]
  · intro k first second
    have inside : k < 512 := buf.size ▸ second
    simp [sectorOf,byteAt_packed agree inside,second]

/-! The registers. -/

theorem head_address {x : UInt8} (small : x.toNat < 2^4) : (driveHeadMasterLba ||| x).toNat % 2^4 = x.toNat := by
  have master : driveHeadMasterLba.toNat = 14 <<< 4 := rfl
  rw [UInt8.toNat_or,master,← Nat.shiftLeft_add_eq_or_of_lt small,Nat.shiftLeft_eq]
  omega

/-- The four registers hold the 28 bits of the address. -/
theorem issue_eq (ready : drive.busy = 0) (lba : UInt32) (cmd : UInt8) :
    ∃ selected : Drive, issue ports lba cmd drive = selected.command cmd ∧ selected.address = lba.toNat % 2^28 ∧
      selected.words = drive.words ∧ selected.transfer = drive.transfer ∧ selected.busy = drive.busy ∧
      selected.delays = drive.delays := by
  let selected : Drive := {drive with
    head := driveHeadMasterLba ||| ((lba >>> 24) &&& 0x0F).toUInt8
    low := lba.toUInt8
    mid := (lba >>> 8).toUInt8
    high := (lba >>> 16).toUInt8}
  refine ⟨selected,?_,?_,rfl,rfl,rfl,rfl⟩
  · simp [issue,ports,writeByte,ready,driveHead,sectorCount,lbaLow,lbaMid,lbaHigh,commandPort,selected]
  · have nibble : ((lba >>> 24) &&& 0x0F).toUInt8.toNat = lba.toNat / 2^24 % 2^4 := by
      rw [UInt32.toNat_toUInt8,UInt32.toNat_and,UInt32.toNat_shiftRight]
      change (lba.toNat >>> 24 &&& 2^4 - 1) % 2^8 = _
      rw [Nat.and_two_pow_sub_one_eq_mod,Nat.shiftRight_eq_div_pow]
      omega
    have low : lba.toUInt8.toNat = lba.toNat % 2^8 := UInt32.toNat_toUInt8 lba
    have mid : (lba >>> 8).toUInt8.toNat = lba.toNat / 2^8 % 2^8 := by
      rw [UInt32.toNat_toUInt8,UInt32.toNat_shiftRight]
      exact congrArg (· % 2^8) (Nat.shiftRight_eq_div_pow ..)
    have high : (lba >>> 16).toUInt8.toNat = lba.toNat / 2^16 % 2^8 := by
      rw [UInt32.toNat_toUInt8,UInt32.toNat_shiftRight]
      exact congrArg (· % 2^8) (Nat.shiftRight_eq_div_pow ..)
    rw [address,head_address (by rw [nibble]; omega),nibble,high,mid,low]
    omega

theorem command_read (rest : drive.transfer = .none) :
    drive.command cmdRead = work {drive with transfer := .input (drive.words drive.address) 0} := by
  rw [command,rest]
  exact if_pos rfl

theorem command_write (rest : drive.transfer = .none) :
    drive.command cmdWrite = work {drive with transfer := .output drive.address 0} := by
  rw [command,rest]
  dsimp only
  rw [if_neg (by decide)]
  exact if_pos rfl

theorem command_flush (rest : drive.transfer = .none) : drive.command cmdFlush = drive.work := by
  rw [command,rest]
  dsimp only
  rw [if_neg (by decide),if_neg (by decide)]
  exact if_neg (by decide)

/-! The waits. -/

/-- The polls that the drive will ever make the driver wait. -/
def backlog (drive : Drive) : Nat := drive.busy + drive.delays.sum

@[simp] theorem backlog_work (drive : Drive) : drive.work.backlog = drive.backlog := by
  rw [backlog,backlog,work]
  cases drive.delays with
  | nil => simp
  | cons delay delays => simp [Nat.add_assoc]

def polled (drive : Drive) : Drive := {drive with busy := drive.busy - 1}

theorem waitBsy_succ : waitBsy ports (fuel + 1) drive =
    if drive.status &&& bsy ≠ 0 then waitBsy ports fuel drive.polled else .ok drive.polled := rfl

theorem waitDrq_succ : waitDrq ports (fuel + 1) drive =
    if drive.status &&& err ≠ 0 then .ok (false,drive.polled)
    else if drive.status &&& drq ≠ 0 then .ok (true,drive.polled)
    else waitDrq ports fuel drive.polled := rfl

theorem polled_ready (ready : drive.busy = 0) : drive.polled = {drive with busy := 0} := by rw [polled,ready]

theorem waitBsy_eq (enough : drive.busy < fuel) : waitBsy ports fuel drive = .ok {drive with busy := 0} := by
  induction fuel generalizing drive with
  | zero => omega
  | succ fuel ih =>
    rw [waitBsy_succ]
    by_cases ready : drive.busy = 0
    · have quiet : drive.status &&& bsy = 0 := by
        rw [status,if_neg (not_not.mpr ready)]
        split <;> decide
      rw [if_neg (not_not.mpr quiet),polled_ready ready]
    · have busy : drive.status = bsy := if_pos ready
      have less : drive.polled.busy < fuel := by
        change drive.busy - 1 < fuel
        omega
      rw [busy,if_pos (by decide),ih less]
      rfl

theorem waitDrq_eq (enough : drive.busy < fuel) (pending : drive.transfer ≠ .none) :
    waitDrq ports fuel drive = .ok (true,{drive with busy := 0}) := by
  induction fuel generalizing drive with
  | zero => omega
  | succ fuel ih =>
    rw [waitDrq_succ]
    by_cases ready : drive.busy = 0
    · have asks : drive.status = 0x40 ||| drq := by
        rw [status,if_neg (not_not.mpr ready)]
        split
        next none => exact absurd none pending
        next => rfl
      rw [asks,if_neg (by decide),if_pos (by decide),polled_ready ready]
    · have busy : drive.status = bsy := if_pos ready
      have less : drive.polled.busy < fuel := by
        change drive.busy - 1 < fuel
        omega
      rw [busy,if_neg (by decide),if_neg (by decide)]
      exact ih less pending

/-! The data. -/

theorem store_ok {i : Nat} (inside : i < 512) (byte : UInt8) :
    ∃ next, buf.store i byte = .ok next ∧ next.bytes = buf.bytes.set i byte :=
  ⟨_,if_pos inside,rfl⟩

theorem byteAt_low (words : Nat → UInt16) (i : Nat) : byteAt words (i * 2) = (words i).toUInt8 := by
  rw [byteAt,if_pos (Nat.mul_mod_left i 2),Nat.mul_div_cancel i (by decide)]

theorem byteAt_high (words : Nat → UInt16) (i : Nat) : byteAt words (i * 2 + 1) = (words i >>> 8).toUInt8 := by
  have place : (i * 2 + 1) / 2 = i := by omega
  rw [byteAt,if_neg (by omega),place]

theorem sectors_congr {other : Drive} (same : drive.words = other.words) : drive.sectors = other.sectors := by
  funext lba
  rw [sectors,sectors,same]

/-- The drive when `i` words have passed from it. -/
def given (drive : Drive) (words : Nat → UInt16) (i : Nat) : Drive :=
  {drive with transfer := if i = 256 then .none else .input words i}

theorem readWord_given {i : Nat} (ready : drive.busy = 0) (more : i < 256) :
    (drive.given words i).readWord dataPort = (words i,drive.given words (i + 1)) := by
  have pending : (drive.given words i).transfer = .input words i := if_neg (Nat.ne_of_lt more)
  rw [readWord,if_pos ⟨rfl,ready⟩]
  simp only [pending]
  rfl

theorem readStep_given {i : Nat} (ready : drive.busy = 0) (more : i < 256)
    (filled : ∀ k < i * 2, buf.bytes[k]? = some (byteAt words k)) :
    ∃ next, readStep ports (buf,drive.given words i) i = .ok (next,drive.given words (i + 1)) ∧
      ∀ k < (i + 1) * 2, next.bytes[k]? = some (byteAt words k) := by
  obtain ⟨middle,low,first⟩ := @store_ok buf (i * 2) (by omega) (words i).toUInt8
  obtain ⟨last,high,second⟩ := @store_ok middle (i * 2 + 1) (by omega) (words i >>> 8).toUInt8
  have word : ports.readWord dataPort (drive.given words i) = (words i,drive.given words (i + 1)) :=
    readWord_given ready more
  refine ⟨last,?_,?_⟩
  · simp only [readStep,word,low,ok_bind,high]
    rfl
  · intro k inside
    rw [second,first]
    rcases Nat.lt_trichotomy k (i * 2) with before | rfl | after
    · rw [List.getElem?_set_ne (by omega),List.getElem?_set_ne (by omega)]
      exact filled k before
    · rw [List.getElem?_set_ne (by omega),List.getElem?_set_self (by rw [buf.size]; omega),byteAt_low]
    · obtain rfl : k = i * 2 + 1 := by omega
      rw [List.getElem?_set_self (by rw [List.length_set,buf.size]; omega),byteAt_high]

theorem eq_sectorOf (filled : ∀ k < 512, buf.bytes[k]? = some (byteAt words k)) : buf = sectorOf words := by
  apply Sector.ext
  apply List.ext_getElem?
  intro k
  by_cases inside : k < 512
  · rw [filled k inside,sectorOf,List.getElem?_map,List.getElem?_range inside]
    rfl
  · rw [List.getElem?_eq_none (by rw [buf.size]; omega),List.getElem?_eq_none (by rw [Sector.size]; omega)]

theorem readWords_eq (ready : drive.busy = 0) (pending : drive.transfer = .input words 0) (buf : Sector) :
    readWords ports buf drive = .ok (sectorOf words,{drive with transfer := .none}) := by
  have each (i : Nat) (state : Sector × Drive) (_ : 0 ≤ i) (more : i < 0 + 256)
      (kept : state.2 = drive.given words i ∧ ∀ k < i * 2, state.1.bytes[k]? = some (byteAt words k)) :
      ∃ next, readStep ports state i = .ok next ∧ next.2 = drive.given words (i + 1) ∧
        ∀ k < (i + 1) * 2, next.1.bytes[k]? = some (byteAt words k) := by
    obtain ⟨buf,device⟩ := state
    obtain ⟨rfl,filled⟩ := kept
    obtain ⟨next,ran,longer⟩ := readStep_given ready (by omega) filled
    exact ⟨_,ran,rfl,longer⟩
  have initial : drive = drive.given words 0 := by
    rw [given,if_neg (by decide),← pending]
  obtain ⟨⟨last,device⟩,ran,moved,filled⟩ := @Loops.foldlM_range _ _ _ 0 256 each (buf,drive)
    ⟨initial,fun k none => absurd none (by omega)⟩
  rw [readWords,wordsPerSector,ran,← eq_sectorOf filled]
  exact congrArg (fun device => Except.ok (last,device)) moved

theorem skipWords_eq (ready : drive.busy = 0) (pending : drive.transfer = .input words 0) :
    skipWords ports drive = {drive with transfer := .none} := by
  have skipped (n : Nat) (within : n ≤ 256) :
      (List.range n).foldl (fun device _ => (ports.readWord dataPort device).2) drive = drive.given words n := by
    induction n with
    | zero => rw [List.range_zero,List.foldl_nil,given,if_neg (by decide),← pending]
    | succ n ih =>
      rw [List.range_succ,List.foldl_append,ih (by omega)]
      exact congrArg Prod.snd (readWord_given ready within)
  exact skipped 256 (Nat.le_refl _)

/-- The words of an address when the first `i` of the buffer have replaced them. -/
def replaced (words : Nat → UInt16) (buf : Sector) (i j : Nat) : UInt16 := if j < i then packed buf j else words j

theorem update_replaced (words : Nat → UInt16) (buf : Sector) (i : Nat) :
    Function.update (replaced words buf i) i (packed buf i) = replaced words buf (i + 1) := by
  funext j
  rcases Nat.lt_trichotomy j i with before | rfl | after
  · rw [Function.update_of_ne (Nat.ne_of_lt before),replaced,replaced,if_pos before,if_pos (Nat.lt_succ_of_lt before)]
  · rw [Function.update_self,replaced,if_pos (Nat.lt_succ_self j)]
  · rw [Function.update_of_ne (Nat.ne_of_gt after),replaced,replaced,if_neg (by omega),if_neg (by omega)]

/-- The drive when `i` words of the buffer have passed to it. -/
def taken (drive : Drive) (address : Nat) (buf : Sector) (i : Nat) : Drive :=
  let stored := Function.update drive.words address (replaced (drive.words address) buf i)
  if i = 256 then work {drive with words := stored, transfer := .none}
  else {drive with words := stored, transfer := .output address i}

theorem index_getD {i : Nat} (inside : i < 512) : index buf.bytes i = .ok (buf.bytes.getD i 0) := by
  have bound : i < buf.bytes.length := buf.size.symm ▸ inside
  rw [index_lt bound,List.getD_eq_getElem?_getD,List.getElem?_eq_getElem bound,Option.getD_some]

theorem writeWord_taken {address i : Nat} (ready : drive.busy = 0) (more : i < 256) :
    (drive.taken address buf i).writeWord dataPort (packed buf i) = drive.taken address buf (i + 1) := by
  have pending : drive.taken address buf i = {drive with
      words := Function.update drive.words address (replaced (drive.words address) buf i)
      transfer := .output address i} := if_neg (Nat.ne_of_lt more)
  rw [pending,writeWord,if_pos ⟨rfl,ready⟩]
  dsimp only
  rw [Function.update_self,Function.update_idem,update_replaced]
  rfl

theorem writeWords_eq (ready : drive.busy = 0) {address : Nat} (pending : drive.transfer = .output address 0)
    (buf : Sector) :
    ∃ next : Drive, writeWords ports buf drive = .ok next ∧ next.transfer = .none ∧ next.backlog = drive.backlog ∧
      next.sectors = Function.update drive.sectors address buf := by
  have each (i : Nat) (device : Drive) (_ : 0 ≤ i) (more : i < 0 + 256) (kept : device = drive.taken address buf i) :
      ∃ next, writeStep ports buf device i = .ok next ∧ next = drive.taken address buf (i + 1) := by
    subst kept
    have high := @index_getD buf (i * 2 + 1) (by omega)
    have low := @index_getD buf (i * 2) (by omega)
    refine ⟨_,?_,writeWord_taken ready (by omega)⟩
    rw [writeStep,high,ok_bind,low,ok_bind]
    rfl
  have initial : drive = drive.taken address buf 0 := by
    have unchanged : replaced (drive.words address) buf 0 = drive.words address := rfl
    rw [taken,if_neg (by decide),unchanged,Function.update_eq_self,← pending]
  obtain ⟨next,ran,rfl⟩ := Loops.foldlM_range each initial
  refine ⟨_,ran,rfl,backlog_work _,?_⟩
  funext lba
  change sectorOf (Function.update drive.words address (replaced (drive.words address) buf 256) lba) = _
  by_cases same : lba = address
  · rw [same,Function.update_self,Function.update_self]
    exact sectorOf_packed fun i inside => if_pos inside
  · rw [Function.update_of_ne same,Function.update_of_ne same]
    rfl

end Drive

end AtaPorts

end Drivers

end PolarOs
