import PolarOs.Drivers.Vga
import PolarOs.Shell.Commands

/-! The timer interrupt (`kernel/timer.rs`) and the status bar it writes past the lock of the text
screen (`update_status_bar` in `drivers/vga.rs`). Whatever the tasks print between the ticks, the text
and the bar do not disturb each other. -/
namespace PolarOs.Drivers
open Library Library.Checked Library.Loops

/-- A write through the pointer to the screen, by the offset of the cell. -/
def Buffer.writeVolatile (buffer : Buffer) (offset : Nat) (character : ScreenChar) : Checked Buffer :=
  Buffer.write buffer (offset / bufferWidth) (offset % bufferWidth) character

def rowOffset : Nat := (bufferHeight - 1) * bufferWidth

def statusColor : UInt8 := colorCode .white .darkGray

/-- The loop over the bytes of a text, which stops at the edge of the screen. -/
def putBytes : Nat → List UInt8 → Buffer → Checked Buffer
  | _,[],buffer => .ok buffer
  | col,byte::bytes,buffer =>
    if bufferWidth ≤ col then .ok buffer
    else do
      let buffer ← buffer.writeVolatile (rowOffset + col) ⟨byte,statusColor⟩
      putBytes (col + 1) bytes buffer

def updateStatusBar (left right : Str) (buffer : Buffer) : Checked Buffer := do
  let buffer ← (List.range' 0 bufferWidth).foldlM (fun buffer col =>
    Buffer.writeVolatile buffer (rowOffset + col) ⟨32,statusColor⟩) buffer
  let buffer ← putBytes 0 (Utf8.encode left) buffer
  putBytes (bufferWidth - (Utf8.encode right).length) (Utf8.encode right) buffer

/-- The text screen, `TICKS` and `GUI_MODE_ACTIVE`. -/
structure Console where
  writer : Writer
  ticks : Nat
  guiMode : Bool

def uptimeText (secs : Nat) : Str :=
  let h := secs / 3600
  let m := secs % 3600 / 60
  let s := secs % 60
  Str.ofBytesOr (written 40 (Utf8.encode (lit " " ++ number h ++ lit "h " ++ padLeft 2 '0' (number m) ++ lit "m " ++
    padLeft 2 '0' (number s) ++ lit "s "))) []

def rustTimerHandler (console : Console) : Checked Console := do
  let ticks ← add 64 console.ticks 1
  if !console.guiMode && ticks % timerHz = 0 then
    let buffer ← updateStatusBar (lit " PolarOs v0.1.0") (uptimeText (ticks / timerHz)) console.writer.buffer
    return {console with writer := {console.writer with buffer}, ticks}
  else return {console with ticks}

inductive ScreenAction where
  | print (text : Str)
  | clearScreen
  | deleteLastChar
  | setColor (foreground background : Color)
  | tick
deriving DecidableEq

/-- What a task does to the screen with the lock of the writer in hand. -/
def Writer.perform (writer : Writer) : ScreenAction → Checked Writer
  | .print text => writer.writeString text
  | .clearScreen => writer.clearScreen
  | .deleteLastChar => writer.deleteLastChar
  | .setColor foreground background => .ok (writer.setColor foreground background)
  | .tick => .ok writer

def Console.step (console : Console) (action : ScreenAction) : Checked Console :=
  match action with
  | .tick => rustTimerHandler console
  | other => do
    let writer ← console.writer.perform other
    return {console with writer}

/-! The bar. -/

/-- The row of the bar shows these characters. -/
def Buffer.withBar (bar : Nat → ScreenChar) (buffer : Buffer) : Buffer :=
  fun r c => if r = 24 ∧ c < 80 then bar c else buffer r c

theorem Buffer.withBar_twice (bar other : Nat → ScreenChar) (buffer : Buffer) :
    (buffer.withBar bar).withBar other = buffer.withBar other := by
  funext r c
  simp only [withBar]
  split <;> rfl

/-- Two texts at the ends of a row. -/
def statusLine (left right : List UInt8) : List UInt8 :=
  left ++ List.replicate (80 - right.length - left.length) 32 ++ right

def barOf (left right : List UInt8) (col : Nat) : ScreenChar := ⟨(statusLine left right).getD col 32,statusColor⟩

theorem writeVolatile_bar {buffer : Buffer} {col : Nat} (inside : col < 80) (character : ScreenChar) :
    ∃ next, buffer.writeVolatile (rowOffset + col) character = .ok next ∧
      ∀ r c, next r c = if r = 24 ∧ c = col then character else buffer r c := by
  have row : (rowOffset + col) / bufferWidth = 24 := by
    simp only [rowOffset,bufferHeight,bufferWidth]
    omega
  have column : (rowOffset + col) % bufferWidth = col := by
    simp only [rowOffset,bufferHeight,bufferWidth]
    omega
  rw [Buffer.writeVolatile,row,column]
  exact Buffer.write_ok ⟨by decide,inside⟩ buffer character

theorem putBytes_ok (bytes : List UInt8) {col : Nat} (fits : col + bytes.length ≤ 80) (buffer : Buffer) :
    ∃ next, putBytes col bytes buffer = .ok next ∧ ∀ r c, next r c =
      if r = 24 ∧ col ≤ c ∧ c < col + bytes.length then ⟨bytes.getD (c - col) 32,statusColor⟩ else buffer r c := by
  induction bytes generalizing col buffer with
  | nil =>
    refine ⟨buffer,rfl,?_⟩
    intro r c
    rw [if_neg (by simp)]
  | cons byte bytes ih =>
    rw [List.length_cons] at fits
    obtain ⟨middle,first,cell⟩ := @writeVolatile_bar buffer col (by omega) ⟨byte,statusColor⟩
    obtain ⟨next,rest,cells⟩ := @ih (col + 1) (by omega) middle
    refine ⟨next,?_,?_⟩
    · have room : ¬bufferWidth ≤ col := by
        rw [bufferWidth]
        omega
      rw [putBytes,if_neg room,first,ok_bind,rest]
    · intro r c
      rw [cells,cell,List.length_cons]
      by_cases bar : r = 24
      · rcases Nat.lt_trichotomy c col with before | rfl | after
        · rw [if_neg (by omega),if_neg (by omega),if_neg (by omega)]
        · rw [if_neg (by omega),if_pos ⟨bar,rfl⟩,if_pos (by omega),Nat.sub_self,List.getD_cons_zero]
        · have distance : c - col = c - (col + 1) + 1 := by omega
          rw [distance,List.getD_cons_succ,if_neg (by omega : ¬(r = 24 ∧ c = col))]
          exact if_congr (by omega) rfl rfl
      · rw [if_neg (by omega),if_neg (by omega),if_neg (by omega)]

theorem uptimeText_short (secs : Nat) : (Utf8.encode (uptimeText secs)).length ≤ 40 := by
  rw [uptimeText,Str.ofBytesOr]
  cases decoded : Utf8.decode _ with
  | none => exact Nat.zero_le _
  | some text =>
    rw [Option.getD_some,Utf8.encode_of_decode decoded,written_eq]
    exact List.length_take_le _ _

theorem statusLine_getD {left right : List UInt8} (fits : left.length + right.length ≤ 80) (col : Nat) :
    (statusLine left right).getD col 32 =
      if 80 - right.length ≤ col then right.getD (col - (80 - right.length)) 32 else left.getD col 32 := by
  have padded : (left ++ List.replicate (80 - right.length - left.length) 32).length = 80 - right.length := by
    rw [List.length_append,List.length_replicate]
    omega
  rw [statusLine]
  simp only [List.getD_eq_getElem?_getD]
  split
  next behind =>
    rw [List.getElem?_append_right (padded.trans_le behind),padded]
  next before =>
    rw [List.getElem?_append_left (by omega)]
    by_cases named : col < left.length
    · rw [List.getElem?_append_left named]
    · rw [List.getElem?_append_right (by omega),List.getElem?_replicate,if_pos (by omega),List.getElem?_eq_none (by omega)]
      rfl

theorem updateStatusBar_ok {left right : Str} (fits : (Utf8.encode left).length + (Utf8.encode right).length ≤ 80) (buffer : Buffer) :
    updateStatusBar left right buffer = .ok (buffer.withBar (barOf (Utf8.encode left) (Utf8.encode right))) := by
  have each : ∀ col (state : Buffer), 0 ≤ col → col < 0 + 80 →
      (∀ r c, state r c = if r = 24 ∧ c < col then ⟨32,statusColor⟩ else buffer r c) →
      ∃ next, Buffer.writeVolatile state (rowOffset + col) ⟨32,statusColor⟩ = .ok next ∧
        ∀ r c, next r c = if r = 24 ∧ c < col + 1 then ⟨32,statusColor⟩ else buffer r c := by
    intro col state _ inside cleared
    obtain ⟨next,ran,cells⟩ := @writeVolatile_bar state col (by omega) ⟨32,statusColor⟩
    refine ⟨next,ran,?_⟩
    intro r c
    rw [cells,cleared]
    grind
  have start : ∀ r c, buffer r c = if r = 24 ∧ c < 0 then ⟨32,statusColor⟩ else buffer r c := by simp
  obtain ⟨blank,first,cleared⟩ := foldlM_range each start
  obtain ⟨named,second,written⟩ := @putBytes_ok (Utf8.encode left) 0 (by omega) blank
  obtain ⟨last,third,timed⟩ := @putBytes_ok (Utf8.encode right) (80 - (Utf8.encode right).length) (by omega) named
  rw [updateStatusBar,show bufferWidth = 80 from rfl,first,ok_bind,second,ok_bind,third]
  refine congrArg Except.ok (funext fun r => funext fun c => ?_)
  rw [timed,written,cleared,Buffer.withBar,barOf,statusLine_getD fits]
  by_cases bar : r = 24 ∧ c < 80
  · by_cases behind : 80 - (Utf8.encode right).length ≤ c
    · rw [if_pos (by omega),if_pos behind,if_pos bar]
    · rw [if_neg (by omega),if_neg behind]
      by_cases before : c < (Utf8.encode left).length
      · rw [if_pos (by omega),if_pos bar,Nat.sub_zero]
      · rw [if_neg (by omega),if_pos (by omega),if_pos bar,List.getD_eq_getElem?_getD,List.getElem?_eq_none (by omega),
          Option.getD_none]
  · rw [if_neg (by omega),if_neg (by omega),if_neg (by omega),if_neg bar]

def statusBar (secs : Nat) : Nat → ScreenChar :=
  barOf (Utf8.encode (lit " PolarOs v0.1.0")) (Utf8.encode (uptimeText secs))

/-- The time as it is meant. -/
def uptime (secs : Nat) : Str :=
  number (secs / 3600) ++ lit "h " ++ padLeft 2 '0' (number (secs % 3600 / 60)) ++ lit "m " ++
    padLeft 2 '0' (number (secs % 60)) ++ lit "s"

theorem number_ascii {n : Nat} {c : Char} (member : c ∈ number n) : c.utf8Size = 1 := by
  have digit : c.isDigit := Nat.isDigit_of_mem_toDigits (by decide) (by decide) member
  rw [Char.isDigit,Bool.and_eq_true,decide_eq_true_iff,decide_eq_true_iff] at digit
  refine Char.utf8Size_eq_one_iff.mpr (UInt32.le_iff_toNat_le.mpr ?_)
  have low := UInt32.le_iff_toNat_le.mp digit.2
  exact low.trans (by decide)

theorem padded_ascii {n : Nat} {c : Char} (member : c ∈ padLeft 2 '0' (number n)) : c.utf8Size = 1 := by
  rcases List.mem_append.mp member with zero | digit
  · rw [List.eq_of_mem_replicate zero]
    rfl
  · exact number_ascii digit

theorem padded_length {n : Nat} (small : n < 100) : (padLeft 2 '0' (number n)).length = 2 := by
  have digits : (number n).length ≤ 2 := (Nat.length_toDigits_le_iff (by decide) (by decide)).mpr small
  rw [padLeft,List.length_append,List.length_replicate]
  omega

theorem uptime_ascii {secs : Nat} {c : Char} (member : c ∈ lit " " ++ uptime secs ++ lit " ") : c.utf8Size = 1 := by
  have plain : ∀ {text : Str}, c ∈ text → text ∈ [lit " ",lit "h ",lit "m ",lit "s"] → c.utf8Size = 1 := by
    intro text member known
    simp only [List.mem_cons,List.not_mem_nil,or_false] at known
    rcases known with rfl | rfl | rfl | rfl <;> simp [lit] at member
    · rw [member]
      rfl
    · rcases member with rfl | rfl <;> rfl
    · rcases member with rfl | rfl <;> rfl
    · rw [member]
      rfl
  simp only [uptime,List.mem_append,or_assoc] at member
  rcases member with blank | hours | unit | minutes | unit | seconds | unit | blank
  · exact plain blank (by simp)
  · exact number_ascii hours
  · exact plain unit (by simp)
  · exact padded_ascii minutes
  · exact plain unit (by simp)
  · exact padded_ascii seconds
  · exact plain unit (by simp)
  · exact plain blank (by simp)

theorem uptime_length {secs : Nat} (fits : secs * timerHz < 2^64) : (lit " " ++ uptime secs ++ lit " ").length ≤ 40 := by
  have hz : timerHz = 100 := rfl
  rw [hz] at fits
  have hours : (number (secs / 3600)).length ≤ 14 := (Nat.length_toDigits_le_iff (by decide) (by decide)).mpr (by omega)
  have minutes := @padded_length (secs % 3600 / 60) (by omega)
  have seconds := @padded_length (secs % 60) (by omega)
  simp only [uptime,List.length_append,minutes,seconds,lit]
  simp
  omega

/-- The bar shows the whole time as long as the ticks fit their counter. -/
theorem uptimeText_eq {secs : Nat} (fits : secs * timerHz < 2^64) : uptimeText secs = lit " " ++ uptime secs ++ lit " " := by
  have whole : uptimeText secs = Str.ofBytesOr (written 40 (Utf8.encode (lit " " ++ uptime secs ++ lit " "))) [] := by
    simp only [uptimeText,uptime,List.append_assoc]
    rfl
  have short : (Utf8.encode (lit " " ++ uptime secs ++ lit " ")).length ≤ 40 := by
    rw [Utf8.length_encode fun c => uptime_ascii]
    exact uptime_length fits
  rw [whole,written_eq,List.take_of_length_le short,Str.ofBytesOr,Utf8.decode_encode,Option.getD_some]

theorem updateStatusBar_secs (secs : Nat) (buffer : Buffer) :
    updateStatusBar (lit " PolarOs v0.1.0") (uptimeText secs) buffer = .ok (buffer.withBar (statusBar secs)) := by
  have short := uptimeText_short secs
  have name : (Utf8.encode (lit " PolarOs v0.1.0")).length = 15 := by decide
  exact updateStatusBar_ok (by omega) buffer

/-! The text. -/

theorem Buffer.write_withBar {row col : Nat} (text : row ≠ 24) (bar : Nat → ScreenChar) (buffer : Buffer) (character : ScreenChar) :
    (buffer.withBar bar).write row col character = (buffer.write row col character).map (withBar bar) := by
  by_cases inside : row < bufferHeight ∧ col < bufferWidth
  · rw [write,write,if_pos inside,if_pos inside]
    refine congrArg Except.ok (funext fun r => funext fun c => ?_)
    rw [withBar]
    by_cases here : r = row
    · subst here
      simp [withBar,text,Function.update_apply]
    · simp [withBar,here]
  · rw [write,write,if_neg inside,if_neg inside]
    rfl

theorem Buffer.read_withBar {row col : Nat} (text : row ≠ 24) (bar : Nat → ScreenChar) (buffer : Buffer) :
    (buffer.withBar bar).read row col = buffer.read row col := by
  have same : buffer.withBar bar row col = buffer row col := if_neg fun both => text both.1
  rw [read,read,same]

namespace Writer

variable {bar : Nat → ScreenChar} {writer : Writer} {row : Nat}

def withBar (bar : Nat → ScreenChar) (writer : Writer) : Writer := {writer with buffer := writer.buffer.withBar bar}

theorem clearRow_withBar (text : row ≠ 24) : (writer.withBar bar).clearRow row = (writer.clearRow row).map (withBar bar) :=
  bind_comm (f := Buffer.withBar bar)
    (foldlM_comm (f := Buffer.withBar bar) (fun _ _ buffer => Buffer.write_withBar text bar buffer _) writer.buffer) fun _ => rfl

theorem copyUp_withBar (text : row < 24) (buffer : Buffer) :
    copyUp (buffer.withBar bar) row = (copyUp buffer row).map (Buffer.withBar bar) := by
  refine foldlM_comm ?_ buffer
  intro col _ state
  rw [Buffer.read_withBar text.ne]
  cases Buffer.read state row col with
  | error fault => rfl
  | ok character => exact Buffer.write_withBar (by omega) bar state character

theorem newLine_withBar : (writer.withBar bar).newLine = writer.newLine.map (withBar bar) := by
  refine bind_comm (f := Buffer.withBar bar) (foldlM_comm (f := Buffer.withBar bar) ?_ writer.buffer) fun buffer => ?_
  · intro row member state
    exact copyUp_withBar (List.mem_range'_1.mp member).2 state
  · exact bind_comm (f := withBar bar) (@clearRow_withBar bar {writer with buffer} (textHeight - 1) (by decide)) fun _ => rfl

theorem wrap_withBar : (writer.withBar bar).wrap = writer.wrap.map (withBar bar) := by
  have column : (writer.withBar bar).columnPosition = writer.columnPosition := rfl
  rw [wrap,wrap,column]
  split
  next => exact newLine_withBar
  next => rfl

theorem writeByte_withBar (byte : UInt8) : (writer.withBar bar).writeByte byte = (writer.writeByte byte).map (withBar bar) := by
  rw [writeByte,writeByte]
  split
  next => exact newLine_withBar
  next =>
    refine bind_comm (f := withBar bar) wrap_withBar fun ready => ?_
    exact bind_comm (f := Buffer.withBar bar) (Buffer.write_withBar (by decide) bar ready.buffer _) fun _ => rfl

theorem deleteLastChar_withBar : (writer.withBar bar).deleteLastChar = writer.deleteLastChar.map (withBar bar) := by
  have column : (writer.withBar bar).columnPosition = writer.columnPosition := rfl
  rw [deleteLastChar,deleteLastChar,column]
  split
  next => exact bind_comm (f := Buffer.withBar bar) (Buffer.write_withBar (by decide) bar writer.buffer _) fun _ => rfl
  next => rfl

theorem clearScreen_withBar : (writer.withBar bar).clearScreen = writer.clearScreen.map (withBar bar) := by
  refine bind_comm (f := withBar bar) (foldlM_comm (f := withBar bar) ?_ writer) fun _ => rfl
  intro row member state
  exact clearRow_withBar (List.mem_range'_1.mp member).2.ne

/-- The tasks neither read nor write the bar. -/
theorem perform_withBar (action : ScreenAction) : (writer.withBar bar).perform action = (writer.perform action).map (withBar bar) := by
  cases action with
  | print text =>
    exact foldlM_comm (f := withBar bar) (fun byte _ state => writeByte_withBar (shownByte byte)) writer
  | clearScreen => exact clearScreen_withBar
  | deleteLastChar => exact deleteLastChar_withBar
  | setColor foreground background => rfl
  | tick => rfl

end Writer

/-! The text and the ticks together. -/

/-- The second that the bar shows after so many more ticks, unless none has passed. -/
def secsShown (ticks count : Nat) : Option Nat :=
  if ticks / timerHz < (ticks + count) / timerHz then some ((ticks + count) / timerHz) else none

theorem secsShown_some {ticks count : Nat} (passed : ticks / 100 < (ticks + count) / 100) :
    secsShown ticks count = some ((ticks + count) / 100) := if_pos passed

theorem secsShown_none {ticks count : Nat} (within : (ticks + count) / 100 ≤ ticks / 100) : secsShown ticks count = none :=
  if_neg (Nat.not_lt.mpr within)

def Writer.withSecs (secs : Option Nat) (writer : Writer) : Writer :=
  match secs with
  | some secs => writer.withBar (statusBar secs)
  | none => writer

theorem Writer.withSecs_succ (ticks count : Nat) (writer : Writer) :
    (writer.withSecs (secsShown ticks 1)).withSecs (secsShown (ticks + 1) count) = writer.withSecs (secsShown ticks (count + 1)) := by
  have sum : ticks + 1 + count = ticks + (count + 1) := by omega
  by_cases more : (ticks + 1) / 100 < (ticks + 1 + count) / 100
  · rw [secsShown_some more,@secsShown_some ticks (count + 1) (by omega),sum]
    cases secsShown ticks 1 with
    | none => rfl
    | some before => exact congrArg (Writer.mk writer.columnPosition writer.colorCode) (Buffer.withBar_twice _ _ _)
  · have same : (ticks + 1 + count) / 100 = (ticks + 1) / 100 := by omega
    rw [secsShown_none (Nat.not_lt.mp more)]
    change writer.withSecs (secsShown ticks 1) = _
    by_cases first : ticks / 100 < (ticks + 1) / 100
    · rw [secsShown_some first,@secsShown_some ticks (count + 1) (by omega),← sum,same]
    · rw [secsShown_none (Nat.not_lt.mp first),@secsShown_none ticks (count + 1) (by omega)]

theorem Writer.run_withSecs (actions : List ScreenAction) (secs : Option Nat) (writer : Writer) :
    actions.foldlM perform (writer.withSecs secs) = (actions.foldlM perform writer).map (withSecs secs) := by
  cases secs with
  | none =>
    change actions.foldlM perform writer = _
    cases actions.foldlM perform writer <;> rfl
  | some secs => exact foldlM_comm (fun action _ state => perform_withBar action) writer

namespace Console

/-- The text with the bar of so many ticks later; there is none beside the windows. -/
def bar (console : Console) (count : Nat) (writer : Writer) : Writer :=
  if console.guiMode then writer else writer.withSecs (secsShown console.ticks count)

def later (console : Console) (count : Nat) (writer : Writer) : Console :=
  {console with writer := console.bar count writer, ticks := console.ticks + count}

variable {console : Console} {actions : List ScreenAction} {action : ScreenAction}

theorem tick_eq (fits : console.ticks + 1 < 2^64) : rustTimerHandler console = .ok (console.later 1 console.writer) := by
  obtain ⟨writer,ticks,guiMode⟩ := console
  rw [rustTimerHandler,add,if_pos fits,ok_bind,later,bar]
  cases guiMode with
  | true => rfl
  | false =>
    have hz : timerHz = 100 := rfl
    dsimp only
    rw [hz]
    by_cases second : (ticks + 1) % 100 = 0
    · rw [@secsShown_some ticks 1 (by omega),decide_eq_true second,updateStatusBar_secs]
      rfl
    · rw [@secsShown_none ticks 1 (by omega),decide_eq_false second]
      rfl

theorem step_perform (other : action ≠ .tick) (console : Console) :
    console.step action = console.writer.perform action >>= fun writer => .ok {console with writer} := by
  cases action with
  | tick => exact absurd rfl other
  | _ => rfl

theorem run_bar (console : Console) (count : Nat) (actions : List ScreenAction) (writer : Writer) :
    actions.foldlM Writer.perform (console.bar count writer) = (actions.foldlM Writer.perform writer).map (console.bar count) := by
  obtain ⟨_,ticks,guiMode⟩ := console
  cases guiMode with
  | true => exact Writer.run_withSecs actions none writer
  | false => exact Writer.run_withSecs actions (secsShown ticks count) writer

theorem later_succ (console : Console) (count : Nat) (writer : Writer) :
    (console.later 1 console.writer).later count (console.bar 1 writer) = console.later (count + 1) writer := by
  obtain ⟨_,ticks,guiMode⟩ := console
  have sum : ticks + 1 + count = ticks + (count + 1) := by omega
  cases guiMode with
  | true => exact congrArg (Console.mk writer · true) sum
  | false => exact congrArg₂ (Console.mk · · false) (Writer.withSecs_succ ticks count writer) sum

theorem run_later (console : Console) (actions : List ScreenAction)
    (fits : console.ticks + actions.count .tick < 2^64) :
    actions.foldlM Console.step console =
      (actions.foldlM Writer.perform console.writer).map (console.later (actions.count .tick)) := by
  induction actions generalizing console with
  | nil =>
    have still : console.later 0 console.writer = console := by simp [later,bar,secsShown,Writer.withSecs]
    exact congrArg Except.ok still.symm
  | cons action actions ih =>
    rw [List.foldlM_cons,List.foldlM_cons]
    by_cases tick : action = .tick
    · subst tick
      rw [List.count_cons_self] at fits ⊢
      have rest := ih (console.later 1 console.writer) (by simp only [later]; omega)
      rw [Console.step,tick_eq (by omega),ok_bind,rest,Writer.perform,ok_bind]
      have text : (console.later 1 console.writer).writer = console.bar 1 console.writer := rfl
      rw [text,run_bar]
      cases actions.foldlM Writer.perform console.writer with
      | error fault => rfl
      | ok last => exact congrArg Except.ok (later_succ console _ last)
    · rw [List.count_cons_of_ne tick] at fits ⊢
      rw [step_perform tick]
      cases console.writer.perform action with
      | error fault => rfl
      | ok writer => exact ih {console with writer} fits

/-- What the tasks print and what the ticks show do not disturb each other: the text is what it would be without
the ticks, and the bar shows the last whole second, in full and as `uptime` prints it. -/
theorem text_beside_bar (console : Console) (actions : List ScreenAction)
    (fits : console.ticks + actions.count .tick < 2^64) :
    actions.foldlM Console.step console =
        (actions.foldlM Writer.perform console.writer).map (console.later (actions.count .tick)) ∧
      ∀ secs, secsShown console.ticks (actions.count .tick) = some secs →
        uptimeText secs = lit " " ++ uptime secs ++ lit " " ∧
        cmdUptime (console.ticks + actions.count .tick) = lit "Uptime: " ++ uptime secs ++ lit " (" ++
          number (console.ticks + actions.count .tick) ++ lit " tickow @ " ++ number timerHz ++ lit "Hz)" := by
  refine ⟨run_later console actions fits,?_⟩
  intro secs shown
  have last : (console.ticks + actions.count .tick) / timerHz = secs := by
    rw [secsShown] at shown
    split at shown
    next => exact Option.some.inj shown
    next => cases shown
  subst last
  refine ⟨uptimeText_eq ((Nat.div_mul_le_self _ _).trans_lt fits),?_⟩
  simp only [cmdUptime,uptime,List.append_assoc]
  rfl

theorem text_beside_bar_second :
    let console : Console := ⟨⟨0,7,fun _ _ => ⟨65,7⟩⟩,99,false⟩
    [.print (lit "a"),.tick].foldlM Console.step console =
        ([.print (lit "a"),.tick].foldlM Writer.perform console.writer).map (console.later 1) ∧
      uptimeText 1 = lit " " ++ uptime 1 ++ lit " " := by
  intro console
  obtain ⟨ran,shown⟩ := text_beside_bar console [.print (lit "a"),.tick] (by decide)
  exact ⟨ran,(shown 1 (by decide)).1⟩

end Console

end PolarOs.Drivers
