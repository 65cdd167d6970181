import PolarOs.Text
import PolarOs.Library.Loops

/-! The text screen (`drivers/vga.rs`): a writer that types into row 23 and scrolls the rows
above it, and what each of its operations does to the cells. -/
namespace PolarOs.Drivers
open Library Library.Checked Library.Loops

inductive Color where
  | black | blue | green | cyan | red | magenta | brown | lightGray
  | darkGray | lightBlue | lightGreen | lightCyan | lightRed | pink | yellow | white
deriving DecidableEq

def Color.code : Color → UInt8
  | .black => 0
  | .blue => 1
  | .green => 2
  | .cyan => 3
  | .red => 4
  | .magenta => 5
  | .brown => 6
  | .lightGray => 7
  | .darkGray => 8
  | .lightBlue => 9
  | .lightGreen => 10
  | .lightCyan => 11
  | .lightRed => 12
  | .pink => 13
  | .yellow => 14
  | .white => 15

/-- `ColorCode::new`. -/
def colorCode (foreground background : Color) : UInt8 := background.code <<< 4 ||| foreground.code

structure ScreenChar where
  asciiCharacter : UInt8
  colorCode : UInt8
deriving DecidableEq

def bufferHeight : Nat := 25

def bufferWidth : Nat := 80

/-- Row 24 is the status bar. -/
def textHeight : Nat := bufferHeight - 1

/-- The cells by row and column; there are none beyond `bufferHeight` and `bufferWidth`. -/
abbrev Buffer := Nat → Nat → ScreenChar

namespace Buffer

def read (buffer : Buffer) (row col : Nat) : Checked ScreenChar :=
  if row < bufferHeight ∧ col < bufferWidth then .ok (buffer row col) else .error .panic

def write (buffer : Buffer) (row col : Nat) (character : ScreenChar) : Checked Buffer :=
  if row < bufferHeight ∧ col < bufferWidth then .ok (Function.update buffer row (Function.update (buffer row) col character))
  else .error .panic

end Buffer

structure Writer where
  columnPosition : Nat
  colorCode : UInt8
  buffer : Buffer

namespace Writer

def clearRow (writer : Writer) (row : Nat) : Checked Writer := do
  let blank : ScreenChar := ⟨32,writer.colorCode⟩
  let buffer ← (List.range' 0 bufferWidth).foldlM (fun buffer col => Buffer.write buffer row col blank) writer.buffer
  return {writer with buffer}

/-- The inner loop of `new_line`: a row is copied to the one above it. -/
def copyUp (buffer : Buffer) (row : Nat) : Checked Buffer :=
  (List.range' 0 bufferWidth).foldlM (fun buffer col => do
    let character ← Buffer.read buffer row col
    Buffer.write buffer (row - 1) col character) buffer

def newLine (writer : Writer) : Checked Writer := do
  let buffer ← (List.range' 1 (textHeight - 1)).foldlM copyUp writer.buffer
  let writer ← clearRow {writer with buffer} (textHeight - 1)
  return {writer with columnPosition := 0}

/-- A full row is left before the next byte. -/
def wrap (writer : Writer) : Checked Writer :=
  if bufferWidth ≤ writer.columnPosition then writer.newLine else .ok writer

def writeByte (writer : Writer) (byte : UInt8) : Checked Writer :=
  if byte = 10 then writer.newLine
  else do
    let writer ← writer.wrap
    let buffer ← Buffer.write writer.buffer (textHeight - 1) writer.columnPosition ⟨byte,writer.colorCode⟩
    return {writer with buffer, columnPosition := writer.columnPosition + 1}

/-- The byte that is written for a byte of a string. -/
def shownByte (byte : UInt8) : UInt8 := if 0x20 ≤ byte ∧ byte ≤ 0x7e ∨ byte = 10 then byte else 0xfe

def writeString (s : Str) (writer : Writer) : Checked Writer :=
  (Utf8.encode s).foldlM (fun writer byte => writer.writeByte (shownByte byte)) writer

def clearScreen (writer : Writer) : Checked Writer := do
  let writer ← (List.range' 0 textHeight).foldlM clearRow writer
  return {writer with columnPosition := 0}

def deleteLastChar (writer : Writer) : Checked Writer :=
  if 0 < writer.columnPosition then do
    let col := writer.columnPosition - 1
    let buffer ← Buffer.write writer.buffer (textHeight - 1) col ⟨32,writer.colorCode⟩
    return {writer with buffer, columnPosition := col}
  else .ok writer

def setColor (foreground background : Color) (writer : Writer) : Writer :=
  {writer with colorCode := Drivers.colorCode foreground background}

end Writer

/-! What the operations do, cell by cell. -/

variable {writer : Writer} {buffer : Buffer} {row col : Nat} {character : ScreenChar} {byte : UInt8}

theorem Buffer.write_ok (inside : row < 25 ∧ col < 80) (buffer : Buffer) (character : ScreenChar) :
    ∃ next, Buffer.write buffer row col character = .ok next ∧
      ∀ r c, next r c = if r = row ∧ c = col then character else buffer r c := by
  refine ⟨_,if_pos inside,?_⟩
  intro r c
  by_cases here : r = row
  · subst here
    by_cases there : c = col
    · simp [there]
    · simp [there]
  · simp [here]

namespace Writer

theorem clearRow_ok (inside : row < 25) (writer : Writer) :
    ∃ buffer, writer.clearRow row = .ok {writer with buffer} ∧
      ∀ r c, buffer r c = if r = row ∧ c < 80 then ⟨32,writer.colorCode⟩ else writer.buffer r c := by
  have each : ∀ col (buffer : Buffer), 0 ≤ col → col < 0 + 80 →
      (∀ r c, buffer r c = if r = row ∧ c < col then ⟨32,writer.colorCode⟩ else writer.buffer r c) →
      ∃ next, Buffer.write buffer row col ⟨32,writer.colorCode⟩ = .ok next ∧
        ∀ r c, next r c = if r = row ∧ c < col + 1 then ⟨32,writer.colorCode⟩ else writer.buffer r c := by
    intro col buffer _ left cleared
    obtain ⟨next,ran,cells⟩ := Buffer.write_ok ⟨inside,by omega⟩ buffer ⟨32,writer.colorCode⟩
    refine ⟨next,ran,?_⟩
    intro r c
    rw [cells,cleared]
    grind
  have start : ∀ r c, writer.buffer r c = if r = row ∧ c < 0 then ⟨32,writer.colorCode⟩ else writer.buffer r c := by simp
  obtain ⟨buffer,ran,cells⟩ := foldlM_range each start
  refine ⟨buffer,?_,cells⟩
  rw [clearRow,show bufferWidth = 80 from rfl,ran]
  rfl

theorem copyUp_ok (inside : 0 < row ∧ row < 25) (buffer : Buffer) :
    ∃ next, copyUp buffer row = .ok next ∧
      ∀ r c, next r c = if r + 1 = row ∧ c < 80 then buffer row c else buffer r c := by
  have each : ∀ col (state : Buffer), 0 ≤ col → col < 0 + 80 →
      (∀ r c, state r c = if r + 1 = row ∧ c < col then buffer row c else buffer r c) →
      ∃ next, (do
          let character ← Buffer.read state row col
          Buffer.write state (row - 1) col character) = .ok next ∧
        ∀ r c, next r c = if r + 1 = row ∧ c < col + 1 then buffer row c else buffer r c := by
    intro col state _ left copied
    have kept : state row col = buffer row col := by
      rw [copied,if_neg (by omega)]
    have read : Buffer.read state row col = .ok (buffer row col) := by
      have across : col < bufferWidth := by rwa [Nat.zero_add] at left
      rw [Buffer.read,if_pos ⟨inside.2,across⟩,kept]
    obtain ⟨next,ran,cells⟩ := @Buffer.write_ok (row - 1) col ⟨by omega,by omega⟩ state (buffer row col)
    refine ⟨next,by rw [read,ok_bind,ran],?_⟩
    intro r c
    rw [cells,copied]
    grind
  have start : ∀ r c, buffer r c = if r + 1 = row ∧ c < 0 then buffer row c else buffer r c := by simp
  exact foldlM_range each start

/-- The text rows move up, and the last of them is blank. -/
structure Scrolled (writer next : Writer) : Prop where
  column : next.columnPosition = 0
  color : next.colorCode = writer.colorCode
  moved : ∀ r c, r < 23 → c < 80 → next.buffer r c = writer.buffer (r + 1) c
  blank : ∀ c, c < 80 → next.buffer 23 c = ⟨32,writer.colorCode⟩
  status : ∀ r c, 24 ≤ r → next.buffer r c = writer.buffer r c

theorem newLine_ok (writer : Writer) : ∃ next, writer.newLine = .ok next ∧ Scrolled writer next := by
  have each : ∀ row (state : Buffer), 1 ≤ row → row < 1 + 23 →
      (∀ r c, state r c = if r + 1 < row ∧ c < 80 then writer.buffer (r + 1) c else writer.buffer r c) →
      ∃ next, copyUp state row = .ok next ∧
        ∀ r c, next r c = if r + 1 < row + 1 ∧ c < 80 then writer.buffer (r + 1) c else writer.buffer r c := by
    intro row state first last copied
    obtain ⟨next,ran,cells⟩ := copyUp_ok ⟨first,by omega⟩ state
    refine ⟨next,ran,?_⟩
    intro r c
    rw [cells,copied,copied]
    grind
  have start : ∀ r c, writer.buffer r c = if r + 1 < 1 ∧ c < 80 then writer.buffer (r + 1) c else writer.buffer r c := by
    simp
  obtain ⟨copied,ran,cells⟩ := foldlM_range each start
  obtain ⟨buffer,cleared,final⟩ := @clearRow_ok 23 (by decide) {writer with buffer := copied}
  refine ⟨{writer with buffer, columnPosition := 0},?_,rfl,rfl,?_,?_,?_⟩
  · rw [newLine,show textHeight - 1 = 23 from rfl,ran,ok_bind,cleared]
    rfl
  · intro r c above left
    simp only [final,cells]
    grind
  · intro c left
    simp only [final,cells]
    grind
  · intro r c below
    simp only [final,cells]
    grind

/-- One cell of row 23 is written. -/
structure Typed (writer : Writer) (col : Nat) (byte : UInt8) (next : Writer) : Prop where
  color : next.colorCode = writer.colorCode
  cells : ∀ r c, next.buffer r c = if r = 23 ∧ c = col then ⟨byte,writer.colorCode⟩ else writer.buffer r c

theorem writeByte_ok (printed : byte ≠ 10) (room : writer.columnPosition < 80) :
    ∃ next, writer.writeByte byte = .ok next ∧ next.columnPosition = writer.columnPosition + 1 ∧
      Typed writer writer.columnPosition byte next := by
  obtain ⟨buffer,ran,cells⟩ := @Buffer.write_ok 23 writer.columnPosition ⟨by decide,room⟩ writer.buffer ⟨byte,writer.colorCode⟩
  refine ⟨{writer with buffer, columnPosition := writer.columnPosition + 1},?_,rfl,rfl,cells⟩
  have stays : writer.wrap = .ok writer := if_neg (Nat.not_le.mpr room)
  rw [writeByte,if_neg printed,stays,ok_bind,show textHeight - 1 = 23 from rfl,ran]
  rfl

/-- A byte after a full row goes to a new one. -/
theorem writeByte_full (printed : byte ≠ 10) (full : 80 ≤ writer.columnPosition) :
    writer.writeByte byte = writer.newLine >>= fun writer => writer.writeByte byte := by
  obtain ⟨next,ran,scrolled⟩ := newLine_ok writer
  have left : writer.wrap = .ok next := (if_pos full).trans ran
  have stays : next.wrap = .ok next := if_neg (by rw [scrolled.column]; decide)
  rw [ran,ok_bind,writeByte,if_neg printed,left,writeByte,if_neg printed,stays]

theorem deleteLastChar_ok (some_char : 0 < writer.columnPosition) (room : writer.columnPosition ≤ 80) :
    ∃ next, writer.deleteLastChar = .ok next ∧ next.columnPosition = writer.columnPosition - 1 ∧
      Typed writer (writer.columnPosition - 1) 32 next := by
  obtain ⟨buffer,ran,cells⟩ :=
    @Buffer.write_ok 23 (writer.columnPosition - 1) ⟨by decide,by omega⟩ writer.buffer ⟨32,writer.colorCode⟩
  refine ⟨{writer with buffer, columnPosition := writer.columnPosition - 1},?_,rfl,rfl,cells⟩
  rw [deleteLastChar,if_pos some_char]
  dsimp only
  rw [show textHeight - 1 = 23 from rfl,ran]
  rfl

theorem clearScreen_ok (writer : Writer) : ∃ next, writer.clearScreen = .ok next ∧ next.columnPosition = 0 ∧
    ∀ r c, next.buffer r c = if r < 24 ∧ c < 80 then ⟨32,writer.colorCode⟩ else writer.buffer r c := by
  have each : ∀ row (state : Writer), 0 ≤ row → row < 0 + 24 → (state.colorCode = writer.colorCode ∧
      ∀ r c, state.buffer r c = if r < row ∧ c < 80 then ⟨32,writer.colorCode⟩ else writer.buffer r c) →
      ∃ next, clearRow state row = .ok next ∧ next.colorCode = writer.colorCode ∧
        ∀ r c, next.buffer r c = if r < row + 1 ∧ c < 80 then ⟨32,writer.colorCode⟩ else writer.buffer r c := by
    rintro row state _ last ⟨color,cleared⟩
    obtain ⟨buffer,ran,cells⟩ := @clearRow_ok row (by omega) state
    refine ⟨_,ran,color,?_⟩
    intro r c
    simp only [cells,cleared,color]
    grind
  have start : writer.colorCode = writer.colorCode ∧
      ∀ r c, writer.buffer r c = if r < 0 ∧ c < 80 then ⟨32,writer.colorCode⟩ else writer.buffer r c := by simp
  obtain ⟨final,ran,color,cells⟩ := foldlM_range each start
  refine ⟨{final with columnPosition := 0},?_,rfl,cells⟩
  rw [clearScreen,show textHeight = 24 from rfl,ran]
  rfl

end Writer

end PolarOs.Drivers
