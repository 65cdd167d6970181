import PolarOs.Shell.Line
import PolarOs.Gui.Widget

/-! The terminal widget (`gui/widget/terminal.rs`): its scrollback, its line editor and the
commands it runs. Widths count bytes, as in the source; cutting inside a character faults. -/
namespace PolarOs.Gui
open Library Library.Checked

variable {δ μ : Type}

def maxScrollback : Nat := 100

def maxInput : Nat := 256

/-- `CHAR_WIDTH` of the font. -/
def charWidth : Nat := 8

/-- `text.len()`. -/
def byteLength (text : Str) : Nat := (Utf8.encode text).length

/-- `text.split_at(mid)`. -/
def splitAt (mid : Nat) : Str → Checked (Str × Str)
  | [] => if mid = 0 then .ok ([],[]) else .error .panic
  | c::text =>
    if mid = 0 then .ok ([],c::text)
    else if c.utf8Size ≤ mid then do
      let (left,right) ← splitAt (mid - c.utf8Size) text
      return (c::left,right)
    else .error .panic

structure TerminalWidget where
  id : Nat
  x : Int16
  y : Int16
  w : UInt16
  h : UInt16
  lines : List Str
  inputBuf : Str
  cursorVisible : Bool
  cursorBlinkTick : Nat
  cwd : List Str
deriving DecidableEq

/-- The loop of `push_line`; every round but the last consumes at least one byte. -/
def wrapLine (cols : Nat) : Nat → Str → Checked (List Str)
  | 0,_ => .error .fuel
  | fuel + 1,remaining =>
    if byteLength remaining ≤ cols then .ok [remaining]
    else do
      let (left,right) ← splitAt cols remaining
      let rest ← wrapLine cols fuel right
      return left::rest

namespace TerminalWidget

def cols (term : TerminalWidget) : Nat := term.w.toNat / charWidth

def pushLine (term : TerminalWidget) (text : Str) : Checked TerminalWidget :=
  if term.cols = 0 then .ok term
  else do
    let pieces ← wrapLine term.cols (byteLength text + 1) text
    let lines := term.lines ++ pieces
    return {term with lines := lines.drop (lines.length - maxScrollback)}

def pushLines (term : TerminalWidget) : List Str → Checked TerminalWidget
  | [] => .ok term
  | line::lines => do
    let term ← term.pushLine line
    term.pushLines lines

def new (id : Nat) (x y : Int16) (w h : UInt16) : Checked TerminalWidget :=
  pushLines ⟨id,x,y,w,h,[],[],true,0,[]⟩
    [lit "PolarOs Terminal v0.1.0",lit "Wpisz 'help' aby zobaczyc komendy.",[]]

def prompt (term : TerminalWidget) : Str :=
  if term.cwd.isEmpty then lit "/> "
  else term.cwd.flatMap (fun c => '/'::c) ++ lit "> "

/-- A file name after an operator: present, and not cut off by a pipe. -/
def outputName (text : Str) : Option Str :=
  let filename := Str.trim text
  if filename.isEmpty || filename.contains '|' then none else some filename

/-- The output files to write and to append to, with the text before the operator. A `>>`
without a usable name does not fall back to a single `>`. -/
def outputFiles (line : Str) : Str × Option Str × Option Str :=
  match Str.rfind (lit ">>") line with
  | some pos =>
    match outputName (line.drop (pos + 2)) with
    | some filename => (line.take pos,none,some filename)
    | none => (line,none,none)
  | none =>
    match Str.rfind ['>'] line with
    | some pos =>
      match outputName (line.drop (pos + 1)) with
      | some filename => (line.take pos,some filename,none)
      | none => (line,none,none)
    | none => (line,none,none)

/-- The pipeline text, the file to write, the file to append to and the input file. -/
def parseRedirections (line : Str) : Str × Option Str × Option Str × Option Str :=
  let (remaining,writeFile,appendFile) := outputFiles line
  match Str.rfind ['<'] remaining with
  | some pos =>
    let filename := Str.trim (remaining.drop (pos + 1))
    if filename.isEmpty then (remaining,writeFile,appendFile,none)
    else (remaining.take pos,writeFile,appendFile,some filename)
  | none => (remaining,writeFile,appendFile,none)

/-- The body of the loop over the parts; `clear` empties the scrollback. -/
def runPart (p : Platform δ μ) (part : Str) (pipeData : Option Str) (term : TerminalWidget) (world : World δ μ) :
    Checked (Option Str × TerminalWidget × World δ μ) := do
  let part := Str.trim part
  if part.isEmpty then return (pipeData,term,world)
  let (cmd,args) := (Str.splitOnce ' ' part).getD (part,[])
  if cmd = lit "clear" then return (some [],{term with lines := []},world)
  let (output,cwd,world) ← runCommand p cmd args term.cwd pipeData world
  return (some output,{term with cwd},world)

def runParts (p : Platform δ μ) : List Str → Option Str → TerminalWidget → World δ μ →
    Checked (Option Str × TerminalWidget × World δ μ)
  | [],pipeData,term,world => .ok (pipeData,term,world)
  | part::parts,pipeData,term,world => do
    let (pipeData,term,world) ← runPart p part pipeData term world
    runParts p parts pipeData term world

def deliverOutput (redirOut redirAppend pipeData : Option Str) (term : TerminalWidget) (world : World δ μ) :
    Checked (TerminalWidget × World δ μ) :=
  match pipeData with
  | none => .ok (term,world)
  | some output =>
    match redirOut,redirAppend with
    | some filename,_ =>
      match world.fs.write term.cwd filename (Utf8.encode output) with
      | (true,fs) => do
        return (← term.pushLine (lit "Zapisano do '" ++ filename ++ lit "'."),{world with fs})
      | (false,fs) => do
        return (← term.pushLine (lit "Nie mozna zapisac do '" ++ filename ++ lit "'."),{world with fs})
    | none,some filename =>
      let existing := (world.fs.read term.cwd filename).getD []
      match world.fs.write term.cwd filename (appended existing output) with
      | (true,fs) => do
        return (← term.pushLine (lit "Dopisano do '" ++ filename ++ lit "'."),{world with fs})
      | (false,fs) => do
        return (← term.pushLine (lit "Nie mozna dopisac do '" ++ filename ++ lit "'."),{world with fs})
    | none,none => do
      if output.isEmpty then return (term,world)
      return (← term.pushLines (Str.lines output),world)

/-- The text the first command reads, or the message about a missing input file. -/
def inputText (redirIn : Option Str) (term : TerminalWidget) (world : World δ μ) : Except Str (Option Str) :=
  match redirIn with
  | none => .ok none
  | some inputFile =>
    match world.fs.read term.cwd inputFile with
    | some data => .ok (some (Str.ofBytesOr data []))
    | none => .error (lit "Plik '" ++ inputFile ++ lit "' nie istnieje.")

def executeCommand (p : Platform δ μ) (term : TerminalWidget) (world : World δ μ) :
    Checked (TerminalWidget × World δ μ) := do
  let cmd := term.inputBuf
  let term ← term.pushLine (term.prompt ++ cmd)
  let term := {term with inputBuf := []}
  if (Str.trim cmd).isEmpty then return (term,world)
  let trimmed := Str.trim (expandEnvVars p.isAlphanumeric world.env (Str.trim cmd))
  let (pipelineStr,redirOut,redirAppend,redirIn) := parseRedirections trimmed
  match inputText redirIn term world with
  | .error message => return (← term.pushLine message,world)
  | .ok pipeData => do
    let (pipeData,term,world) ← runParts p (Str.split '|' pipelineStr) pipeData term world
    deliverOutput redirOut redirAppend pipeData term world

def handleEvent (p : Platform δ μ) (term : TerminalWidget) (event : Event) (world : World δ μ) :
    Checked (EventResponse × TerminalWidget × World δ μ) :=
  match event with
  | .keyPress (.char ch) =>
    if ' ' ≤ ch ∧ byteLength term.inputBuf < maxInput then
      .ok (.consumed,{term with inputBuf := term.inputBuf ++ [ch]},world)
    else .ok (.consumed,term,world)
  | .keyPress .enter => do
    let (term,world) ← term.executeCommand p world
    return (.consumed,term,world)
  | .keyPress .backspace => .ok (.consumed,{term with inputBuf := term.inputBuf.dropLast},world)
  | .tick => do
    let ticks ← add 32 term.cursorBlinkTick 1
    if 25 ≤ ticks then
      return (.ignored,{term with cursorBlinkTick := 0, cursorVisible := !term.cursorVisible},world)
    return (.ignored,{term with cursorBlinkTick := ticks},world)
  | _ => .ok (.ignored,term,world)

theorem handleEvent_char (p : Platform δ μ) (term : TerminalWidget) (ch : Char) (world : World δ μ) :
    term.handleEvent p (.keyPress (.char ch)) world = .ok (.consumed,if ' ' ≤ ch ∧ byteLength term.inputBuf < maxInput
      then {term with inputBuf := term.inputBuf ++ [ch]} else term,world) := by
  by_cases room : ' ' ≤ ch ∧ byteLength term.inputBuf < maxInput
  · rw [if_pos room]
    exact if_pos room
  · rw [if_neg room]
    exact if_neg room

theorem handleEvent_enter (p : Platform δ μ) (term : TerminalWidget) (world : World δ μ) :
    term.handleEvent p (.keyPress .enter) world = (do
      let (term,world) ← term.executeCommand p world
      return (.consumed,term,world)) := rfl

end TerminalWidget

end PolarOs.Gui
