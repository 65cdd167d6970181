import PolarOs.Shell.Dispatch
import PolarOs.Shell.History
import PolarOs.Drivers.TextScreen
import PolarOs.Gui.Wrapping

/-! The line editor of the shell (`read_line` in `shell/mod.rs`) with the completion of words
(`shell/completion.rs`). Lengths count bytes, as in the source. -/
namespace PolarOs
open Library Library.Checked Drivers

def maxLine : Nat := 256

/-- `KeyEvent` of the keyboard driver. -/
inductive KeyEvent where
  | char (c : Char)
  | arrowUp
  | arrowDown
deriving DecidableEq

/-- The start of the last word in bytes, and what may stand there. -/
def tabComplete (input : Str) (fs : RamFs) (cwd : List Str) : Nat × List Str :=
  match Str.rfind [' '] input with
  | some spacePos =>
    let wordStart := Gui.byteLength (input.take (spacePos + 1))
    let word := input.drop (spacePos + 1)
    (wordStart,(fs.names cwd).filter fun n => word.isPrefixOf n)
  | none => (0,(commandTable.map CommandEntry.name).filter fun name => input.isPrefixOf name)

/-- The index of the first two bytes that differ. -/
def firstMismatch : Bytes → Bytes → Option Nat
  | a::first, b::s => if a ≠ b then some 0 else (firstMismatch first s).map (· + 1)
  | _, _ => none

/-- The body of the loop in `common_prefix`. -/
def commonLength (first : Str) (len : Nat) (s : Str) : Nat :=
  let len := min len (Gui.byteLength s)
  match firstMismatch (Utf8.encode first) (Utf8.encode s) with
  | some i => min len i
  | none => len

def sharedLength (first : Str) (rest : List Str) : Nat := rest.foldl (commonLength first) (Gui.byteLength first)

def commonPrefix : List Str → Checked Str
  | [] => .ok []
  | first::rest => do
    let (shared,_) ← Gui.splitAt (sharedLength first rest) first
    return shared

def printPath (cwd : List Str) (writer : Writer) : Checked Writer :=
  if cwd.isEmpty then writer.writeString (lit "/")
  else cwd.foldlM (fun (writer : Writer) component => writer.writeString (lit "/" ++ component)) writer

/-- `print_prompt`, which changes the colour between its parts. -/
def printPrompt (cwd : List Str) (writer : Writer) : Checked Writer := do
  let writer ← (writer.setColor .lightCyan .black).writeString (lit "myos")
  let writer ← (writer.setColor .white .black).writeString (lit ":")
  let writer ← printPath cwd writer
  let writer ← writer.writeString (lit "> ")
  return writer.setColor .lightGreen .black

def clearInput (len : Nat) (writer : Writer) : Checked Writer :=
  (List.range len).foldlM (fun (writer : Writer) _ => writer.deleteLastChar) writer

structure LineEditor where
  buf : Str
  history : CommandHistory
  writer : Writer

namespace LineEditor

/-- `buf.push_str(s)` and `print!("{}", s)`. -/
def append (editor : LineEditor) (s : Str) : Checked LineEditor := do
  let writer ← editor.writer.writeString s
  return {editor with buf := editor.buf ++ s, writer}

/-- The list of completions, and the line once more below it. -/
def listCompletions (cwd completions : List Str) (editor : LineEditor) : Checked LineEditor := do
  let writer ← editor.writer.writeString (lit "\n")
  let writer ← completions.foldlM (fun (writer : Writer) c => writer.writeString (lit "  " ++ c)) writer
  let writer ← writer.writeString (lit "\n")
  let writer ← printPrompt cwd writer
  let writer ← writer.writeString editor.buf
  return {editor with writer}

def tab (fs : RamFs) (cwd : List Str) (editor : LineEditor) : Checked LineEditor := do
  let (wordStart,completions) := tabComplete editor.buf fs cwd
  let partialLen ← Checked.sub (Gui.byteLength editor.buf) wordStart
  match completions with
  | [] => return editor
  | [only] => do
    let (_,suffix) ← Gui.splitAt partialLen only
    editor.append suffix
  | _ => do
    let shared ← commonPrefix completions
    if partialLen < Gui.byteLength shared then
      let (_,suffix) ← Gui.splitAt partialLen shared
      editor.append suffix
    else editor.listCompletions cwd completions

/-- `clear_input(buf.len())` and `buf.clear()`. -/
def clear (editor : LineEditor) : Checked LineEditor := do
  let writer ← clearInput (Gui.byteLength editor.buf) editor.writer
  return {editor with buf := [], writer}

/-- One round of the loop in `read_line`: the line if it is finished, and the state. -/
def press (fs : RamFs) (cwd : List Str) (key : KeyEvent) (editor : LineEditor) : Checked (Option Str × LineEditor) :=
  match key with
  | .char '\n' => do
    let writer ← editor.writer.writeString (lit "\n")
    return (some editor.buf,{editor with writer})
  | .char '\x08' =>
    if editor.buf.isEmpty then .ok (none,editor)
    else do
      let writer ← editor.writer.deleteLastChar
      return (none,{editor with buf := editor.buf.dropLast, writer})
  | .char '\t' => do
    let editor ← editor.tab fs cwd
    return (none,editor)
  | .char c =>
    if ' ' ≤ c ∧ Gui.byteLength editor.buf < maxLine then do
      let editor ← editor.append [c]
      return (none,editor)
    else .ok (none,editor)
  | .arrowUp => do
    let (entry,history) ← editor.history.up
    match entry with
    | some entry => do
      let editor ← clear {editor with history}
      let editor ← editor.append entry
      return (none,editor)
    | none => return (none,{editor with history})
  | .arrowDown => do
    let editor ← editor.clear
    let (entry,history) ← editor.history.down
    match entry with
    | some entry => do
      let editor ← append {editor with history} entry
      return (none,editor)
    | none => return (none,{editor with history})

/-- `read_line` with these keys: the line, if one of them has finished it, and the state. -/
def readLine (fs : RamFs) (cwd : List Str) : List KeyEvent → LineEditor → Checked (Option Str × LineEditor)
  | [],editor => .ok (none,editor)
  | key::keys,editor => do
    let (line,editor) ← editor.press fs cwd key
    match line with
    | some line => return (some line,editor)
    | none => readLine fs cwd keys editor

end LineEditor

end PolarOs
