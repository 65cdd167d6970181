import PolarOs.Shell.Echo
import PolarOs.Shell.ReadKey

/-! The loop of the text shell (`shell::run`). A key goes to the line editor; a finished line goes to
the history and to `execute_line`, and what that prints is on the screen before the next prompt. -/
namespace PolarOs
open Library Library.Checked Drivers

variable {δ μ : Type}

def Color.onScreen : Color → Drivers.Color
  | .lightRed => .lightRed
  | .lightGreen => .lightGreen

def Output.show (output : Output) (writer : Writer) : Checked Writer :=
  match output with
  | .print text => writer.writeString text
  | .setColor foreground => .ok (writer.setColor foreground.onScreen .black)
  | .clearScreen => writer.clearScreen

/-- What happens in the world between two keys, which no screen has a part in. -/
def World.changed (change : World δ μ → World δ μ) (world : World δ μ) : World δ μ :=
  {change {world with console := []} with console := world.console}

inductive SessionInput (δ μ : Type) where
  | key (key : DecodedKey)
  | outside (change : World δ μ → World δ μ)

structure Shell (δ μ : Type) where
  editor : LineEditor
  cwd : List Str
  world : World δ μ

namespace Shell

/-- The round of the loop behind `read_line`. -/
def serve (p : Platform δ μ) (line : Str) (shell : Shell δ μ) : Checked (Shell δ μ) :=
  let trimmed := Str.trim line
  if trimmed.isEmpty then .ok shell
  else do
    let history := shell.editor.history.push trimmed
    let (cwd,world) ← executeLine p trimmed shell.cwd {shell.world with console := []}
    let writer ← world.console.foldlM (fun writer output => Output.show output writer) shell.editor.writer
    return ⟨{shell.editor with history, writer},cwd,world⟩

/-- The prompt, and an empty line behind it. -/
def prompt (shell : Shell δ μ) : Checked (Shell δ μ) := do
  let writer ← printPrompt shell.cwd shell.editor.writer
  return {shell with editor := {shell.editor with buf := [], writer}}

def press (p : Platform δ μ) (key : KeyEvent) (shell : Shell δ μ) : Checked (Shell δ μ) := do
  let (line,editor) ← shell.editor.press shell.world.fs shell.cwd key
  match line with
  | none => return {shell with editor}
  | some line => do
    let shell ← serve p line {shell with editor}
    shell.prompt

def receive (p : Platform δ μ) (shell : Shell δ μ) : SessionInput δ μ → Checked (Shell δ μ)
  | .key key =>
    match keyEvent key with
    | some key => shell.press p key
    | none => .ok shell
  | .outside change => .ok {shell with world := shell.world.changed change}

end Shell

/-! The screen never stops the shell. -/

variable {writer : Writer} {cwd : List Str}

theorem setColor_narrow (inside : writer.columnPosition ≤ 80) (foreground background : Drivers.Color) :
    (writer.setColor foreground background).columnPosition ≤ 80 := inside

theorem Output.show_total (inside : writer.columnPosition ≤ 80) (output : Output) :
    ∃ next, output.show writer = .ok next ∧ next.columnPosition ≤ 80 := by
  cases output with
  | print text => exact writeString_total inside text
  | setColor foreground => exact ⟨_,rfl,inside⟩
  | clearScreen =>
    obtain ⟨next,ran,column,_⟩ := Writer.clearScreen_ok writer
    exact ⟨next,ran,by simp [column]⟩

theorem prints_total (inside : writer.columnPosition ≤ 80) (outputs : List Output) :
    ∃ next, outputs.foldlM (fun writer output => Output.show output writer) writer = .ok next ∧
      next.columnPosition ≤ 80 := by
  induction outputs generalizing writer with
  | nil => exact ⟨writer,rfl,inside⟩
  | cons output outputs ih =>
    obtain ⟨middle,first,narrow⟩ := output.show_total inside
    obtain ⟨next,rest,final⟩ := ih narrow
    refine ⟨next,?_,final⟩
    rw [List.foldlM_cons,first]
    exact rest

theorem printPrompt_total (inside : writer.columnPosition ≤ 80) (cwd : List Str) :
    ∃ next, printPrompt cwd writer = .ok next ∧ next.columnPosition ≤ 80 := by
  obtain ⟨first,named,narrow⟩ := writeString_total (setColor_narrow inside .lightCyan .black) (lit "myos")
  obtain ⟨second,parted,narrow⟩ := writeString_total (setColor_narrow narrow .white .black) (lit ":")
  obtain ⟨third,placed,narrow⟩ := writeString_total narrow (if cwd.isEmpty then lit "/" else cwd.flatMap ('/' :: ·))
  obtain ⟨last,ended,narrow⟩ := writeString_total narrow (lit "> ")
  refine ⟨last.setColor .lightGreen .black,?_,narrow⟩
  simp only [printPrompt,printPath_eq]
  rw [named,ok_bind,parted,ok_bind,placed,ok_bind,ended]
  rfl

theorem deleteLastChar_total (inside : writer.columnPosition ≤ 80) :
    ∃ next, writer.deleteLastChar = .ok next ∧ next.columnPosition ≤ 80 := by
  by_cases some_char : 0 < writer.columnPosition
  · obtain ⟨next,ran,column,_⟩ := Writer.deleteLastChar_ok some_char inside
    exact ⟨next,ran,by omega⟩
  · exact ⟨writer,if_neg some_char,inside⟩

theorem append_total {editor : LineEditor} (inside : editor.writer.columnPosition ≤ 80) (s : Str) :
    ∃ writer, editor.append s = .ok {editor with buf := editor.buf ++ s, writer} ∧ writer.columnPosition ≤ 80 := by
  obtain ⟨writer,ran,narrow⟩ := writeString_total inside s
  refine ⟨writer,?_,narrow⟩
  rw [LineEditor.append,ran]
  rfl

namespace Shell

variable {p : Platform δ μ} {shell : Shell δ μ}

theorem prompt_total (inside : shell.editor.writer.columnPosition ≤ 80) :
    ∃ writer, shell.prompt = .ok {shell with editor := {shell.editor with buf := [], writer}} ∧
      writer.columnPosition ≤ 80 := by
  obtain ⟨writer,ran,narrow⟩ := printPrompt_total inside shell.cwd
  refine ⟨writer,?_,narrow⟩
  rw [prompt,ran]
  rfl

/-- Enter executes the line, unless it is blank, and leaves an empty one. -/
theorem enter_ok (inside : shell.editor.writer.columnPosition ≤ 80) {cwd : List Str} {world : World δ μ}
    (ran : if (Str.trim shell.editor.buf).isEmpty then (cwd,world) = (shell.cwd,shell.world)
      else executeLine p (Str.trim shell.editor.buf) shell.cwd {shell.world with console := []} = .ok (cwd,world)) :
    ∃ history writer, shell.press p (.char '\n') = .ok ⟨⟨[],history,writer⟩,cwd,world⟩ ∧ writer.columnPosition ≤ 80 := by
  obtain ⟨broken,newline,narrow⟩ := writeString_total inside (lit "\n")
  have finished : shell.editor.press shell.world.fs shell.cwd (.char '\n') =
      .ok (some shell.editor.buf,{shell.editor with writer := broken}) := by
    rw [LineEditor.press,newline]
    rfl
  rw [press,finished,ok_bind]
  dsimp only
  rw [serve]
  dsimp only
  split at ran
  next blank =>
    cases ran
    obtain ⟨writer,prompted,final⟩ :=
      @prompt_total δ μ {shell with editor := {shell.editor with writer := broken}} narrow
    exact ⟨shell.editor.history,writer,by rw [if_pos blank]; exact prompted,final⟩
  next present =>
    obtain ⟨printed,shown,narrow⟩ := prints_total narrow world.console
    obtain ⟨writer,prompted,final⟩ := @prompt_total δ μ
      ⟨⟨shell.editor.buf,shell.editor.history.push (Str.trim shell.editor.buf),printed⟩,cwd,world⟩ narrow
    refine ⟨shell.editor.history.push (Str.trim shell.editor.buf),writer,?_,final⟩
    rw [if_neg present,ran,ok_bind]
    dsimp only
    rw [shown]
    exact prompted

end Shell

end PolarOs
