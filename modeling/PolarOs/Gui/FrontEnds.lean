import PolarOs.Gui.Redirections
import PolarOs.Gui.SharedTree
import PolarOs.Gui.Wrapping
import PolarOs.Shell.Loop

/-! The two front ends under the same keys. The text shell and a terminal edit the line alike and run it
with the same effect on everything but the screen, where their redirection parsers agree. -/
namespace PolarOs
open Library Library.Checked Drivers

variable {δ μ : Type} {p : Platform δ μ}

/-- Worlds that differ in what was printed at most. -/
def Alike (world other : World δ μ) : Prop := ∃ console, other = {world with console}

variable {world other next after : World δ μ} {cwd moved : List Str} {pipeData output : Option Str}

theorem Alike.refl (world : World δ μ) : Alike world world := ⟨world.console,rfl⟩

theorem Alike.printed (same : Alike world other) (console : List Output) : Alike world {other with console} := by
  obtain ⟨_,rfl⟩ := same
  exact ⟨console,rfl⟩

theorem Alike.fs (same : Alike world other) : other.fs = world.fs := by
  obtain ⟨_,rfl⟩ := same
  rfl

theorem Alike.env (same : Alike world other) : other.env = world.env := by
  obtain ⟨_,rfl⟩ := same
  rfl

theorem Alike.withFs (same : Alike world other) (fs : RamFs) : Alike {world with fs} {other with fs} := by
  obtain ⟨console,rfl⟩ := same
  exact ⟨console,rfl⟩

theorem Alike.changed (same : Alike world other) (change : World δ μ → World δ μ) :
    Alike (world.changed change) (other.changed change) := by
  obtain ⟨console,rfl⟩ := same
  exact ⟨console,rfl⟩

/-! No command looks at the screen. -/

theorem Handler.run_alike {handler : Handler} {args result : Str} (same : Alike world other)
    (ran : handler.run p args cwd pipeData world = .ok (result,next)) :
    ∃ after, handler.run p args cwd pipeData other = .ok (result,after) ∧ Alike next after := by
  obtain ⟨console,rfl⟩ := same
  cases handler with
  | exec | fatls =>
    obtain ⟨_,done,returned⟩ := bind_ok.mp ran
    cases returned
    exact ⟨_,bind_ok.mpr ⟨_,done,rfl⟩,console,rfl⟩
  | _ =>
    cases ran
    exact ⟨_,rfl,console,rfl⟩

theorem runCommand_alike {cmd args result : Str} (same : Alike world other)
    (ran : runCommand p cmd args cwd pipeData world = .ok (result,moved,next)) :
    ∃ after, runCommand p cmd args cwd pipeData other = .ok (result,moved,after) ∧ Alike next after := by
  unfold runCommand at ran ⊢
  split at ran
  next clear =>
    cases ran
    rw [if_pos clear]
    exact ⟨_,rfl,by obtain ⟨_,rfl⟩ := same; exact ⟨_,rfl⟩⟩
  next other_name =>
    rw [if_neg other_name]
    split at ran
    next cd =>
      cases ran
      rw [if_pos cd,same.fs]
      exact ⟨other,rfl,same⟩
    next stays =>
      rw [if_neg stays]
      split at ran
      next load =>
        obtain ⟨_,done,returned⟩ := bind_ok.mp ran
        cases returned
        obtain ⟨console,rfl⟩ := same
        rw [if_pos load]
        exact ⟨_,bind_ok.mpr ⟨_,done,rfl⟩,console,rfl⟩
      next keeps =>
        rw [if_neg keeps]
        split at ran
        next handler _ =>
          obtain ⟨_,done,returned⟩ := bind_ok.mp ran
          cases returned
          obtain ⟨after,again,alike⟩ := Handler.run_alike same done
          exact ⟨after,bind_ok.mpr ⟨_,again,rfl⟩,alike⟩
        next =>
          cases ran
          exact ⟨other,rfl,same⟩

namespace Gui.TerminalWidget

variable {term last : TerminalWidget}

/-! The commands of a line. -/

theorem runPart_agrees {part : Str} (same : Alike world other)
    (ran : runPart p part pipeData term world = .ok (output,last,next)) :
    last.inputBuf = term.inputBuf ∧
      ∃ after, PolarOs.runPart p part pipeData term.cwd other = .ok (output,last.cwd,after) ∧ Alike next after := by
  unfold runPart at ran
  unfold PolarOs.runPart
  dsimp only at ran ⊢
  split at ran
  next blank =>
    cases ran
    rw [if_pos blank]
    exact ⟨rfl,other,rfl,same⟩
  next present =>
    rw [if_neg present]
    split at ran
    next clear =>
      cases ran
      refine ⟨rfl,_,?_,same.printed (other.console ++ [.clearScreen])⟩
      rw [runCommand,if_pos clear]
      rfl
    next =>
      obtain ⟨_,done,returned⟩ := bind_ok.mp ran
      cases returned
      obtain ⟨after,again,alike⟩ := runCommand_alike same done
      exact ⟨rfl,after,bind_ok.mpr ⟨_,again,rfl⟩,alike⟩

theorem runParts_agrees {parts : List Str} (same : Alike world other)
    (ran : runParts p parts pipeData term world = .ok (output,last,next)) :
    last.inputBuf = term.inputBuf ∧
      ∃ after, PolarOs.runParts p parts pipeData term.cwd other = .ok (output,last.cwd,after) ∧ Alike next after := by
  induction parts generalizing pipeData term world other with
  | nil =>
    cases ran
    exact ⟨rfl,other,rfl,same⟩
  | cons part parts ih =>
    obtain ⟨_,head,tail⟩ := bind_ok.mp ran
    obtain ⟨kept,middle,first,alike⟩ := runPart_agrees same head
    obtain ⟨still,after,rest,final⟩ := ih alike tail
    exact ⟨still.trans kept,after,bind_ok.mpr ⟨_,first,rest⟩,final⟩

theorem deliverOutput_agrees {redirOut redirAppend : Option Str} (same : Alike world other)
    (ran : deliverOutput redirOut redirAppend pipeData term world = .ok (last,next)) :
    last.entry = term.entry ∧
      Alike next (PolarOs.deliverOutput (outputMode redirOut redirAppend) pipeData term.cwd other) := by
  unfold deliverOutput at ran
  split at ran
  next =>
    cases ran
    exact ⟨rfl,same⟩
  next output =>
    split at ran
    next filename =>
      rw [outputMode,PolarOs.deliverOutput]
      rw [same.fs]
      rcases written : world.fs.write term.cwd filename (Utf8.encode output) with ⟨done,fs⟩
      rw [written] at ran
      cases done
      all_goals
        obtain ⟨_,pushed,returned⟩ := bind_ok.mp ran
        cases returned
        exact ⟨pushLine_entry pushed,(same.withFs fs).printed _⟩
    next filename =>
      rw [outputMode,PolarOs.deliverOutput]
      dsimp only at ran ⊢
      rw [same.fs]
      rcases written : world.fs.write term.cwd filename (appended ((world.fs.read term.cwd filename).getD []) output)
        with ⟨done,fs⟩
      rw [written] at ran
      cases done
      all_goals
        obtain ⟨_,pushed,returned⟩ := bind_ok.mp ran
        cases returned
        exact ⟨pushLine_entry pushed,(same.withFs fs).printed _⟩
    next =>
      rw [outputMode,PolarOs.deliverOutput]
      split at ran
      next blank =>
        cases ran
        rw [if_pos blank]
        exact ⟨rfl,same⟩
      next present =>
        obtain ⟨_,pushed,returned⟩ := bind_ok.mp ran
        cases returned
        rw [if_neg present]
        exact ⟨pushLines_entry pushed,same.printed _⟩

/-- On a plain line both parsers find the same redirections. -/
theorem parse_agrees {line : Str} (plain : Plain line) :
    redirect (parseRedirections line) = PolarOs.parseRedirections line := by
  by_cases append : Usable (lit ">>") line
  · exact agree_of_append append
  by_cases write : Str.rfind (lit ">>") line = none ∧ Usable (lit ">") line
  · exact agree_of_write write.1 write.2
  obtain usable | single | ⟨_,unusable,input⟩ := plain
  · exact absurd usable append
  · exact absurd single write
  · rw [redirect_parseRedirections (outputFiles_none append (not_and.mp write)),PolarOs.parseRedirections,
      appendRedirection_none append,writeRedirection_none unusable]
    exact (inputRedirection_agrees line).mpr input

/-- The line as the parsers get it. -/
def commandText (p : Platform δ μ) (term : TerminalWidget) (world : World δ μ) : Str :=
  Str.trim (expandEnvVars p.isAlphanumeric world.env (Str.trim term.inputBuf))

theorem executeCommand_blank (same : Alike world other) (blank : (Str.trim term.inputBuf).isEmpty)
    (ran : term.executeCommand p world = .ok (last,next)) : last.entry = ([],term.cwd) ∧ Alike next other := by
  obtain ⟨shown,pushed,ran⟩ := bind_ok.mp ran
  have echoed := pushLine_entry pushed
  rw [if_pos blank] at ran
  cases ran
  exact ⟨congrArg (fun entry => ([],entry.2)) echoed,same⟩

/-- The text shell starts the line as the terminal does. -/
theorem startLine_agrees {line pipelineStr : Str} {redirOut redirAppend redirIn : Option Str} (same : Alike world other)
    (present : ¬(Str.trim (expandEnvVars p.isAlphanumeric world.env line)).isEmpty)
    (parsed : PolarOs.parseRedirections (Str.trim (expandEnvVars p.isAlphanumeric world.env line)) =
      (pipelineStr,⟨redirIn,outputMode redirOut redirAppend⟩)) :
    (∀ pipeData, inputText redirIn term world = .ok pipeData → startLine p line term.cwd other =
      (some ⟨Str.split '|' pipelineStr,pipeData,outputMode redirOut redirAppend⟩,other)) ∧
    ∀ message, inputText redirIn term world = .error message →
      ∃ after, startLine p line term.cwd other = (none,after) ∧ Alike world after := by
  unfold startLine inputText
  dsimp only
  rw [same.env,if_neg present,parsed]
  cases redirIn with
  | none =>
    refine ⟨?_,(by intro message missing; cases missing)⟩
    intro pipeData found
    cases found
    rfl
  | some inputFile =>
    dsimp only
    rw [same.fs]
    cases world.fs.read term.cwd inputFile with
    | some data =>
      refine ⟨?_,(by intro message missing; cases missing)⟩
      intro pipeData found
      cases found
      rfl
    | none =>
      refine ⟨(by intro pipeData found; cases found),?_⟩
      intro message missing
      exact ⟨_,rfl,same.printed _⟩

theorem executeCommand_agrees (same : Alike world other) (plain : Plain (term.commandText p world))
    (typed : ¬(Str.trim term.inputBuf).isEmpty) (ran : term.executeCommand p world = .ok (last,next)) :
    last.inputBuf = [] ∧ ∃ after, executeLine p (Str.trim term.inputBuf) term.cwd other = .ok (last.cwd,after) ∧
      Alike next after := by
  obtain ⟨shown,pushed,ran⟩ := bind_ok.mp ran
  have echoed : shown.cwd = term.cwd := congrArg Prod.snd (pushLine_entry pushed)
  rw [if_neg typed] at ran
  dsimp only at ran
  rw [← echoed]
  unfold commandText at plain
  rw [executeLine]
  by_cases present : (Str.trim (expandEnvVars p.isAlphanumeric world.env (Str.trim term.inputBuf))).isEmpty
  · -- the expansion has left nothing: one part, which is blank
    have nothing : startLine p (Str.trim term.inputBuf) shown.cwd other = (none,other) := by
      rw [startLine]
      dsimp only
      rw [same.env,if_pos present]
    rw [List.isEmpty_iff.mp present] at ran
    cases ran
    rw [nothing]
    exact ⟨rfl,other,rfl,same⟩
  · have parsed := parse_agrees plain
    rcases found : parseRedirections (Str.trim (expandEnvVars p.isAlphanumeric world.env (Str.trim term.inputBuf)))
      with ⟨pipelineStr,redirOut,redirAppend,redirIn⟩
    rw [found] at ran parsed
    obtain ⟨started,refused⟩ := @startLine_agrees δ μ p world other {shown with inputBuf := []} _ _ _ _ _ same present
      parsed.symm
    dsimp only at ran started refused
    split at ran
    next message missing =>
      obtain ⟨after,ended,alike⟩ := refused message missing
      obtain ⟨_,pushed,returned⟩ := bind_ok.mp ran
      cases returned
      have kept := pushLine_entry pushed
      rw [ended]
      refine ⟨congrArg Prod.fst kept,after,?_,alike⟩
      rw [show last.cwd = shown.cwd from congrArg Prod.snd kept]
    next pipeData input =>
      obtain ⟨_,commands,delivered⟩ := bind_ok.mp ran
      obtain ⟨cleared,middle,again,alike⟩ := runParts_agrees same commands
      obtain ⟨kept,printed⟩ := deliverOutput_agrees alike delivered
      rw [started pipeData input]
      refine ⟨(congrArg Prod.fst kept).trans cleared,_,?_,printed⟩
      rw [show last.cwd = _ from congrArg Prod.snd kept]
      exact bind_ok.mpr ⟨_,again,rfl⟩

/-! The same inputs. -/

def receive (p : Platform δ μ) (state : TerminalWidget × World δ μ) : SessionInput δ μ → Checked (TerminalWidget × World δ μ)
  | .key key =>
    match keyOf key with
    | some key => do
      let (_,term,world) ← state.1.handleEvent p (.keyPress key) state.2
      return (term,world)
    | none => .ok state
  | .outside change => .ok (state.1,state.2.changed change)

/-- Every line is plain when it is executed. -/
def PlainLines (p : Platform δ μ) : List (SessionInput δ μ) → TerminalWidget × World δ μ → Prop
  | [],_ => True
  | input::inputs,state => (input = .key (.unicode '\n') → Plain (state.1.commandText p state.2)) ∧
    ∀ next, receive p state input = .ok next → PlainLines p inputs next

theorem receive_char (term : TerminalWidget) (world : World δ μ) {ch : Char} (other : ch ≠ '\n' ∧ ch ≠ '\x08' ∧ ch ≠ '\t') :
    receive p (term,world) (.key (.unicode ch)) = .ok (if ' ' ≤ ch ∧ byteLength term.inputBuf < maxInput
      then {term with inputBuf := term.inputBuf ++ [ch]} else term,world) := by
  by_cases escape : ch = '\x1B'
  · -- which is below the space
    subst escape
    rw [if_neg fun both => absurd both.1 (by decide)]
    rfl
  · have typed : keyOf (.unicode ch) = some (.char ch) := by
      rw [keyOf]
      · exact other.1
      · exact other.2.1
      · exact other.2.2
      · exact escape
    rw [receive,typed]
    dsimp only
    rw [handleEvent_char]
    rfl

end Gui.TerminalWidget

/-- Only the text shell completes words and recalls lines. -/
def SessionInput.Edits : SessionInput δ μ → Prop
  | .key pressed => pressed ≠ .unicode '\t' ∧ pressed ≠ .rawKey .arrowUp ∧ pressed ≠ .rawKey .arrowDown
  | .outside _ => True

theorem press_char (editor : LineEditor) {fs : RamFs} {ch : Char} (other : ch ≠ '\n' ∧ ch ≠ '\x08' ∧ ch ≠ '\t') :
    editor.press fs cwd (.char ch) = if ' ' ≤ ch ∧ Gui.byteLength editor.buf < maxLine then do
      let editor ← editor.append [ch]
      return (none,editor)
    else .ok (none,editor) := by
  rw [LineEditor.press]
  · exact fun same => other.1 same
  · exact fun same => other.2.1 same
  · exact fun same => other.2.2 same

/-- What the front ends share after the same inputs. -/
structure SameSession (shell : Shell δ μ) (state : Gui.TerminalWidget × World δ μ) : Prop where
  buf : shell.editor.buf = state.1.inputBuf
  cwd : shell.cwd = state.1.cwd
  world : Alike state.2 shell.world
  column : shell.editor.writer.columnPosition ≤ 80

namespace SameSession

open Gui Gui.TerminalWidget

variable {shell : Shell δ μ} {state result : TerminalWidget × World δ μ} {ch : Char}

theorem enter (same : SameSession shell state) (plain : Plain (state.1.commandText p state.2))
    (ran : TerminalWidget.receive p state (.key (.unicode '\n')) = .ok result) :
    ∃ last, shell.receive p (.key (.unicode '\n')) = .ok last ∧ SameSession last result := by
  obtain ⟨term,world⟩ := state
  obtain ⟨_,handled,returned⟩ := bind_ok.mp ran
  obtain ⟨⟨next,after⟩,executed,answered⟩ := bind_ok.mp handled
  cases answered
  cases returned
  have alike : Alike world {shell.world with console := []} := same.world.printed []
  by_cases blank : (Str.trim term.inputBuf).isEmpty
  · obtain ⟨entry,kept⟩ := executeCommand_blank same.world blank executed
    have unchanged : if (Str.trim shell.editor.buf).isEmpty then (shell.cwd,shell.world) = (shell.cwd,shell.world)
        else executeLine p (Str.trim shell.editor.buf) shell.cwd {shell.world with console := []} =
          .ok (shell.cwd,shell.world) := by rw [same.buf,if_pos blank]
    obtain ⟨history,writer,pressed,narrow⟩ := Shell.enter_ok same.column unchanged
    exact ⟨_,pressed,(congrArg Prod.fst entry).symm,same.cwd.trans (congrArg Prod.snd entry).symm,kept,narrow⟩
  · obtain ⟨cleared,final,line,kept⟩ := executeCommand_agrees alike plain blank executed
    have served : if (Str.trim shell.editor.buf).isEmpty then (next.cwd,final) = (shell.cwd,shell.world)
        else executeLine p (Str.trim shell.editor.buf) shell.cwd {shell.world with console := []} =
          .ok (next.cwd,final) := by rw [same.buf,if_neg blank,same.cwd,line]
    obtain ⟨history,writer,pressed,narrow⟩ := Shell.enter_ok same.column served
    exact ⟨_,pressed,cleared.symm,rfl,kept,narrow⟩

theorem backspace (same : SameSession shell state)
    (ran : TerminalWidget.receive p state (.key (.unicode '\x08')) = .ok result) :
    ∃ last, shell.receive p (.key (.unicode '\x08')) = .ok last ∧ SameSession last result := by
  cases ran
  change ∃ last, shell.press p (.char '\x08') = .ok last ∧ _
  rw [Shell.press,LineEditor.press]
  by_cases blank : shell.editor.buf.isEmpty
  · rw [if_pos blank]
    refine ⟨_,rfl,?_,same.cwd,same.world,same.column⟩
    rw [← same.buf,List.isEmpty_iff.mp blank]
    rfl
  · obtain ⟨writer,deleted,narrow⟩ := deleteLastChar_total same.column
    rw [if_neg blank,deleted]
    refine ⟨_,rfl,?_,same.cwd,same.world,narrow⟩
    rw [← same.buf]

/-- A character goes to both lines or to neither: the bounds of the two editors are one number. -/
theorem char (same : SameSession shell state) (other : ch ≠ '\n' ∧ ch ≠ '\x08' ∧ ch ≠ '\t')
    (ran : TerminalWidget.receive p state (.key (.unicode ch)) = .ok result) :
    ∃ last, shell.receive p (.key (.unicode ch)) = .ok last ∧ SameSession last result := by
  obtain ⟨term,world⟩ := state
  rw [receive_char term world other] at ran
  cases ran
  change ∃ last, shell.press p (.char ch) = .ok last ∧ _
  rw [Shell.press,press_char shell.editor other,same.buf]
  split
  next printable =>
    have room : ' ' ≤ ch ∧ byteLength term.inputBuf < maxInput := printable
    obtain ⟨writer,appended,narrow⟩ := append_total same.column [ch]
    rw [if_pos room,appended]
    exact ⟨_,rfl,congrArg (· ++ [ch]) same.buf,same.cwd,same.world,narrow⟩
  next refused =>
    have full : ¬(' ' ≤ ch ∧ byteLength term.inputBuf < maxInput) := refused
    rw [if_neg full]
    exact ⟨_,rfl,same⟩

/-- The front ends agree on one input. -/
theorem receive (same : SameSession shell state) {input : SessionInput δ μ} (edits : input.Edits)
    (plain : input = .key (.unicode '\n') → Plain (state.1.commandText p state.2))
    (ran : TerminalWidget.receive p state input = .ok result) :
    ∃ last, shell.receive p input = .ok last ∧ SameSession last result := by
  cases input with
  | outside change =>
    cases ran
    exact ⟨_,rfl,same.buf,same.cwd,same.world.changed change,same.column⟩
  | key pressed =>
    obtain ⟨completes,up,down⟩ := edits
    cases pressed with
    | unicode ch =>
      by_cases newline : ch = '\n'
      · subst newline
        exact same.enter (plain rfl) ran
      by_cases erase : ch = '\x08'
      · subst erase
        exact same.backspace ran
      · exact same.char ⟨newline,erase,fun tab => completes (by rw [tab])⟩ ran
    | rawKey key =>
      cases key with
      | arrowUp => exact absurd rfl up
      | arrowDown => exact absurd rfl down
      | _ =>
        cases ran
        exact ⟨shell,rfl,same⟩

end SameSession

/-- Under the same keys, with the rest of the system changing alike between them, the text shell does
whatever a terminal does: the line, the directory and the world stay the same but for the screen. -/
theorem front_ends_agree (p : Platform δ μ) {inputs : List (SessionInput δ μ)} {shell : Shell δ μ}
    {state result : Gui.TerminalWidget × World δ μ} (same : SameSession shell state)
    (edits : ∀ input ∈ inputs, input.Edits) (plain : Gui.TerminalWidget.PlainLines p inputs state)
    (ran : inputs.foldlM (Gui.TerminalWidget.receive p) state = .ok result) :
    ∃ last, inputs.foldlM (Shell.receive p) shell = .ok last ∧ SameSession last result := by
  induction inputs generalizing shell state with
  | nil =>
    cases ran
    exact ⟨shell,rfl,same⟩
  | cons input inputs ih =>
    rw [List.foldlM_cons] at ran
    obtain ⟨middle,first,rest⟩ := bind_ok.mp ran
    obtain ⟨line,later⟩ := plain
    obtain ⟨reached,began,agree⟩ := same.receive (edits input List.mem_cons_self) line first
    obtain ⟨last,ended,final⟩ := ih agree (fun other member => edits other (List.mem_cons_of_mem _ member))
      (later middle first) rest
    refine ⟨last,?_,final⟩
    rw [List.foldlM_cons,began]
    exact ended

open Gui.TerminalWidget in
/-- The last letter of `mkdir e` and the key that executes it. -/
theorem front_ends_agree_mkdir : ∃ last : Shell Unit Unit,
    [.key (.unicode 'e'),.key (.unicode '\n')].foldlM (Shell.receive bareMachine)
      ⟨⟨lit "mkdir ",.new,⟨0,10,fun _ _ => ⟨32,10⟩⟩⟩,[],sharedWorld⟩ = .ok last ∧
    SameSession last ({rootTerminal [] with lines := [lit "/> mkdir e",lit "Utworzono katalog 'e'."]},
      {sharedWorld with fs := (sharedWorld.fs.mkdir [] ['e']).2}) := by
  have handled : (rootTerminal (lit "mkdir e")).handleEvent bareMachine (.keyPress .enter) sharedWorld =
      .ok (.consumed,{rootTerminal [] with lines := [lit "/> mkdir e",lit "Utworzono katalog 'e'."]},
        {sharedWorld with fs := (sharedWorld.fs.mkdir [] ['e']).2}) := by
    rw [handleEvent_enter,mkdir_line_runs]
    rfl
  have executed : receive bareMachine (rootTerminal (lit "mkdir e"),sharedWorld) (.key (.unicode '\n')) = .ok _ :=
    bind_ok.mpr ⟨_,handled,rfl⟩
  have same : SameSession (⟨⟨lit "mkdir ",.new,⟨0,10,fun _ _ => ⟨32,10⟩⟩⟩,[],sharedWorld⟩ : Shell Unit Unit)
    (rootTerminal (lit "mkdir "),sharedWorld) := ⟨rfl,rfl,.refl _,Nat.zero_le _⟩
  have absent : Str.rfind ['>'] (lit "mkdir e") = none ∧ Str.rfind (lit ">>") (lit "mkdir e") = none ∧
    Str.rfind ['<'] (lit "mkdir e") = none := by decide
  have plain : Plain ((rootTerminal (lit "mkdir e")).commandText bareMachine sharedWorld) := by
    rw [commandText,expandEnvVars_plain _ _ (by decide)]
    refine Or.inr (Or.inr ⟨?_,?_,?_⟩)
    · rintro ⟨pos,filename,found,_⟩
      cases absent.2.1.symm.trans found
    · rintro ⟨pos,filename,found,_⟩
      cases absent.1.symm.trans found
    · intro pos found
      cases absent.2.2.symm.trans found
  refine front_ends_agree bareMachine same ?_ ?_ (bind_ok.mpr ⟨_,rfl,bind_ok.mpr ⟨_,executed,rfl⟩⟩)
  · simp [SessionInput.Edits]
  · refine ⟨(by intro enter; cases enter),?_⟩
    intro next typed
    cases typed
    exact ⟨fun _ => plain,fun _ _ => trivial⟩

end PolarOs
