import PolarOs.Gui.Terminal
import PolarOs.Shell.Session

/-! Two terminals over one tree: what a line that runs in one of them may do to the directory in
which the other stands. Only a removal of that very directory and a load can take it away. -/
namespace PolarOs
open Library Library.Checked

variable {δ μ : Type}

theorem write_spares {fs next : RamFs} {other cwd : List Str} {name : Str} {data : Bytes} {done : Bool}
    (written : fs.write cwd name data = (done,next)) (stands : Stands fs other) : Stands next other := by
  have kept := FsOp.apply_spares cwd (.write name data) nofun stands
  rw [FsOp.apply,written] at kept
  exact kept

/-- A directory goes exactly when it is the one named and nothing is in it. -/
theorem remove_strands {fs next : RamFs} {other cwd : List Str} {name : Str} {result : RemoveResult}
    (removed : fs.remove cwd name = (result,next)) (stands : Stands fs other) :
    Stands next other ↔ ¬(other = cwd ++ [name] ∧ fs.tree.Childless other) := by
  have tree := (fs.remove_refines cwd name).2
  rw [removed] at tree
  unfold Stands at *
  rw [tree,PathMap.remove]
  split
  next present =>
    split
    next childless =>
      rw [PathMap.set_node]
      by_cases same : other = cwd ++ [name]
      · subst same
        rw [Function.update_self]
        exact iff_of_false (Option.some_ne_none _).symm (fun spared => spared ⟨rfl,childless⟩)
      · rw [Function.update_of_ne same]
        exact iff_of_true stands (fun both => same both.1)
    next full =>
      refine iff_of_true stands ?_
      rintro ⟨rfl,childless⟩
      exact full childless
  next absent =>
    refine iff_of_true stands ?_
    rintro ⟨rfl,-⟩
    rw [stands] at absent
    exact absent (Option.some_ne_none _)

/-! The handlers. -/

/-- `rm` with these arguments removes the directory. -/
def RemovesDir (fs : RamFs) (args : Str) (cwd other : List Str) : Prop :=
  ∃ name, (Str.splitWhitespace args).head? = some name ∧ other = cwd ++ [name] ∧ fs.tree.Childless other

theorem cmdRm_strands {fs : RamFs} {args : Str} {cwd other : List Str} (stands : Stands fs other) :
    Stands (cmdRm fs args cwd).2 other ↔ ¬RemovesDir fs args cwd other := by
  unfold cmdRm RemovesDir
  split
  next missing =>
    refine iff_of_true stands ?_
    rintro ⟨name,named,-⟩
    rw [missing] at named
    cases named
  next name named =>
    have only : (∃ n, (Str.splitWhitespace args).head? = some n ∧ other = cwd ++ [n] ∧ fs.tree.Childless other) ↔
        other = cwd ++ [name] ∧ fs.tree.Childless other := by
      rw [named]
      constructor
      · rintro ⟨n,same,both⟩
        cases same
        exact both
      · exact fun both => ⟨name,rfl,both⟩
    rw [only]
    split <;> next removed => exact remove_strands removed stands

theorem cmdTouch_spares {fs : RamFs} {other : List Str} (args : Str) (cwd : List Str) (stands : Stands fs other) :
    Stands (cmdTouch fs args cwd).2 other := by
  unfold cmdTouch
  split
  next => exact stands
  next name _ =>
    have kept := FsOp.apply_spares cwd (.create name) nofun stands
    split <;> next created => exact congrArg Prod.snd created ▸ kept

theorem cmdMkdir_spares {fs : RamFs} {other : List Str} (args : Str) (cwd : List Str) (stands : Stands fs other) :
    Stands (cmdMkdir fs args cwd).2 other := by
  unfold cmdMkdir
  split
  next => exact stands
  next name _ =>
    have kept := FsOp.apply_spares cwd (.mkdir name) nofun stands
    split <;> next made => exact congrArg Prod.snd made ▸ kept

theorem cmdWrite_spares {fs : RamFs} {other : List Str} (args : Str) (cwd : List Str) (stands : Stands fs other) :
    Stands (cmdWrite fs args cwd).2 other := by
  unfold cmdWrite
  split
  next => exact stands
  next =>
    split
    next => exact stands
    next => split <;> next written => exact write_spares written stands

theorem cmdCp_spares {fs : RamFs} {other : List Str} (args : Str) (cwd : List Str) (stands : Stands fs other) :
    Stands (cmdCp fs args cwd).2 other := by
  unfold cmdCp
  split
  next => exact stands
  next =>
    simp only
    split
    next => exact stands
    next => split <;> next written => exact write_spares written stands

/-- What a move removes was read as a file. -/
theorem cmdMv_spares {fs : RamFs} {other : List Str} (args : Str) (cwd : List Str) (stands : Stands fs other) :
    Stands (cmdMv fs args cwd).2 other := by
  unfold cmdMv
  split
  next => exact stands
  next src rest _ =>
    simp only
    split
    next => exact stands
    next =>
      split
      next => exact stands
      next data source =>
        split
        next written =>
          refine FsOp.apply_spares cwd (.remove src) ?_ (write_spares written stands)
          intro name same there
          cases same
          have file := (fs.read_refines cwd src data).mp source
          rw [← there,show fs.tree.node other = some .dir from stands] at file
          cases file
        next written => exact write_spares written stands

theorem Handler.run_strands {p : Platform δ μ} {handler : Handler} {args : Str} {cwd other : List Str}
    {pipeInput : Option Str} {world next : World δ μ} {output : Str} (stands : Stands world.fs other)
    (ran : handler.run p args cwd pipeInput world = .ok (output,next)) :
    Stands next.fs other ↔ ¬(handler = .rm ∧ RemovesDir world.fs args cwd other) := by
  have kept (rest : handler ≠ .rm) (same : Stands next.fs other) :
      Stands next.fs other ↔ ¬(handler = .rm ∧ RemovesDir world.fs args cwd other) :=
    iff_of_true same (fun both => rest both.1)
  cases handler with
  | rm =>
    cases ran
    exact (cmdRm_strands stands).trans (not_congr (and_iff_right rfl).symm)
  | touch => cases ran; exact kept nofun (cmdTouch_spares args cwd stands)
  | write => cases ran; exact kept nofun (cmdWrite_spares args cwd stands)
  | mkdir => cases ran; exact kept nofun (cmdMkdir_spares args cwd stands)
  | cp => cases ran; exact kept nofun (cmdCp_spares args cwd stands)
  | mv => cases ran; exact kept nofun (cmdMv_spares args cwd stands)
  | exec | fatls =>
    obtain ⟨_,_,returned⟩ := bind_ok.mp ran
    cases returned
    exact kept nofun stands
  | _ => cases ran; exact kept nofun stands

/-! Commands. -/

/-- A command as `run_command` gets it. -/
structure Invocation (δ μ : Type) where
  cmd : Str
  args : Str
  cwd : List Str
  pipeInput : Option Str
  world : World δ μ

/-- The command is `rm` of the directory itself, or a `load` of a tree without it. -/
def Invocation.Strands (p : Platform δ μ) (other : List Str) (invocation : Invocation δ μ) : Prop :=
  (invocation.cmd = lit "rm" ∧ RemovesDir invocation.world.fs invocation.args invocation.cwd other) ∨
  (invocation.cmd = lit "load" ∧ ∃ output fs moved disk,
    cmdLoad p.ata invocation.world.fs invocation.cwd invocation.world.disk = .ok (output,fs,moved,disk) ∧
    ¬Stands fs other)

theorem lookupHandler_rm {cmd : Str} : lookupHandler cmd = some .rm ↔ cmd = lit "rm" := by
  constructor
  · intro found
    obtain ⟨entry,member,chosen⟩ := List.exists_of_findSome?_eq_some found
    have only : ∀ entry ∈ commandTable, entry.handler = some .rm → entry.name = lit "rm" := by decide
    split at chosen
    next same => exact same ▸ only entry member chosen
    next => cases chosen
  · rintro rfl
    decide

theorem runCommand_strands {p : Platform δ μ} {cmd args : Str} {cwd moved other : List Str} {pipeInput : Option Str}
    {world next : World δ μ} {output : Str} (stands : Stands world.fs other)
    (ran : runCommand p cmd args cwd pipeInput world = .ok (output,moved,next)) :
    Stands next.fs other ↔ ¬Invocation.Strands p other ⟨cmd,args,cwd,pipeInput,world⟩ := by
  have kept (remains : cmd ≠ lit "rm") (present : cmd ≠ lit "load") (same : Stands next.fs other) :
      Stands next.fs other ↔ ¬Invocation.Strands p other ⟨cmd,args,cwd,pipeInput,world⟩ :=
    iff_of_true same (fun strands => strands.elim (fun both => remains both.1) (fun both => present both.1))
  unfold runCommand at ran
  split at ran
  next clear => cases ran; exact kept (by rw [clear]; decide) (by rw [clear]; decide) stands
  next =>
    split at ran
    next cd => cases ran; exact kept (by rw [cd]; decide) (by rw [cd]; decide) stands
    next =>
      split at ran
      next load =>
        obtain ⟨⟨text,fs,there,disk⟩,loaded,returned⟩ := bind_ok.mp ran
        cases returned
        have remains : cmd ≠ lit "rm" := by
          rw [load]
          decide
        constructor
        · rintro same (⟨rm,-⟩ | ⟨-,output,fs',moved',disk',again,lost⟩)
          · exact remains rm
          · cases loaded.symm.trans again
            exact lost same
        · intro spared
          by_contra lost
          exact spared (Or.inr ⟨load,_,_,_,_,loaded,lost⟩)
      next load =>
        split at ran
        next handler found =>
          obtain ⟨result,done,returned⟩ := bind_ok.mp ran
          cases returned
          have rm : handler = .rm ↔ cmd = lit "rm" := by
            rw [← lookupHandler_rm,found,Option.some_inj]
          rw [Handler.run_strands stands done,rm]
          exact not_congr (or_iff_left (fun both => load both.1)).symm
        next missing =>
          cases ran
          refine kept ?_ load stands
          intro rm
          rw [lookupHandler_rm.mpr rm] at missing
          cases missing

/-! Lines. -/

namespace Gui.TerminalWidget

/-- What one part of a pipeline asks of `run_command`. -/
def partInvocation (part : Str) (pipeData : Option Str) (term : TerminalWidget) (world : World δ μ) :
    Option (Invocation δ μ) :=
  let part := Str.trim part
  let (cmd,args) := (Str.splitOnce ' ' part).getD (part,[])
  if part.isEmpty ∨ cmd = lit "clear" then none else some ⟨cmd,args,term.cwd,pipeData,world⟩

/-- The commands of the parts, each in the state that the parts before it leave. -/
def invocations (p : Platform δ μ) : List Str → Option Str → TerminalWidget → World δ μ → List (Invocation δ μ)
  | [],_,_,_ => []
  | part::parts,pipeData,term,world =>
    (partInvocation part pipeData term world).toList ++
      match TerminalWidget.runPart p part pipeData term world with
      | .ok (pipeData,term,world) => invocations p parts pipeData term world
      | .error _ => []

/-- The commands of the line in the input buffer. -/
def lineInvocations (p : Platform δ μ) (term : TerminalWidget) (world : World δ μ) : List (Invocation δ μ) :=
  match term.pushLine (term.prompt ++ term.inputBuf) with
  | .error _ => []
  | .ok shown =>
    let shown := {shown with inputBuf := []}
    let trimmed := Str.trim (expandEnvVars p.isAlphanumeric world.env (Str.trim term.inputBuf))
    let (pipelineStr,_,_,redirIn) := TerminalWidget.parseRedirections trimmed
    match inputText redirIn shown world with
    | .error _ => []
    | .ok pipeData => invocations p (Str.split '|' pipelineStr) pipeData shown world

theorem runPart_spares {p : Platform δ μ} {part : Str} {pipeData pipeData' : Option Str} {term last : TerminalWidget}
    {world next : World δ μ} {other : List Str} (stands : Stands world.fs other)
    (spared : ∀ invocation ∈ partInvocation part pipeData term world, ¬invocation.Strands p other)
    (ran : TerminalWidget.runPart p part pipeData term world = .ok (pipeData',last,next)) :
    Stands next.fs other := by
  unfold TerminalWidget.runPart at ran
  unfold partInvocation at spared
  simp only at ran spared
  split at ran
  next => cases ran; exact stands
  next nonempty =>
    split at ran
    next => cases ran; exact stands
    next other =>
      obtain ⟨result,done,returned⟩ := bind_ok.mp ran
      cases returned
      rw [if_neg (not_or.mpr ⟨nonempty,other⟩)] at spared
      exact (runCommand_strands stands done).mpr (spared _ rfl)

theorem runParts_spares {p : Platform δ μ} {parts : List Str} {pipeData pipeData' : Option Str}
    {term last : TerminalWidget} {world next : World δ μ} {other : List Str} (stands : Stands world.fs other)
    (spared : ∀ invocation ∈ invocations p parts pipeData term world, ¬invocation.Strands p other)
    (ran : TerminalWidget.runParts p parts pipeData term world = .ok (pipeData',last,next)) :
    Stands next.fs other := by
  induction parts generalizing pipeData term world with
  | nil => cases ran; exact stands
  | cons part parts ih =>
    obtain ⟨⟨middleData,middleTerm,middle⟩,head,tail⟩ := bind_ok.mp ran
    rw [invocations,head] at spared
    refine ih (runPart_spares stands ?_ head) ?_ tail
    · intro invocation member
      exact spared invocation (List.mem_append_left _ (Option.mem_toList.mpr member))
    · intro invocation member
      exact spared invocation (List.mem_append_right _ member)

theorem deliverOutput_spares {redirOut redirAppend pipeData : Option Str} {term last : TerminalWidget}
    {world next : World δ μ} {other : List Str} (stands : Stands world.fs other)
    (ran : TerminalWidget.deliverOutput redirOut redirAppend pipeData term world = .ok (last,next)) :
    Stands next.fs other := by
  unfold TerminalWidget.deliverOutput at ran
  split at ran
  next => cases ran; exact stands
  next =>
    split at ran
    next =>
      split at ran <;>
      next written =>
        obtain ⟨_,_,returned⟩ := bind_ok.mp ran
        cases returned
        exact write_spares written stands
    next =>
      simp only at ran
      split at ran <;>
      next written =>
        obtain ⟨_,_,returned⟩ := bind_ok.mp ran
        cases returned
        exact write_spares written stands
    next =>
      split at ran
      next => cases ran; exact stands
      next =>
        obtain ⟨_,_,returned⟩ := bind_ok.mp ran
        cases returned
        exact stands

/-- A line in one terminal leaves the directory of another terminal in place unless one of its
commands takes that directory away, and such a command does. -/
theorem line_strands_only_by_rm_or_load {p : Platform δ μ} {term last second : TerminalWidget}
    {world next : World δ μ} (stands : Stands world.fs second.cwd)
    (ran : term.executeCommand p world = .ok (last,next)) :
    ((∀ invocation ∈ term.lineInvocations p world, ¬invocation.Strands p second.cwd) → Stands next.fs second.cwd) ∧
    ∀ invocation ∈ term.lineInvocations p world, ∀ output moved after,
      Stands invocation.world.fs second.cwd →
      runCommand p invocation.cmd invocation.args invocation.cwd invocation.pipeInput invocation.world =
        .ok (output,moved,after) →
      (Stands after.fs second.cwd ↔ ¬invocation.Strands p second.cwd) := by
  refine ⟨?_,fun invocation _ output moved after before done => runCommand_strands before done⟩
  intro spared
  unfold executeCommand at ran
  unfold lineInvocations at spared
  obtain ⟨shown,pushed,ran⟩ := bind_ok.mp ran
  rw [pushed] at spared
  simp only at ran spared
  split at ran
  next => cases ran; exact stands
  next =>
    split at ran
    next =>
      obtain ⟨_,_,returned⟩ := bind_ok.mp ran
      cases returned
      exact stands
    next pipeData found =>
      obtain ⟨⟨middleData,middleTerm,middle⟩,commands,delivered⟩ := bind_ok.mp ran
      rw [found] at spared
      exact deliverOutput_spares (runParts_spares stands spared commands) delivered

/-- A terminal at the root with a line in its buffer, and one in the directory `d`. -/
def rootTerminal (line : Str) : TerminalWidget := ⟨11,21,33,278,147,[],line,true,0,[]⟩

def innerTerminal : TerminalWidget := ⟨13,36,48,278,147,[],[],true,0,[['d']]⟩

def sharedWorld : World Unit Unit := bareWorld (RamFs.new.mkdir [] ['d']).2

theorem inner_stands : Stands sharedWorld.fs innerTerminal.cwd := stands_iff.mpr rfl

theorem mkdir_line_runs : (rootTerminal (lit "mkdir e")).executeCommand bareMachine sharedWorld =
    .ok ({rootTerminal [] with lines := [lit "/> mkdir e",lit "Utworzono katalog 'e'."]},
      {sharedWorld with fs := (sharedWorld.fs.mkdir [] ['e']).2}) := by
  unfold executeCommand
  dsimp only
  rw [expandEnvVars_plain _ _ (by decide)]
  rfl

theorem line_strands_only_by_rm_or_load_mkdir :
    Stands (sharedWorld.fs.mkdir [] ['e']).2 innerTerminal.cwd := by
  refine (line_strands_only_by_rm_or_load inner_stands mkdir_line_runs).1 ?_
  have only : (rootTerminal (lit "mkdir e")).lineInvocations bareMachine sharedWorld =
      [⟨lit "mkdir",lit "e",[],none,sharedWorld⟩] := by
    unfold lineInvocations
    dsimp only
    rw [expandEnvVars_plain _ _ (by decide)]
    rfl
  rw [only]
  intro invocation member
  rw [List.mem_singleton.mp member]
  rintro (⟨rm,-⟩ | ⟨load,-⟩)
  · exact absurd rm (by decide)
  · exact absurd load (by decide)

theorem rm_strands_other_terminal : ∃ last next,
    (rootTerminal (lit "rm d")).executeCommand bareMachine sharedWorld = .ok (last,next) ∧
      Stands sharedWorld.fs (rootTerminal (lit "rm d")).cwd ∧ Stands sharedWorld.fs innerTerminal.cwd ∧
      ¬Stands next.fs innerTerminal.cwd := by
  have ran : (rootTerminal (lit "rm d")).executeCommand bareMachine sharedWorld =
      .ok ({rootTerminal [] with lines := [lit "/> rm d",lit "Usunieto 'd'."]},
        {sharedWorld with fs := (sharedWorld.fs.remove [] ['d']).2}) := by
    unfold executeCommand
    dsimp only
    rw [expandEnvVars_plain _ _ (by decide)]
    rfl
  refine ⟨_,_,ran,stands_root _,inner_stands,?_⟩
  rw [stands_iff]
  exact nofun

end Gui.TerminalWidget

end PolarOs
