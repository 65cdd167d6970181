import PolarOs.Fs.Refinement
import PolarOs.Library.Transition
import PolarOs.Shell.Line

/-! A shell session as a machine that takes one command at a time. What a command may do
to the tree and the working directory is said once, and the invariant follows from that. -/
namespace PolarOs
open Library Library.Checked

variable {δ μ : Type}

/-- A mutator of the filesystem, called with the working directory as its path. -/
inductive FsOp where
  | write (name : Str) (data : Bytes)
  | create (name : Str)
  | mkdir (name : Str)
  | remove (name : Str)

def FsOp.apply (cwd : List Str) (fs : RamFs) : FsOp → RamFs
  | .write name data => (fs.write cwd name data).2
  | .create name => (fs.create cwd name).2
  | .mkdir name => (fs.mkdir cwd name).2
  | .remove name => (fs.remove cwd name).2

def Edited (cwd : List Str) (fs next : RamFs) : Prop :=
  ∃ ops : List FsOp, next = ops.foldl (FsOp.apply cwd) fs

theorem Edited.refl (cwd : List Str) (fs : RamFs) : Edited cwd fs fs := ⟨[],rfl⟩

theorem Edited.one {cwd : List Str} {fs : RamFs} (op : FsOp) {next : RamFs} (same : op.apply cwd fs = next) :
    Edited cwd fs next := ⟨[op],same.symm⟩

/-- All that one command can do to the tree and to the working directory. -/
inductive CommandEffect (fs : RamFs) (cwd : List Str) : RamFs → List Str → Prop
  | edits {next : RamFs} (edited : Edited cwd fs next) : CommandEffect fs cwd next cwd
  | moves (args : Str) : CommandEffect fs cwd fs (cmdCd fs args cwd)
  | loads (next : RamFs) : CommandEffect fs cwd next []

/-! The handlers that take the tree mutably. -/

theorem cmdTouch_edits (fs : RamFs) (args : Str) (cwd : List Str) : Edited cwd fs (cmdTouch fs args cwd).2 := by
  unfold cmdTouch
  split
  next => exact .refl cwd fs
  next name _ => split <;> next created => exact .one (.create name) (congrArg Prod.snd created)

theorem cmdWrite_edits (fs : RamFs) (args : Str) (cwd : List Str) : Edited cwd fs (cmdWrite fs args cwd).2 := by
  unfold cmdWrite
  split
  next => exact .refl cwd fs
  next name content _ =>
    split
    next => exact .refl cwd fs
    next =>
      split <;> next written => exact .one (.write name (Utf8.encode content)) (congrArg Prod.snd written)

theorem cmdRm_edits (fs : RamFs) (args : Str) (cwd : List Str) : Edited cwd fs (cmdRm fs args cwd).2 := by
  unfold cmdRm
  split
  next => exact .refl cwd fs
  next name _ => split <;> next removed => exact .one (.remove name) (congrArg Prod.snd removed)

theorem cmdMkdir_edits (fs : RamFs) (args : Str) (cwd : List Str) : Edited cwd fs (cmdMkdir fs args cwd).2 := by
  unfold cmdMkdir
  split
  next => exact .refl cwd fs
  next name _ => split <;> next made => exact .one (.mkdir name) (congrArg Prod.snd made)

theorem cmdCp_edits (fs : RamFs) (args : Str) (cwd : List Str) : Edited cwd fs (cmdCp fs args cwd).2 := by
  unfold cmdCp
  split
  next => exact .refl cwd fs
  next src rest _ =>
    simp only
    split
    next => exact .refl cwd fs
    next data _ => split <;> next written => exact .one (.write (Str.trim rest) data) (congrArg Prod.snd written)

/-- A move is a write and then a removal, or a refused write. -/
theorem cmdMv_edits (fs : RamFs) (args : Str) (cwd : List Str) : Edited cwd fs (cmdMv fs args cwd).2 := by
  unfold cmdMv
  split
  next => exact .refl cwd fs
  next src rest _ =>
    simp only
    split
    next => exact .refl cwd fs
    next =>
      split
      next => exact .refl cwd fs
      next data _ =>
        split
        next middle written =>
          refine ⟨[.write (Str.trim rest) data,.remove src],?_⟩
          have same : middle = (fs.write cwd (Str.trim rest) data).2 := (congrArg Prod.snd written).symm
          rw [same]
          rfl
        next written => exact .one (.write (Str.trim rest) data) (congrArg Prod.snd written)

theorem Handler.run_edits {p : Platform δ μ} {handler : Handler} {args : Str} {cwd : List Str}
    {pipeInput : Option Str} {world next : World δ μ} {output : Str}
    (ran : handler.run p args cwd pipeInput world = .ok (output,next)) : Edited cwd world.fs next.fs := by
  cases handler with
  | touch => cases ran; exact cmdTouch_edits world.fs args cwd
  | write => cases ran; exact cmdWrite_edits world.fs args cwd
  | rm => cases ran; exact cmdRm_edits world.fs args cwd
  | mkdir => cases ran; exact cmdMkdir_edits world.fs args cwd
  | cp => cases ran; exact cmdCp_edits world.fs args cwd
  | mv => cases ran; exact cmdMv_edits world.fs args cwd
  | exec | fatls =>
    obtain ⟨_,_,returned⟩ := bind_ok.mp ran
    cases returned
    exact .refl cwd world.fs
  | _ => cases ran; exact .refl cwd world.fs

theorem cmdLoad_effect {ata : Ata δ} {fs next : RamFs} {cwd moved : List Str} {disk after : δ} {output : Str}
    (ran : cmdLoad ata fs cwd disk = .ok (output,next,moved,after)) : CommandEffect fs cwd next moved := by
  have unchanged : CommandEffect fs cwd fs cwd := .edits (.refl cwd fs)
  unfold cmdLoad at ran
  split at ran
  next => cases ran; exact unchanged
  next =>
    split at ran
    next => cases ran; exact unchanged
    next header disk _ =>
      split at ran
      next => cases ran; exact unchanged
      next =>
        simp only at ran
        split at ran
        next => cases ran; exact unchanged
        next data disk _ =>
          obtain ⟨loaded,_,chosen⟩ := bind_ok.mp ran
          cases loaded with
          | none => cases chosen; exact unchanged
          | some newFs => cases chosen; exact .loads _

theorem runCommand_effect {p : Platform δ μ} {cmd args : Str} {cwd moved : List Str} {pipeInput : Option Str}
    {world next : World δ μ} {output : Str}
    (ran : runCommand p cmd args cwd pipeInput world = .ok (output,moved,next)) :
    CommandEffect world.fs cwd next.fs moved := by
  have unchanged : CommandEffect world.fs cwd world.fs cwd := .edits (.refl cwd world.fs)
  unfold runCommand at ran
  split at ran
  next => cases ran; exact unchanged
  next =>
    split at ran
    next => cases ran; exact .moves args
    next =>
      split at ran
      next =>
        obtain ⟨loaded,found,returned⟩ := bind_ok.mp ran
        cases returned
        exact cmdLoad_effect found
      next =>
        split at ran
        next handler _ =>
          obtain ⟨result,done,returned⟩ := bind_ok.mp ran
          cases returned
          exact .edits (Handler.run_edits done)
        next => cases ran; exact unchanged

theorem runPart_effect {p : Platform δ μ} {part : Str} {pipeData pipeData' : Option Str} {cwd moved : List Str}
    {world next : World δ μ} (ran : runPart p part pipeData cwd world = .ok (pipeData',moved,next)) :
    CommandEffect world.fs cwd next.fs moved := by
  unfold runPart at ran
  simp only at ran
  split at ran
  next => cases ran; exact .edits (.refl cwd world.fs)
  next =>
    obtain ⟨result,done,returned⟩ := bind_ok.mp ran
    cases returned
    exact runCommand_effect done

theorem startLine_fs (p : Platform δ μ) (line : Str) (cwd : List Str) (world : World δ μ) :
    (startLine p line cwd world).2.fs = world.fs := by
  unfold startLine
  simp only
  split
  next => rfl
  next =>
    split
    next => rfl
    next => split <;> rfl

theorem deliverOutput_edits (outputMode : OutputMode) (pipeData : Option Str) (cwd : List Str) (world : World δ μ) :
    Edited cwd world.fs (deliverOutput outputMode pipeData cwd world).fs := by
  unfold deliverOutput
  split
  next => exact .refl cwd world.fs
  next output =>
    split
    next => split <;> exact .refl cwd world.fs
    next filename =>
      split <;> next written => exact .one (.write filename (Utf8.encode output)) (congrArg Prod.snd written)
    next filename =>
      simp only
      split <;> next written => exact .one (.write filename _) (congrArg Prod.snd written)

/-! The invariant. -/

def Stands (fs : RamFs) (cwd : List Str) : Prop := fs.tree.node cwd = some .dir

theorem stands_iff {fs : RamFs} {cwd : List Str} : Stands fs cwd ↔ (fs.getDir cwd).isSome := by
  rw [Stands,RamFs.tree_node,Dir.nodeAt_dir_iff,Option.isSome_iff_exists]
  rfl

theorem stands_root (fs : RamFs) : Stands fs [] := fs.tree.root

/-- A mutator keeps every directory but the one it removes. -/
theorem FsOp.apply_spares {fs : RamFs} {other : List Str} (cwd : List Str) (op : FsOp)
    (spared : ∀ name, op = .remove name → other ≠ cwd ++ [name]) (stands : Stands fs other) :
    Stands (op.apply cwd fs) other := by
  unfold Stands at *
  cases op with
  | write name data =>
    rw [FsOp.apply,(fs.write_refines cwd name data).2]
    exact PathMap.write_keeps_dir _ cwd name data stands
  | create name =>
    rw [FsOp.apply,(fs.create_refines cwd name).2]
    exact PathMap.make_keeps_dir _ cwd name _ stands
  | mkdir name =>
    rw [FsOp.apply,(fs.mkdir_refines cwd name).2]
    exact PathMap.make_keeps_dir _ cwd name _ stands
  | remove name =>
    rw [FsOp.apply,(fs.remove_refines cwd name).2]
    exact PathMap.remove_keeps_dir _ cwd name (spared name rfl) stands

theorem FsOp.apply_stands {fs : RamFs} {cwd : List Str} (op : FsOp) (stands : Stands fs cwd) :
    Stands (op.apply cwd fs) cwd := by
  -- what goes is an entry of the working directory, never the directory itself
  have spared : ∀ name, op = .remove name → cwd ≠ cwd ++ [name] := by
    intro name _
    simp
  exact op.apply_spares cwd spared stands

theorem Edited.stands {fs next : RamFs} {cwd : List Str} (edited : Edited cwd fs next) (stands : Stands fs cwd) :
    Stands next cwd := by
  obtain ⟨ops,rfl⟩ := edited
  induction ops generalizing fs with
  | nil => exact stands
  | cons op ops ih => exact ih (op.apply_stands stands)

theorem cmdCd_stands {fs : RamFs} {cwd : List Str} (args : Str) (stands : Stands fs cwd) :
    Stands fs (cmdCd fs args cwd) := by
  unfold cmdCd
  split
  next => exact stands_root fs
  next target _ =>
    split
    next => exact stands_root fs
    next =>
      split
      next => exact fs.tree.dir_above stands
      next =>
        split
        next => exact stands
        next =>
          split
          next => exact stands
          next =>
            split
            next isDir => exact (fs.isDir_refines cwd target).mp isDir
            next => exact stands

theorem CommandEffect.stands {fs next : RamFs} {cwd moved : List Str} (effect : CommandEffect fs cwd next moved)
    (stands : Stands fs cwd) : Stands next moved := by
  cases effect with
  | edits edited => exact edited.stands stands
  | moves args => exact cmdCd_stands args stands
  | loads => exact stands_root next

/-! Sessions. -/

/-- A session between two commands; `pipeline` is what is left of the line that runs. -/
structure Session (δ μ : Type) where
  cwd : List Str
  world : World δ μ
  pipeline : Option Pipeline

inductive Event where
  | line (text : Str)
  | command
  | output
  | outside
deriving DecidableEq

/-- Outside the session tasks run and time passes; nothing else writes the tree. -/
inductive SessionStep (p : Platform δ μ) : Session δ μ → Event → Session δ μ → Prop
  | line (text : Str) (cwd : List Str) (world : World δ μ) :
    SessionStep p ⟨cwd,world,none⟩ (.line text)
      ⟨cwd,(startLine p text cwd world).2,(startLine p text cwd world).1⟩
  | command {part : Str} {parts : List Str} {pipeData pipeData' : Option Str} {outputMode : OutputMode}
    {cwd moved : List Str} {world next : World δ μ}
    (ran : runPart p part pipeData cwd world = .ok (pipeData',moved,next)) :
    SessionStep p ⟨cwd,world,some ⟨part::parts,pipeData,outputMode⟩⟩ .command
      ⟨moved,next,some ⟨parts,pipeData',outputMode⟩⟩
  | output (pipeData : Option Str) (outputMode : OutputMode) (cwd : List Str) (world : World δ μ) :
    SessionStep p ⟨cwd,world,some ⟨[],pipeData,outputMode⟩⟩ .output
      ⟨cwd,deliverOutput outputMode pipeData cwd world,none⟩
  | outside {cwd : List Str} {world next : World δ μ} {pipeline : Option Pipeline} (kept : next.fs = world.fs) :
    SessionStep p ⟨cwd,world,pipeline⟩ .outside ⟨cwd,next,pipeline⟩

theorem SessionStep.stands {p : Platform δ μ} {first last : Session δ μ} {event : Event}
    (step : SessionStep p first event last) (stands : Stands first.world.fs first.cwd) :
    Stands last.world.fs last.cwd := by
  cases step with
  | line text cwd world =>
    rw [startLine_fs]
    exact stands
  | command ran => exact (runPart_effect ran).stands stands
  | output pipeData outputMode cwd world => exact (deliverOutput_edits outputMode pipeData cwd world).stands stands
  | outside kept =>
    rw [kept]
    exact stands

theorem run_stands {p : Platform δ μ} {first last : Session δ μ} {events : List Event}
    (run : Run (SessionStep p) first events last) (stands : Stands first.world.fs first.cwd) :
    Stands last.world.fs last.cwd := by
  have each : ∀ first event last, Stands first.world.fs first.cwd → SessionStep p first event last →
      Stands last.world.fs last.cwd := fun _ _ _ holds step => step.stands holds
  exact run.keeps each stands

theorem runParts_run {p : Platform δ μ} {parts : List Str} {pipeData pipeData' : Option Str} {cwd moved : List Str}
    {world next : World δ μ} (outputMode : OutputMode)
    (ran : runParts p parts pipeData cwd world = .ok (pipeData',moved,next)) :
    Run (SessionStep p) ⟨cwd,world,some ⟨parts,pipeData,outputMode⟩⟩ (List.replicate parts.length .command)
      ⟨moved,next,some ⟨[],pipeData',outputMode⟩⟩ := by
  induction parts generalizing pipeData cwd world with
  | nil =>
    cases ran
    exact .nil _
  | cons part parts ih =>
    obtain ⟨⟨middleData,middleCwd,middle⟩,head,tail⟩ := bind_ok.mp ran
    exact .cons (.command head) (ih tail)

/-- A whole line is a run of the session: its start, its commands and its output. -/
theorem executeLine_run {p : Platform δ μ} {line : Str} {cwd moved : List Str} {world next : World δ μ}
    (ran : executeLine p line cwd world = .ok (moved,next)) :
    ∃ rest, (∀ event ∈ rest, event = .command ∨ event = .output) ∧
      Run (SessionStep p) ⟨cwd,world,none⟩ (.line line :: rest) ⟨moved,next,none⟩ := by
  unfold executeLine at ran
  have start := SessionStep.line (p := p) line cwd world
  split at ran
  next started ended =>
    cases ran
    rw [ended] at start
    exact ⟨[],by simp,.cons start (.nil _)⟩
  next pipeline started ended =>
    obtain ⟨⟨pipeData,middleCwd,middle⟩,commands,returned⟩ := bind_ok.mp ran
    cases returned
    rw [ended] at start
    refine ⟨List.replicate pipeline.parts.length .command ++ [.output],?_,?_⟩
    · intro event member
      rcases List.mem_append.mp member with command | output
      · exact Or.inl (List.eq_of_mem_replicate command)
      · exact Or.inr (List.mem_singleton.mp output)
    · exact .cons start ((runParts_run pipeline.outputMode commands).snoc (.output ..))

/-- A session that starts at the root stands in a directory of the tree after every
command, whatever the lines are, and every line that `executeLine` runs is such a run. -/
theorem cwd_resolves (p : Platform δ μ) {first last : Session δ μ} {events : List Event} (fresh : first.cwd = [])
    (run : Run (SessionStep p) first events last) :
    (last.world.fs.getDir last.cwd).isSome ∧
      ∀ line moved next, last.pipeline = none → executeLine p line last.cwd last.world = .ok (moved,next) →
        ∃ rest, (∀ event ∈ rest, event = .command ∨ event = .output) ∧
          Run (SessionStep p) last (.line line :: rest) ⟨moved,next,none⟩ := by
  have start : Stands first.world.fs first.cwd := by
    rw [fresh]
    exact stands_root first.world.fs
  refine ⟨stands_iff.mp (run_stands run start),?_⟩
  intro line moved next idle ran
  obtain ⟨cwd,world,pipeline⟩ := last
  subst idle
  exact executeLine_run ran

def bareMachine : Platform Unit Unit where
  ata := ⟨fun _ => false,fun _ disk => (none,disk),fun _ _ disk => (false,disk)⟩
  isAlphanumeric := Char.isAlphanum
  loadAndMapElf _ memory := .ok (.error [],memory)

def bareWorld (fs : RamFs) : World Unit Unit :=
  ⟨fs,envVars,Scheduler.new,.us104,0,0,0,(),(),[]⟩

/-- In the middle of the line `cd d | ls`. -/
theorem cwd_resolves_cd : ((RamFs.new.mkdir [] ['d']).2.getDir [['d']]).isSome := by
  let world := bareWorld (RamFs.new.mkdir [] ['d']).2
  have started : startLine bareMachine (lit "cd d | ls") [] world =
      (some ⟨[lit "cd d ",lit " ls"],none,.print⟩,world) := by
    unfold startLine
    rw [expandEnvVars_plain _ _ (by decide)]
    rfl
  have entered := SessionStep.line (p := bareMachine) (lit "cd d | ls") [] world
  rw [started] at entered
  have moved : runPart bareMachine (lit "cd d ") none [] world = .ok (some [],[['d']],world) := rfl
  exact (cwd_resolves bareMachine rfl (.cons entered (.cons (.command moved) (.nil _)))).1

end PolarOs
