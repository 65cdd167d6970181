import PolarOs.Shell.Session

/-! Which entries of the working directory the words of a line reach. The names that commands
and redirections can create are more than the single words that `rm`, `cat` and `cd` take. -/
namespace PolarOs
open Library Library.Checked

variable {δ μ : Type}

/-- Nothing in the line is expanded, piped or redirected. -/
structure Literal (line : Str) : Prop where
  plain : '$' ∉ line
  single : '|' ∉ line
  whole : parseRedirections (Str.trim line) = (Str.trim line,⟨none,.print⟩)

/-- Such a line is one command, and its arguments are all that follows the space. -/
theorem executeLine_command {cmd : Str} (word : Str.IsWord cmd) {args : Str} (literal : Literal (cmd ++ ' ' :: args))
    (p : Platform δ μ) (cwd : List Str) (world : World δ μ) :
    executeLine p (cmd ++ ' ' :: args) cwd world = (do
      let (output,moved,next) ← runCommand p cmd (Str.trimEnd args) cwd none world
      return (moved,deliverOutput .print (some output) moved next)) := by
  obtain ⟨again,nonempty,split⟩ := Str.trim_command word args
  have single : ∀ c ∈ Str.trim (cmd ++ ' ' :: args), (c == '|') = false := by
    intro c member
    refine beq_false_of_ne ?_
    rintro rfl
    exact literal.single ((Str.mem_trim _ (by decide)).mp member)
  have filled := mt List.isEmpty_iff.mp nonempty
  have started : startLine p (cmd ++ ' ' :: args) cwd world =
      (some ⟨[Str.trim (cmd ++ ' ' :: args)],none,.print⟩,world) := by
    unfold startLine
    rw [expandEnvVars_plain _ _ literal.plain]
    dsimp only
    rw [if_neg filled,literal.whole]
    dsimp only
    rw [Str.split,Str.splitBy_absent single]
  have part : runPart p (Str.trim (cmd ++ ' ' :: args)) none cwd world = (do
      let (output,moved,next) ← runCommand p cmd (Str.trimEnd args) cwd none world
      return (some output,moved,next)) := by
    unfold runPart
    dsimp only
    rw [again,if_neg filled,split]
  unfold executeLine
  rw [started]
  dsimp only
  rw [runParts,part]
  cases runCommand p cmd (Str.trimEnd args) cwd none world <;> rfl

theorem println_of_print {output : Str} (nonempty : output ≠ []) (cwd : List Str) (world : World δ μ) :
    deliverOutput .print (some output) cwd world = world.println output :=
  if_neg (mt List.isEmpty_iff.mp nonempty)

/-! The three commands. -/

theorem runCommand_rm (p : Platform δ μ) (args : Str) (cwd : List Str) (pipeInput : Option Str) (world : World δ μ) :
    runCommand p (lit "rm") args cwd pipeInput world =
      .ok ((cmdRm world.fs args cwd).1,cwd,{world with fs := (cmdRm world.fs args cwd).2}) := rfl

theorem cmdRm_word (fs : RamFs) {name : Str} (word : Str.IsWord name) (cwd : List Str) :
    (cmdRm fs name cwd).1 ≠ [] ∧ (cmdRm fs name cwd).2 = (fs.remove cwd name).2 := by
  rw [cmdRm,Str.splitWhitespace_word word]
  dsimp only [List.head?_cons]
  split <;>
  next removed =>
    rw [removed]
    exact ⟨nofun,rfl⟩

theorem cmdRm_other (fs : RamFs) (args : Str) {name : Str} (other : ¬Str.IsWord name) (cwd : List Str) :
    (cmdRm fs args cwd).2.tree.node (cwd ++ [name]) = fs.tree.node (cwd ++ [name]) := by
  unfold cmdRm
  split
  next => rfl
  next first head =>
    have apart : cwd ++ [name] ≠ cwd ++ [first] := by
      intro same
      obtain rfl := List.singleton_inj.mp (List.append_cancel_left same)
      exact other (Str.isWord_of_splitWhitespace (List.mem_of_mem_head? head))
    have kept := (fs.remove_refines cwd first).2
    split <;>
    next removed =>
      rw [removed] at kept
      dsimp only at kept ⊢
      rw [kept,PathMap.remove_keeps _ _ _ apart]

theorem rm_line (p : Platform δ μ) (world : World δ μ) (cwd : List Str) {name : Str}
    (literal : Literal (lit "rm" ++ ' ' :: name)) :
    if Str.IsWord name then ∃ message, executeLine p (lit "rm" ++ ' ' :: name) cwd world =
      .ok (cwd,{world with fs := (world.fs.remove cwd name).2}.println message)
    else ∃ next, executeLine p (lit "rm" ++ ' ' :: name) cwd world = .ok (cwd,next) ∧
      next.fs.tree.node (cwd ++ [name]) = world.fs.tree.node (cwd ++ [name]) := by
  have isCommand : Str.IsWord (lit "rm") := by decide
  rw [executeLine_command isCommand literal,runCommand_rm]
  split
  next word =>
    obtain ⟨nonempty,removed⟩ := cmdRm_word world.fs word cwd
    rw [Str.trimEnd_word word,ok_bind]
    refine ⟨(cmdRm world.fs name cwd).1,?_⟩
    dsimp only
    rw [println_of_print nonempty,removed]
    rfl
  next other =>
    refine ⟨_,rfl,?_⟩
    have kept := cmdRm_other world.fs (Str.trimEnd name) other cwd
    unfold deliverOutput
    dsimp only
    split <;> exact kept

theorem cat_line (p : Platform δ μ) (world : World δ μ) (cwd : List Str) {name : Str} (word : Str.IsWord name)
    (literal : Literal (lit "cat" ++ ' ' :: name)) {data : Bytes} (stored : world.fs.read cwd name = some data) :
    executeLine p (lit "cat" ++ ' ' :: name) cwd world =
      .ok (cwd,deliverOutput .print (some (Str.ofBytesOr data (lit "<dane binarne>"))) cwd world) := by
  have isCommand : Str.IsWord (lit "cat") := by decide
  have ran : runCommand p (lit "cat") name cwd none world = .ok (cmdCat world.fs name cwd,cwd,world) := rfl
  have shown : cmdCat world.fs name cwd = Str.ofBytesOr data (lit "<dane binarne>") := by
    rw [cmdCat,Str.splitWhitespace_word word]
    dsimp only [List.head?_cons]
    rw [stored]
  rw [executeLine_command isCommand literal,Str.trimEnd_word word,ran,ok_bind,shown]
  rfl

theorem cd_line (p : Platform δ μ) (world : World δ μ) (cwd : List Str) {name : Str} (word : Str.IsWord name)
    (literal : Literal (lit "cd" ++ ' ' :: name)) :
    executeLine p (lit "cd" ++ ' ' :: name) cwd world = .ok (cmdCd world.fs name cwd,world) := by
  have isCommand : Str.IsWord (lit "cd") := by decide
  have ran : runCommand p (lit "cd") name cwd none world = .ok ([],cmdCd world.fs name cwd,world) := rfl
  rw [executeLine_command isCommand literal,Str.trimEnd_word word,ran]
  rfl

theorem cmdCd_enters {fs : RamFs} {cwd : List Str} {name : Str} (word : Str.IsWord name)
    (ordinary : name ≠ lit "/" ∧ name ≠ lit ".." ∧ name ≠ lit ".") (directory : fs.isDir cwd name = true) :
    cmdCd fs name cwd = cwd ++ [name] := by
  have present : fs.exists cwd name = true := by
    rw [fs.exists_refines,(fs.isDir_refines cwd name).mp directory]
    exact nofun
  rw [cmdCd,Str.splitWhitespace_word word]
  dsimp only [List.head?_cons]
  rw [if_neg ordinary.1,if_neg ordinary.2.1,if_neg ordinary.2.2,present,if_neg nofun,if_pos directory]

theorem cmdCd_returns (fs : RamFs) (cwd : List Str) (name : Str) : cmdCd fs (lit "..") (cwd ++ [name]) = cwd := by
  change (cwd ++ [name]).dropLast = cwd
  exact List.dropLast_concat

/-- On lines that nothing rewrites, `rm` reaches an entry exactly when its name is one word, and
then `cat` and `cd` reach it too; `cd` keeps three words for itself. -/
theorem entries_addressed_by_words (p : Platform δ μ) (world : World δ μ) (cwd : List Str) (name : Str) :
    (Literal (lit "rm" ++ ' ' :: name) →
      if Str.IsWord name then ∃ message, executeLine p (lit "rm" ++ ' ' :: name) cwd world =
        .ok (cwd,{world with fs := (world.fs.remove cwd name).2}.println message)
      else ∃ next, executeLine p (lit "rm" ++ ' ' :: name) cwd world = .ok (cwd,next) ∧
        next.fs.tree.node (cwd ++ [name]) = world.fs.tree.node (cwd ++ [name])) ∧
    (Str.IsWord name → Literal (lit "cat" ++ ' ' :: name) → ∀ data, world.fs.read cwd name = some data →
      executeLine p (lit "cat" ++ ' ' :: name) cwd world =
        .ok (cwd,deliverOutput .print (some (Str.ofBytesOr data (lit "<dane binarne>"))) cwd world)) ∧
    (Str.IsWord name → Literal (lit "cd" ++ ' ' :: name) → name ≠ lit "/" ∧ name ≠ lit ".." ∧ name ≠ lit "." →
      world.fs.isDir cwd name = true →
      executeLine p (lit "cd" ++ ' ' :: name) cwd world = .ok (cwd ++ [name],world) ∧
        executeLine p (lit "cd ..") (cwd ++ [name]) world = .ok (cwd,world)) := by
  refine ⟨rm_line p world cwd,fun word literal data => cat_line p world cwd word literal,?_⟩
  intro word literal ordinary directory
  have up : Literal (lit "cd" ++ ' ' :: lit "..") := ⟨by decide,by decide,by decide⟩
  constructor
  · rw [cd_line p world cwd word literal,cmdCd_enters word ordinary directory]
  · exact (cd_line p world (cwd ++ [name]) (by decide) up).trans
      (congrArg (fun moved => Except.ok (moved,world)) (cmdCd_returns world.fs cwd name))

/-- A file `f`, a file `a b` and a directory `d` at the root. -/
def storedWorld : World Unit Unit :=
  bareWorld ((((RamFs.new.write [] (lit "f") [120]).2.write [] (lit "a b") [121]).2).mkdir [] (lit "d")).2

theorem entries_addressed_by_words_stored :
    (∃ message, executeLine bareMachine (lit "rm f") [] storedWorld =
      .ok ([],{storedWorld with fs := (storedWorld.fs.remove [] (lit "f")).2}.println message)) ∧
    executeLine bareMachine (lit "cat f") [] storedWorld =
      .ok ([],deliverOutput .print (some (Str.ofBytesOr [120] (lit "<dane binarne>"))) [] storedWorld) ∧
    (∃ next, executeLine bareMachine (lit "rm a b") [] storedWorld = .ok ([],next) ∧
      next.fs.tree.node [lit "a b"] = storedWorld.fs.tree.node [lit "a b"]) ∧
    executeLine bareMachine (lit "cd d") [] storedWorld = .ok ([lit "d"],storedWorld) ∧
    executeLine bareMachine (lit "cd ..") [lit "d"] storedWorld = .ok ([],storedWorld) := by
  obtain ⟨remove,print,_⟩ := entries_addressed_by_words bareMachine storedWorld [] (lit "f")
  obtain ⟨stay,_,_⟩ := entries_addressed_by_words bareMachine storedWorld [] (lit "a b")
  obtain ⟨_,_,enter⟩ := entries_addressed_by_words bareMachine storedWorld [] (lit "d")
  have word : Str.IsWord (lit "f") := by decide
  have spaced : ¬Str.IsWord (lit "a b") := by decide
  have removed := remove ⟨by decide,by decide,by decide⟩
  have kept := stay ⟨by decide,by decide,by decide⟩
  rw [if_pos word] at removed
  rw [if_neg spaced] at kept
  exact ⟨removed,print word ⟨by decide,by decide,by decide⟩ [120] rfl,kept,
    enter (by decide) ⟨by decide,by decide,by decide⟩ (by decide) rfl⟩

/-- The tree after `echo x > a b` at the root of the empty tree. -/
def spacedWorld : World Unit Unit :=
  {bareWorld RamFs.new with fs := (RamFs.new.write [] (lit "a b") [120]).2}.println (lit "Zapisano do 'a b'.")

/-- The file `a b` is made by a line of the shell, and stays after `rm a b`. -/
theorem name_with_space_not_removed :
    ∃ last, executeLine bareMachine (lit "echo x > a b") [] (bareWorld RamFs.new) = .ok ([],spacedWorld) ∧
      executeLine bareMachine (lit "rm a b") [] spacedWorld = .ok ([],last) ∧
      spacedWorld.fs.read [] (lit "a b") = some [120] ∧ last.fs.read [] (lit "a b") = some [120] := by
  have made : startLine bareMachine (lit "echo x > a b") [] (bareWorld RamFs.new) =
      (some ⟨[lit "echo x "],none,.write (lit "a b")⟩,bareWorld RamFs.new) := by
    unfold startLine
    rw [expandEnvVars_plain _ _ (by decide)]
    rfl
  have removing : startLine bareMachine (lit "rm a b") [] spacedWorld =
      (some ⟨[lit "rm a b"],none,.print⟩,spacedWorld) := by
    unfold startLine
    rw [expandEnvVars_plain _ _ (by decide)]
    rfl
  refine ⟨spacedWorld.println (lit "'a' nie istnieje."),?_,?_,rfl,rfl⟩
  · rw [executeLine,made]
    rfl
  · rw [executeLine,removing]
    rfl

end PolarOs
