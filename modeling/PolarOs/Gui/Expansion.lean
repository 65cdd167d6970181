import PolarOs.Gui.Terminal
import PolarOs.Shell.Session

/-! The expansion of variables over whole sessions of the text shell and of the terminals. No
value of the environment has a dollar sign, because `export` only sees expanded text. -/
namespace PolarOs
open Library Library.Checked

variable {δ μ : Type}

def PlainValues (env : Env) : Prop := ∀ entry ∈ env, '$' ∉ entry.2

theorem envVars_plain : PlainValues envVars := by
  unfold PlainValues
  decide

theorem expandEnvVars_no_dollar (isAlphanumeric : Char → Bool) {env : Env} (plain : PlainValues env) (input : Str) :
    '$' ∉ expandEnvVars isAlphanumeric env input := by
  induction input using expandEnvVars.induct isAlphanumeric with
  | case1 =>
    rw [expandEnvVars]
    exact List.not_mem_nil
  | case2 chars ih =>
    rw [expandEnvVars,if_pos rfl,List.mem_append,not_or]
    refine ⟨?_,ih⟩
    cases found : SortedMap.find env (varName isAlphanumeric chars).1 with
    | none => exact List.not_mem_nil
    | some value => exact plain _ (SortedMap.mem_of_find found)
  | case3 ch chars ordinary ih =>
    rw [expandEnvVars,if_neg ordinary,List.mem_cons,not_or]
    exact ⟨Ne.symm ordinary,ih⟩

theorem no_dollar_trim {text : Str} (plain : '$' ∉ text) : '$' ∉ Str.trim text :=
  fun member => plain ((Str.mem_trim text (by decide)).mp member)

theorem no_dollar_split {text part : Str} (plain : '$' ∉ text) (split : part ∈ Str.split '|' text) : '$' ∉ part :=
  fun member => plain (Str.mem_splitBy split member)

theorem no_dollar_take {text : Str} (plain : '$' ∉ text) (n : Nat) : '$' ∉ text.take n :=
  fun member => plain (List.mem_of_mem_take member)

theorem no_dollar_args {part : Str} (plain : '$' ∉ part) : '$' ∉ ((Str.splitOnce ' ' part).getD (part,[])).2 := by
  intro member
  cases split : Str.splitOnce ' ' part with
  | none =>
    rw [split] at member
    exact List.not_mem_nil member
  | some pair =>
    obtain ⟨cmd,args⟩ := pair
    rw [split] at member
    apply plain
    rw [Str.splitOnce_some split]
    exact List.mem_append_right _ (List.mem_cons_of_mem _ member)

/-! What a command does to the environment. -/

theorem cmdExport_plain {env : Env} {args : Str} (values : PlainValues env) (plain : '$' ∉ args) :
    PlainValues (cmdExport env args).2 := by
  unfold cmdExport
  simp only
  split
  next key value split =>
    have tail : '$' ∉ value := by
      intro member
      apply no_dollar_trim plain
      rw [Str.splitOnce_some split]
      exact List.mem_append_right _ (List.mem_cons_of_mem _ member)
    split
    next => exact values
    next =>
      intro entry member
      rcases SortedMap.mem_insert member with rfl | old
      · exact no_dollar_trim tail
      · exact values entry old
  next => split <;> exact values

theorem Handler.run_env {p : Platform δ μ} {handler : Handler} {args : Str} {cwd : List Str}
    {pipeInput : Option Str} {world next : World δ μ} {output : Str}
    (ran : handler.run p args cwd pipeInput world = .ok (output,next)) :
    next.env = world.env ∨ next.env = (cmdExport world.env args).2 := by
  cases handler with
  | exportVar => cases ran; exact Or.inr rfl
  | exec | fatls =>
    obtain ⟨_,_,returned⟩ := bind_ok.mp ran
    cases returned
    exact Or.inl rfl
  | _ => cases ran; exact Or.inl rfl

theorem runCommand_plain {p : Platform δ μ} {cmd args : Str} {cwd moved : List Str} {pipeInput : Option Str}
    {world next : World δ μ} {output : Str} (values : PlainValues world.env) (plain : '$' ∉ args)
    (ran : runCommand p cmd args cwd pipeInput world = .ok (output,moved,next)) : PlainValues next.env := by
  unfold runCommand at ran
  split at ran
  next => cases ran; exact values
  next =>
    split at ran
    next => cases ran; exact values
    next =>
      split at ran
      next =>
        obtain ⟨_,_,returned⟩ := bind_ok.mp ran
        cases returned
        exact values
      next =>
        split at ran
        next handler _ =>
          obtain ⟨result,done,returned⟩ := bind_ok.mp ran
          cases returned
          rcases Handler.run_env done with same | exported
          · rw [same]
            exact values
          · rw [exported]
            exact cmdExport_plain values plain
        next => cases ran; exact values

/-! The lines of the text shell. -/

theorem inputBefore_plain {before : Str} (plain : '$' ∉ before) (outputMode : OutputMode) :
    '$' ∉ (inputBefore before outputMode).1 := by
  unfold inputBefore
  split
  next => exact plain
  next pos _ =>
    dsimp only
    split
    next => exact plain
    next => exact no_dollar_take plain pos

theorem parseRedirections_plain {line : Str} (plain : '$' ∉ line) : '$' ∉ (parseRedirections line).1 := by
  have parsed : ∀ result : Option (Str × Redirect), result = appendRedirection line ∨ result = writeRedirection line ∨
      result = inputRedirection line → ∀ pair ∈ result, '$' ∉ pair.1 := by
    rintro result (rfl | rfl | rfl) pair found
    · unfold appendRedirection at found
      obtain ⟨pos,_,chosen⟩ := Option.bind_eq_some_iff.mp found
      simp only at chosen
      split at chosen
      next => cases chosen
      next =>
        cases chosen
        exact inputBefore_plain (no_dollar_take plain pos) _
    · unfold writeRedirection at found
      obtain ⟨pos,_,chosen⟩ := Option.bind_eq_some_iff.mp found
      split at chosen
      next => cases chosen
      next =>
        simp only at chosen
        split at chosen
        next => cases chosen
        next =>
          cases chosen
          exact inputBefore_plain (no_dollar_take plain pos) _
    · unfold inputRedirection at found
      obtain ⟨pos,_,chosen⟩ := Option.bind_eq_some_iff.mp found
      simp only at chosen
      split at chosen
      next => cases chosen
      next =>
        cases chosen
        exact no_dollar_take plain pos
  unfold parseRedirections
  cases append : appendRedirection line with
  | some pair => exact parsed _ (Or.inl rfl) pair append
  | none =>
    cases write : writeRedirection line with
    | some pair => exact parsed _ (Or.inr (Or.inl rfl)) pair write
    | none =>
      cases input : inputRedirection line with
      | some pair => exact parsed _ (Or.inr (Or.inr rfl)) pair input
      | none => exact plain

theorem startLine_plain (p : Platform δ μ) (line : Str) (cwd : List Str) {world : World δ μ}
    (values : PlainValues world.env) :
    (startLine p line cwd world).2.env = world.env ∧
      ∀ pipeline ∈ (startLine p line cwd world).1, ∀ part ∈ pipeline.parts, '$' ∉ part := by
  have plain := parseRedirections_plain (no_dollar_trim (expandEnvVars_no_dollar p.isAlphanumeric values line))
  unfold startLine
  simp only
  split
  next => exact ⟨rfl,by intro pipeline started; cases started⟩
  next =>
    split
    next =>
      refine ⟨rfl,?_⟩
      intro pipeline started
      cases started
      exact fun part split => no_dollar_split plain split
    next =>
      split
      next =>
        refine ⟨rfl,?_⟩
        intro pipeline started
        cases started
        exact fun part split => no_dollar_split plain split
      next => exact ⟨rfl,by intro pipeline started; cases started⟩

theorem runPart_plain {p : Platform δ μ} {part : Str} {pipeData pipeData' : Option Str} {cwd moved : List Str}
    {world next : World δ μ} (values : PlainValues world.env) (plain : '$' ∉ part)
    (ran : runPart p part pipeData cwd world = .ok (pipeData',moved,next)) : PlainValues next.env := by
  unfold runPart at ran
  simp only at ran
  split at ran
  next => cases ran; exact values
  next =>
    obtain ⟨result,done,returned⟩ := bind_ok.mp ran
    cases returned
    exact runCommand_plain values (no_dollar_args (no_dollar_trim plain)) done

theorem runParts_plain {p : Platform δ μ} {parts : List Str} {pipeData pipeData' : Option Str} {cwd moved : List Str}
    {world next : World δ μ} (values : PlainValues world.env) (plain : ∀ part ∈ parts, '$' ∉ part)
    (ran : runParts p parts pipeData cwd world = .ok (pipeData',moved,next)) : PlainValues next.env := by
  induction parts generalizing pipeData cwd world with
  | nil => cases ran; exact values
  | cons part parts ih =>
    obtain ⟨⟨middleData,middleCwd,middle⟩,head,tail⟩ := bind_ok.mp ran
    exact ih (runPart_plain values (plain part List.mem_cons_self) head)
      (fun part member => plain part (List.mem_cons_of_mem _ member)) tail

theorem deliverOutput_env (outputMode : OutputMode) (pipeData : Option Str) (cwd : List Str) (world : World δ μ) :
    (deliverOutput outputMode pipeData cwd world).env = world.env := by
  unfold deliverOutput
  split
  next => rfl
  next =>
    split
    next => split <;> rfl
    next => split <;> rfl
    next =>
      simp only
      split <;> rfl

theorem executeLine_plain {p : Platform δ μ} {line : Str} {cwd moved : List Str} {world next : World δ μ}
    (values : PlainValues world.env) (ran : executeLine p line cwd world = .ok (moved,next)) :
    PlainValues next.env := by
  obtain ⟨same,plain⟩ := startLine_plain p line cwd values
  unfold executeLine at ran
  split at ran
  next started ended =>
    cases ran
    rw [ended] at same
    rw [same]
    exact values
  next pipeline started ended =>
    obtain ⟨⟨pipeData,middleCwd,middle⟩,commands,returned⟩ := bind_ok.mp ran
    cases returned
    rw [ended] at same plain
    rw [deliverOutput_env]
    exact runParts_plain (same ▸ values) (plain pipeline rfl) commands

/-! The lines of a terminal. -/

namespace Gui.TerminalWidget

theorem outputFiles_plain {line : Str} (plain : '$' ∉ line) : '$' ∉ (outputFiles line).1 := by
  unfold outputFiles
  split
  next pos _ =>
    split
    next => exact no_dollar_take plain pos
    next => exact plain
  next =>
    split
    next pos _ =>
      split
      next => exact no_dollar_take plain pos
      next => exact plain
    next => exact plain

theorem terminal_redirections_plain {line : Str} (plain : '$' ∉ line) :
    '$' ∉ (TerminalWidget.parseRedirections line).1 := by
  have remaining := outputFiles_plain plain
  unfold TerminalWidget.parseRedirections
  simp only
  split
  next pos _ =>
    split
    next => exact remaining
    next => exact no_dollar_take remaining pos
  next => exact remaining

theorem runParts_plain {p : Platform δ μ} {parts : List Str} {pipeData pipeData' : Option Str}
    {term last : TerminalWidget} {world next : World δ μ} (values : PlainValues world.env)
    (plain : ∀ part ∈ parts, '$' ∉ part)
    (ran : TerminalWidget.runParts p parts pipeData term world = .ok (pipeData',last,next)) :
    PlainValues next.env := by
  induction parts generalizing pipeData term world with
  | nil => cases ran; exact values
  | cons part parts ih =>
    obtain ⟨⟨middleData,middleTerm,middle⟩,head,tail⟩ := bind_ok.mp ran
    refine ih ?_ (fun part member => plain part (List.mem_cons_of_mem _ member)) tail
    unfold TerminalWidget.runPart at head
    simp only at head
    split at head
    next => cases head; exact values
    next =>
      split at head
      next => cases head; exact values
      next =>
        obtain ⟨result,done,returned⟩ := bind_ok.mp head
        cases returned
        exact runCommand_plain values (no_dollar_args (no_dollar_trim (plain part List.mem_cons_self))) done

theorem deliverOutput_env {redirOut redirAppend pipeData : Option Str} {term last : TerminalWidget}
    {world next : World δ μ}
    (ran : TerminalWidget.deliverOutput redirOut redirAppend pipeData term world = .ok (last,next)) :
    next.env = world.env := by
  unfold TerminalWidget.deliverOutput at ran
  split at ran
  next => cases ran; rfl
  next =>
    split at ran
    next =>
      split at ran <;>
      next =>
        obtain ⟨_,_,returned⟩ := bind_ok.mp ran
        cases returned
        rfl
    next =>
      simp only at ran
      split at ran <;>
      next =>
        obtain ⟨_,_,returned⟩ := bind_ok.mp ran
        cases returned
        rfl
    next =>
      split at ran
      next => cases ran; rfl
      next =>
        obtain ⟨_,_,returned⟩ := bind_ok.mp ran
        cases returned
        rfl

theorem executeCommand_plain {p : Platform δ μ} {term last : TerminalWidget} {world next : World δ μ}
    (values : PlainValues world.env) (ran : term.executeCommand p world = .ok (last,next)) :
    PlainValues next.env := by
  unfold executeCommand at ran
  obtain ⟨shown,_,ran⟩ := bind_ok.mp ran
  simp only at ran
  split at ran
  next => cases ran; exact values
  next =>
    split at ran
    next =>
      obtain ⟨_,_,returned⟩ := bind_ok.mp ran
      cases returned
      exact values
    next pipeData _ =>
      obtain ⟨⟨middleData,middleTerm,middle⟩,commands,delivered⟩ := bind_ok.mp ran
      rw [deliverOutput_env delivered]
      refine runParts_plain values ?_ commands
      intro part split
      exact no_dollar_split (terminal_redirections_plain
        (no_dollar_trim (expandEnvVars_no_dollar p.isAlphanumeric values _))) split

end Gui.TerminalWidget

/-! Sessions of both front ends. -/

/-- Who gives the next line; nothing outside the front ends writes the environment. -/
inductive FrontEnd where
  | shell (line : Str) (cwd : List Str)
  | terminal (term : Gui.TerminalWidget)
  | outside

inductive LineStep (p : Platform δ μ) : World δ μ → FrontEnd → World δ μ → Prop
  | shell {line : Str} {cwd moved : List Str} {world next : World δ μ}
    (ran : executeLine p line cwd world = .ok (moved,next)) : LineStep p world (.shell line cwd) next
  | terminal {term last : Gui.TerminalWidget} {world next : World δ μ}
    (ran : term.executeCommand p world = .ok (last,next)) : LineStep p world (.terminal term) next
  | outside {world next : World δ μ} (kept : next.env = world.env) : LineStep p world .outside next

theorem LineStep.plain {p : Platform δ μ} {first last : World δ μ} {source : FrontEnd}
    (step : LineStep p first source last) (values : PlainValues first.env) : PlainValues last.env := by
  cases step with
  | shell ran => exact executeLine_plain values ran
  | terminal ran => exact Gui.TerminalWidget.executeCommand_plain values ran
  | outside kept =>
    rw [kept]
    exact values

/-- After any lines from either front end, expansion removes every dollar sign, so that a second
expansion has nothing to do. -/
theorem expansion_is_stable (p : Platform δ μ) {first last : World δ μ} {sources : List FrontEnd}
    (initial : first.env = envVars) (run : Run (LineStep p) first sources last) (input : Str) :
    '$' ∉ expandEnvVars p.isAlphanumeric last.env input ∧
      expandEnvVars p.isAlphanumeric last.env (expandEnvVars p.isAlphanumeric last.env input) =
        expandEnvVars p.isAlphanumeric last.env input := by
  have start : PlainValues first.env := by
    rw [initial]
    exact envVars_plain
  have values : PlainValues last.env := run.keeps (fun _ _ _ holds step => step.plain holds) start
  have plain := expandEnvVars_no_dollar p.isAlphanumeric values input
  exact ⟨plain,expandEnvVars_plain _ _ plain⟩

/-- After the line `export A=5`, what `$A$` becomes. -/
theorem expansion_is_stable_export :
    ∃ last : World Unit Unit, Run (LineStep bareMachine) (bareWorld RamFs.new) [.shell (lit "export A=5") []] last ∧
      '$' ∉ expandEnvVars Char.isAlphanum last.env (lit "$A$") := by
  let world : World Unit Unit := {bareWorld RamFs.new with env := (cmdExport envVars (lit "A=5")).2 }
  have started : startLine bareMachine (lit "export A=5") [] (bareWorld RamFs.new) =
      (some ⟨[lit "export A=5"],none,.print⟩,bareWorld RamFs.new) := by
    unfold startLine
    rw [expandEnvVars_plain _ _ (by decide)]
    rfl
  have ran : executeLine bareMachine (lit "export A=5") [] (bareWorld RamFs.new) =
      .ok ([],world.println (lit "A=5")) := by
    unfold executeLine
    rw [started]
    rfl
  have run : Run (LineStep bareMachine) (bareWorld RamFs.new) [.shell (lit "export A=5") []]
      (world.println (lit "A=5")) := .cons (.shell ran) (.nil _)
  exact ⟨_,run,(expansion_is_stable bareMachine rfl run (lit "$A$")).1⟩

end PolarOs
