import PolarOs.Gui.Terminal

/-! The terminal's copy of the redirection parser against the shell's. The copies differ
in what an unusable output operator leaves to try and in the names they accept after `<`. -/
namespace PolarOs.Gui.TerminalWidget
open Library

/-- The file to write goes before the file to append to, as in `execute_command`. -/
def outputMode (writeFile appendFile : Option Str) : OutputMode :=
  match writeFile,appendFile with
  | some filename,_ => .write filename
  | none,some filename => .append filename
  | none,none => .print

def redirect (parsed : Str × Option Str × Option Str × Option Str) : Str × Redirect :=
  let (pipelineStr,writeFile,appendFile,inputFile) := parsed
  (pipelineStr,⟨inputFile,outputMode writeFile appendFile⟩)

/-- The text after the last occurrence of an operator names a file. -/
def Usable (operator : Str) (line : Str) : Prop :=
  ∃ pos filename, Str.rfind operator line = some pos ∧ outputName (line.drop (pos + operator.length)) = some filename

def Doubled (line : Str) : Prop :=
  ∃ pos, Str.rfind ['>'] line = some pos ∧ (line.take pos).getLast? = some '>'

/-- Neither a pipe nor an output operator follows the last `<`. -/
def PlainInput (line : Str) : Prop :=
  ∀ pos, Str.rfind ['<'] line = some pos → '|' ∉ line.drop (pos + 1) ∧ '>' ∉ line.drop (pos + 1)

/-- The lines on which the two copies see the same operators. -/
def Plain (line : Str) : Prop :=
  Usable (lit ">>") line ∨
  (Str.rfind (lit ">>") line = none ∧ Usable (lit ">") line) ∨
  (¬Usable (lit ">>") line ∧ (Usable (lit ">") line → Doubled line) ∧ PlainInput line)

/-- What is left beside the output operator is read as the shell reads it. -/
theorem redirect_parseRedirections {line remaining : Str} {writeFile appendFile : Option Str}
    (files : outputFiles line = (remaining,writeFile,appendFile)) :
    redirect (parseRedirections line) = inputBefore remaining (outputMode writeFile appendFile) := by
  unfold parseRedirections inputBefore
  rw [files]
  dsimp only
  cases Str.rfind ['<'] remaining with
  | none => rfl
  | some pos =>
    dsimp only
    cases (Str.trim (remaining.drop (pos + 1))).isEmpty <;> rfl

theorem inputBefore_outputMode (before : Str) (outputMode : OutputMode) :
    (inputBefore before outputMode).2.outputMode = outputMode := by
  unfold inputBefore
  split
  next => rfl
  next =>
    dsimp only
    split <;> rfl

theorem appendRedirection_eq (line : Str) :
    appendRedirection line =
      (Str.rfind (lit ">>") line).bind fun pos =>
        (outputName (line.drop (pos + 2))).map fun filename => inputBefore (line.take pos) (.append filename) := by
  unfold appendRedirection outputName
  cases Str.rfind (lit ">>") line with
  | none => rfl
  | some pos =>
    simp only [Option.bind_eq_bind,Option.bind_some]
    split <;> rfl

theorem writeRedirection_eq (line : Str) :
    writeRedirection line =
      (Str.rfind ['>'] line).bind fun pos =>
        if (line.take pos).getLast? = some '>' then none
        else (outputName (line.drop (pos + 1))).map fun filename =>
          inputBefore (line.take pos) (.write filename) := by
  unfold writeRedirection outputName
  cases Str.rfind ['>'] line with
  | none => rfl
  | some pos =>
    have start : (pos ≠ 0 ∧ (line.take pos).getLast? = some '>') ↔ (line.take pos).getLast? = some '>' := by
      apply and_iff_right_of_imp
      intro doubled first
      rw [first] at doubled
      cases doubled
    simp only [Option.bind_eq_bind,Option.bind_some,start]
    split
    next => rfl
    next => split <;> rfl

theorem single_of_no_append {line : Str} (missing : Str.rfind (lit ">>") line = none) {pos : Nat}
    (found : Str.rfind ['>'] line = some pos) : (line.take pos).getLast? ≠ some '>' := by
  intro doubled
  obtain ⟨before,split⟩ := List.getLast?_eq_some_iff.mp doubled
  obtain ⟨after,rest⟩ := Str.rfind_some found
  apply Str.rfind_none missing (by simp [lit]) before.length
  have whole : line = before ++ '>' :: '>' :: after := by
    rw [← List.take_append_drop pos line,split,← rest]
    simp
  rw [whole,List.drop_left]
  exact ⟨after,rfl⟩

theorem appendRedirection_none {line : Str} (unusable : ¬Usable (lit ">>") line) : appendRedirection line = none := by
  rw [appendRedirection_eq,Option.bind_eq_none_iff]
  intro pos found
  rw [Option.map_eq_none_iff,Option.eq_none_iff_forall_not_mem]
  intro filename named
  exact unusable ⟨pos,filename,found,named⟩

theorem writeRedirection_none {line : Str} (unusable : Usable (lit ">") line → Doubled line) :
    writeRedirection line = none := by
  rw [writeRedirection_eq,Option.bind_eq_none_iff]
  intro pos found
  split
  next => rfl
  next single =>
    rw [Option.map_eq_none_iff,Option.eq_none_iff_forall_not_mem]
    intro filename named
    obtain ⟨other,same,doubled⟩ := unusable ⟨pos,filename,found,named⟩
    rw [found] at same
    obtain rfl := Option.some.inj same
    exact single doubled

theorem outputFiles_none {line : Str} (append : ¬Usable (lit ">>") line)
    (single : Str.rfind (lit ">>") line = none → ¬Usable (lit ">") line) : outputFiles line = (line,none,none) := by
  unfold outputFiles
  split
  next pos found =>
    split
    next filename named => exact absurd ⟨pos,filename,found,named⟩ append
    next => rfl
  next missing =>
    split
    next pos found =>
      split
      next filename named => exact absurd ⟨pos,filename,found,named⟩ (single missing)
      next => rfl
    next => rfl

/-- Without an output operator the shell refuses the input names the terminal takes. -/
theorem inputRedirection_agrees (line : Str) :
    inputBefore line .print = (inputRedirection line).getD (line,⟨none,.print⟩) ↔ PlainInput line := by
  unfold inputBefore inputRedirection PlainInput
  cases found : Str.rfind ['<'] line with
  | none => simp
  | some pos =>
    have pipe : '|' ∈ Str.trim (line.drop (pos + 1)) ↔ '|' ∈ line.drop (pos + 1) := Str.mem_trim _ (by decide)
    have output : '>' ∈ Str.trim (line.drop (pos + 1)) ↔ '>' ∈ line.drop (pos + 1) := Str.mem_trim _ (by decide)
    simp only [Option.bind_eq_bind,Option.bind_some,Option.some.injEq,forall_eq',← pipe,← output]
    cases blank : (Str.trim (line.drop (pos + 1))).isEmpty with
    | true => simp [List.isEmpty_iff.mp blank]
    | false =>
      simp only [Bool.false_or,Bool.or_eq_true,List.contains_eq_mem,decide_eq_true_eq,Bool.false_eq_true,if_false]
      split
      next refused =>
        constructor
        · intro same
          cases congrArg (fun parsed => parsed.2.inputFile) same
        · intro plain
          exact absurd refused (not_or.mpr plain)
      next accepted => simpa using not_or.mp accepted

theorem agree_of_append {line : Str} (append : Usable (lit ">>") line) :
    redirect (parseRedirections line) = PolarOs.parseRedirections line := by
  obtain ⟨pos,filename,found,named⟩ := append
  change outputName (line.drop (pos + 2)) = some filename at named
  have files : outputFiles line = (line.take pos,none,some filename) := by
    unfold outputFiles
    simp only [found,named]
  have shell : appendRedirection line = some (inputBefore (line.take pos) (.append filename)) := by
    rw [appendRedirection_eq,found,Option.bind_some,named]
    rfl
  rw [redirect_parseRedirections files,PolarOs.parseRedirections,shell]
  rfl

theorem agree_of_write {line : Str} (missing : Str.rfind (lit ">>") line = none) (write : Usable (lit ">") line) :
    redirect (parseRedirections line) = PolarOs.parseRedirections line := by
  obtain ⟨pos,filename,found,named⟩ := write
  change Str.rfind ['>'] line = some pos at found
  change outputName (line.drop (pos + 1)) = some filename at named
  have files : outputFiles line = (line.take pos,some filename,none) := by
    unfold outputFiles
    simp only [missing,found,named]
  have append : appendRedirection line = none := by rw [appendRedirection_eq,missing]; rfl
  have shell : writeRedirection line = some (inputBefore (line.take pos) (.write filename)) := by
    rw [writeRedirection_eq,found,Option.bind_some,if_neg (single_of_no_append missing found),named]
    rfl
  rw [redirect_parseRedirections files,PolarOs.parseRedirections,append,shell]
  rfl

/-- After an unusable `>>` only the shell tries the last `>` by itself. -/
theorem disagree_of_write {line : Str} (terminal : redirect (parseRedirections line) = inputBefore line .print)
    (append : ¬Usable (lit ">>") line) (write : Usable (lit ">") line) (single : ¬Doubled line) :
    redirect (parseRedirections line) ≠ PolarOs.parseRedirections line := by
  obtain ⟨pos,filename,found,named⟩ := write
  have shell : writeRedirection line = some (inputBefore (line.take pos) (.write filename)) := by
    have apart : (line.take pos).getLast? ≠ some '>' := fun doubled => single ⟨pos,found,doubled⟩
    change Str.rfind ['>'] line = some pos at found
    change outputName (line.drop (pos + 1)) = some filename at named
    rw [writeRedirection_eq,found,Option.bind_some,if_neg apart,named]
    rfl
  intro same
  rw [terminal,PolarOs.parseRedirections,appendRedirection_none append,shell] at same
  have modes := congrArg (fun parsed => parsed.2.outputMode) same
  change (inputBefore line .print).2.outputMode = (inputBefore (line.take pos) (.write filename)).2.outputMode at modes
  rw [inputBefore_outputMode,inputBefore_outputMode] at modes
  cases modes

/-- The two parsers agree on the plain lines and on no other. -/
theorem redirections_agree (line : Str) :
    redirect (parseRedirections line) = PolarOs.parseRedirections line ↔ Plain line := by
  by_cases append : Usable (lit ">>") line
  · exact iff_of_true (agree_of_append append) (Or.inl append)
  by_cases write : Str.rfind (lit ">>") line = none ∧ Usable (lit ">") line
  · exact iff_of_true (agree_of_write write.1 write.2) (Or.inr (Or.inl write))
  have terminal : redirect (parseRedirections line) = inputBefore line .print :=
    redirect_parseRedirections (outputFiles_none append (not_and.mp write))
  have plain : Plain line ↔ (Usable (lit ">") line → Doubled line) ∧ PlainInput line := by
    unfold Plain
    rw [or_iff_right append,or_iff_right write,and_iff_right append]
  rw [plain]
  by_cases single : Usable (lit ">") line → Doubled line
  · rw [and_iff_right single,terminal,PolarOs.parseRedirections,appendRedirection_none append,
      writeRedirection_none single]
    exact inputRedirection_agrees line
  · obtain ⟨usable,apart⟩ := Classical.not_imp.mp single
    exact iff_of_false (disagree_of_write terminal append usable apart) (fun both => single both.1)

theorem redirections_pipe :
    redirect (parseRedirections (lit "cat < a | wc")) ≠ PolarOs.parseRedirections (lit "cat < a | wc") := by
  decide

end PolarOs.Gui.TerminalWidget
