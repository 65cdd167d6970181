import PolarOs.Shell.Dispatch

/-! One line of the shell (`shell/mod.rs`): expansion, redirections, the pipeline and the
output. A line is split into its start, the loop over the commands and the delivery. -/
namespace PolarOs
open Library Library.Checked

variable {δ μ : Type}

inductive OutputMode where
  | print
  | write (filename : Str)
  | append (filename : Str)
deriving DecidableEq

structure Redirect where
  inputFile : Option Str
  outputMode : OutputMode
deriving DecidableEq

/-- The text before an output redirection may still name an input file. -/
def inputBefore (before : Str) (outputMode : OutputMode) : Str × Redirect :=
  match Str.rfind ['<'] before with
  | none => (before,⟨none,outputMode⟩)
  | some ipos =>
    let inputName := Str.trim (before.drop (ipos + 1))
    if inputName.isEmpty then (before,⟨none,outputMode⟩)
    else (before.take ipos,⟨some inputName,outputMode⟩)

def appendRedirection (line : Str) : Option (Str × Redirect) := do
  let pos ← Str.rfind (lit ">>") line
  let filename := Str.trim (line.drop (pos + 2))
  if filename.isEmpty || filename.contains '|' then none
  else some (inputBefore (line.take pos) (.append filename))

def writeRedirection (line : Str) : Option (Str × Redirect) := do
  let pos ← Str.rfind ['>'] line
  if pos ≠ 0 ∧ (line.take pos).getLast? = some '>' then none
  else
    let filename := Str.trim (line.drop (pos + 1))
    if filename.isEmpty || filename.contains '|' then none
    else some (inputBefore (line.take pos) (.write filename))

def inputRedirection (line : Str) : Option (Str × Redirect) := do
  let pos ← Str.rfind ['<'] line
  let inputName := Str.trim (line.drop (pos + 1))
  if inputName.isEmpty || inputName.contains '|' || inputName.contains '>' then none
  else some (line.take pos,⟨some inputName,.print⟩)

def parseRedirections (line : Str) : Str × Redirect :=
  (appendRedirection line <|> writeRedirection line <|> inputRedirection line).getD (line,⟨none,.print⟩)

/-- What is left of a line: the parts between the pipes, the text the next command reads
and where the last output goes. -/
structure Pipeline where
  parts : List Str
  pipeData : Option Str
  outputMode : OutputMode
deriving DecidableEq

/-- The line up to its first command; none when there is nothing to run. -/
def startLine (p : Platform δ μ) (line : Str) (cwd : List Str) (world : World δ μ) :
    Option Pipeline × World δ μ :=
  let line := Str.trim (expandEnvVars p.isAlphanumeric world.env line)
  if line.isEmpty then (none,world)
  else
    let (pipelineStr,redirect) := parseRedirections line
    let parts := Str.split '|' pipelineStr
    match redirect.inputFile with
    | none => (some ⟨parts,none,redirect.outputMode⟩,world)
    | some inputFile =>
      match world.fs.read cwd inputFile with
      | some data => (some ⟨parts,some (Str.ofBytesOr data []),redirect.outputMode⟩,world)
      | none => (none,world.shellError (lit "Plik wejsciowy '" ++ inputFile ++ lit "' nie istnieje."))

def runPart (p : Platform δ μ) (part : Str) (pipeData : Option Str) (cwd : List Str) (world : World δ μ) :
    Checked (Option Str × List Str × World δ μ) := do
  let part := Str.trim part
  if part.isEmpty then return (pipeData,cwd,world)
  let (cmd,args) := (Str.splitOnce ' ' part).getD (part,[])
  let (output,cwd,world) ← runCommand p cmd args cwd pipeData world
  return (some output,cwd,world)

def runParts (p : Platform δ μ) : List Str → Option Str → List Str → World δ μ →
    Checked (Option Str × List Str × World δ μ)
  | [],pipeData,cwd,world => .ok (pipeData,cwd,world)
  | part::parts,pipeData,cwd,world => do
    let (pipeData,cwd,world) ← runPart p part pipeData cwd world
    runParts p parts pipeData cwd world

/-- The old content, closed by a newline unless it is empty, and the output. -/
def appended (existing : Bytes) (output : Str) : Bytes :=
  existing ++ (if existing ≠ [] ∧ existing.getLast? ≠ some 10 then [10] else []) ++ Utf8.encode output

def deliverOutput (outputMode : OutputMode) (pipeData : Option Str) (cwd : List Str) (world : World δ μ) : World δ μ :=
  match pipeData with
  | none => world
  | some output =>
    match outputMode with
    | .print => if output.isEmpty then world else world.println output
    | .write filename =>
      match world.fs.write cwd filename (Utf8.encode output) with
      | (true,fs) => {world with fs}.println (lit "Zapisano do '" ++ filename ++ lit "'.")
      | (false,fs) => {world with fs}.shellError (lit "Nie mozna zapisac do '" ++ filename ++ lit "'.")
    | .append filename =>
      let existing := (world.fs.read cwd filename).getD []
      match world.fs.write cwd filename (appended existing output) with
      | (true,fs) => {world with fs}.println (lit "Dopisano do '" ++ filename ++ lit "'.")
      | (false,fs) => {world with fs}.shellError (lit "Nie mozna dopisac do '" ++ filename ++ lit "'.")

def executeLine (p : Platform δ μ) (line : Str) (cwd : List Str) (world : World δ μ) :
    Checked (List Str × World δ μ) :=
  match startLine p line cwd world with
  | (none,world) => .ok (cwd,world)
  | (some pipeline,world) => do
    let (pipeData,cwd,world) ← runParts p pipeline.parts pipeline.pipeData cwd world
    return (cwd,deliverOutput pipeline.outputMode pipeData cwd world)

end PolarOs
