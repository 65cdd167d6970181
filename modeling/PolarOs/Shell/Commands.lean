import PolarOs.Fs.Fat
import PolarOs.Fs.RamFs
import PolarOs.Kernel.Scheduler
import PolarOs.Drivers.Keyboard
import Mathlib.Data.List.Defs

/-! The handlers of `shell/commands.rs` other than `save` and `load`. A handler takes the
parts of the machine it reads and returns its output with the parts it changes. -/
namespace PolarOs
open Library Library.Checked

variable {δ : Type}

/-! Text input and filters. -/

def readTextInput (fs : RamFs) (cwd : List Str) (pipeInput filename : Option Str) (usage : Str) : Except Str Str :=
  match pipeInput,filename with
  | some input,_ => .ok input
  | none,some name =>
    match fs.read cwd name with
    | some data => .ok (Str.ofBytesOr data [])
    | none => .error (lit "Plik '" ++ name ++ lit "' nie istnieje.")
  | none,none => .error usage

/-- Lines with a newline after each, the last one cut off again. -/
def joinLines (lines : List Str) : Str :=
  Str.trimTrailingNewline (lines.flatMap fun line => line ++ ['\n'])

/-- The loop over `-n N [filename]`; the last word that is no option names the file. -/
def parseNLoop (defaultN : Nat) : List Str → Nat → Option Str → Nat × Option Str
  | [],n,fileArg => (n,fileArg)
  | part::parts,n,fileArg =>
    if part = lit "-n" then
      match parts with
      | numStr::parts => parseNLoop defaultN parts ((Str.parseUnsigned (2^64) numStr).getD defaultN) fileArg
      | [] => parseNLoop defaultN [] n (some part)
    else parseNLoop defaultN parts n (some part)

def parseNArgs (args : Str) (defaultN : Nat) : Nat × Option Str :=
  parseNLoop defaultN (Str.splitWhitespace args) defaultN none

def cmdHead (fs : RamFs) (args : Str) (cwd : List Str) (pipeInput : Option Str) : Str :=
  let (n,fileArg) := parseNArgs args 10
  match readTextInput fs cwd pipeInput fileArg (lit "Uzycie: head [-n N] <plik>") with
  | .error message => message
  | .ok text => joinLines ((Str.lines text).take n)

def cmdTail (fs : RamFs) (args : Str) (cwd : List Str) (pipeInput : Option Str) : Str :=
  let (n,fileArg) := parseNArgs args 10
  match readTextInput fs cwd pipeInput fileArg (lit "Uzycie: tail [-n N] <plik>") with
  | .error message => message
  | .ok text =>
    let allLines := Str.lines text
    let start := if allLines.length > n then allLines.length - n else 0
    joinLines (allLines.drop start)

def cmdSort (fs : RamFs) (args : Str) (cwd : List Str) (pipeInput : Option Str) : Str :=
  match readTextInput fs cwd pipeInput (Str.splitWhitespace args).head? (lit "Uzycie: sort <plik>") with
  | .error message => message
  | .ok text => joinLines ((Str.lines text).mergeSort fun a b => decide (a ≤ b))

/-- The loop of `cmd_uniq`: a line goes out when it differs from the one before it. -/
def uniqLines (prev : Option Str) : List Str → List Str
  | [] => []
  | line::lines => if prev ≠ some line then line :: uniqLines (some line) lines else uniqLines prev lines

def cmdUniq (pipeInput : Option Str) : Str :=
  match pipeInput with
  | none => lit "uniq wymaga danych z pipe (np. sort plik | uniq)"
  | some text => joinLines (uniqLines none (Str.lines text))

def cmdGrep (fs : RamFs) (args : Str) (cwd : List Str) (pipeInput : Option Str) : Str :=
  let parts := Str.splitWhitespace args
  match parts.head? with
  | none => lit "Uzycie: grep <wzorzec> [plik]"
  | some pattern =>
    match readTextInput fs cwd pipeInput parts[1]? (lit "Uzycie: grep <wzorzec> <plik>") with
    | .error message => message
    | .ok text =>
      let result := joinLines ((Str.lines text).filter fun line => Str.containsStr pattern line)
      if result.isEmpty then lit "Brak wynikow dla '" ++ pattern ++ lit "'." else result

def cmdWc (fs : RamFs) (args : Str) (cwd : List Str) (pipeInput : Option Str) : Str :=
  match readTextInput fs cwd pipeInput (Str.splitWhitespace args).head? (lit "Uzycie: wc <plik>") with
  | .error message => message
  | .ok text =>
    lit "  " ++ number (Str.lines text).length ++ lit " linii  " ++ number (Str.splitWhitespace text).length ++
      lit " slow  " ++ number (Utf8.encode text).length ++ lit " bajtow"

def cmdEcho (args : Str) : Str := args

/-! Files and directories. -/

def cmdLs (fs : RamFs) (cwd : List Str) : Str :=
  match fs.list cwd with
  | none => lit "Katalog nie istnieje."
  | some entries =>
    if entries.isEmpty then lit "(pusty katalog)"
    else joinLines (entries.map fun entry =>
      if entry.isDir then lit "  " ++ entry.name ++ lit "/"
      else lit "  " ++ entry.name ++ lit " (" ++ number entry.size ++ lit " bajtow)")

def cmdCat (fs : RamFs) (args : Str) (cwd : List Str) : Str :=
  match (Str.splitWhitespace args).head? with
  | none => lit "Uzycie: cat <nazwa_pliku>"
  | some name =>
    match fs.read cwd name with
    | some data => Str.ofBytesOr data (lit "<dane binarne>")
    | none => lit "Plik '" ++ name ++ lit "' nie istnieje."

def cmdTouch (fs : RamFs) (args : Str) (cwd : List Str) : Str × RamFs :=
  match (Str.splitWhitespace args).head? with
  | none => (lit "Uzycie: touch <nazwa_pliku>",fs)
  | some name =>
    match fs.create cwd name with
    | (true,fs) => (lit "Utworzono plik '" ++ name ++ lit "'.",fs)
    | (false,fs) => (lit "'" ++ name ++ lit "' juz istnieje.",fs)

def cmdWrite (fs : RamFs) (args : Str) (cwd : List Str) : Str × RamFs :=
  match Str.splitOnce ' ' args with
  | none => (lit "Uzycie: write <nazwa_pliku> <tekst>",fs)
  | some (name,content) =>
    if name.isEmpty then (lit "Uzycie: write <nazwa_pliku> <tekst>",fs)
    else match fs.write cwd name (Utf8.encode content) with
      | (true,fs) =>
        (lit "Zapisano " ++ number (Utf8.encode content).length ++ lit " bajtow do '" ++ name ++ lit "'.",fs)
      | (false,fs) => (lit "Nie mozna zapisac do '" ++ name ++ lit "'.",fs)

def cmdRm (fs : RamFs) (args : Str) (cwd : List Str) : Str × RamFs :=
  match (Str.splitWhitespace args).head? with
  | none => (lit "Uzycie: rm <nazwa>",fs)
  | some name =>
    match fs.remove cwd name with
    | (.ok,fs) => (lit "Usunieto '" ++ name ++ lit "'.",fs)
    | (.notFound,fs) => (lit "'" ++ name ++ lit "' nie istnieje.",fs)
    | (.dirNotEmpty,fs) => (lit "Katalog '" ++ name ++ lit "' nie jest pusty.",fs)

def cmdMkdir (fs : RamFs) (args : Str) (cwd : List Str) : Str × RamFs :=
  match (Str.splitWhitespace args).head? with
  | none => (lit "Uzycie: mkdir <nazwa>",fs)
  | some name =>
    match fs.mkdir cwd name with
    | (true,fs) => (lit "Utworzono katalog '" ++ name ++ lit "'.",fs)
    | (false,fs) => (lit "'" ++ name ++ lit "' juz istnieje.",fs)

def cmdCd (fs : RamFs) (args : Str) (cwd : List Str) : List Str :=
  match (Str.splitWhitespace args).head? with
  | none => []
  | some target =>
    if target = lit "/" then []
    else if target = lit ".." then cwd.dropLast
    else if target = lit "." then cwd
    else if !fs.exists cwd target then cwd
    else if fs.isDir cwd target then cwd ++ [target]
    else cwd

def cmdPwd (cwd : List Str) : Str :=
  if cwd.isEmpty then lit "/" else cwd.flatMap fun component => '/' :: component

def cmdCp (fs : RamFs) (args : Str) (cwd : List Str) : Str × RamFs :=
  match Str.splitOnce ' ' args with
  | none => (lit "Uzycie: cp <zrodlo> <cel>",fs)
  | some (src,rest) =>
    let dst := Str.trim rest
    match fs.read cwd src with
    | none => (lit "Plik '" ++ src ++ lit "' nie istnieje.",fs)
    | some data =>
      match fs.write cwd dst data with
      | (true,fs) => (lit "Skopiowano '" ++ src ++ lit "' -> '" ++ dst ++ lit "'.",fs)
      | (false,fs) => (lit "Nie mozna zapisac do '" ++ dst ++ lit "'.",fs)

def cmdMv (fs : RamFs) (args : Str) (cwd : List Str) : Str × RamFs :=
  match Str.splitOnce ' ' args with
  | none => (lit "Uzycie: mv <zrodlo> <cel>",fs)
  | some (src,rest) =>
    let dst := Str.trim rest
    if src = dst then ([],fs)
    else match fs.read cwd src with
      | none => (lit "Plik '" ++ src ++ lit "' nie istnieje.",fs)
      | some data =>
        match fs.write cwd dst data with
        | (true,fs) => (lit "Przeniesiono '" ++ src ++ lit "' -> '" ++ dst ++ lit "'.",(fs.remove cwd src).2)
        | (false,fs) => (lit "Nie mozna przeniesc do '" ++ dst ++ lit "'.",fs)

/-- One row of the dump: the offset, sixteen byte columns with a gap after the eighth, the characters. -/
def hexdumpRow (i : Nat) (chunk : Bytes) : Str :=
  hex 8 (i * 16) ++ lit "  " ++
    (chunk.zipIdx.flatMap fun (byte,j) => hex 2 byte.toNat ++ [' '] ++ if j = 7 then [' '] else []) ++
    ((List.range' chunk.length (16 - chunk.length)).flatMap fun j => lit "   " ++ if j = 7 then [' '] else []) ++
    lit " |" ++ (chunk.map fun byte => if 0x20 ≤ byte ∧ byte ≤ 0x7e then Char.ofNat byte.toNat else '.') ++ lit "|"

def cmdHexdump (fs : RamFs) (args : Str) (cwd : List Str) : Str :=
  match (Str.splitWhitespace args).head? with
  | none => lit "Uzycie: hexdump <plik>"
  | some name =>
    match fs.read cwd name with
    | some data => joinLines ((List.toChunks 16 data).zipIdx.map fun (chunk,i) => hexdumpRow i chunk)
    | none => lit "Plik '" ++ name ++ lit "' nie istnieje."

/-! The system. -/

def timerHz : Nat := 100

def cmdUptime (ticks : Nat) : Str :=
  let totalSecs := ticks / timerHz
  let hours := totalSecs / 3600
  let minutes := (totalSecs % 3600) / 60
  let secs := totalSecs % 60
  lit "Uptime: " ++ number hours ++ lit "h " ++ padLeft 2 '0' (number minutes) ++ lit "m " ++
    padLeft 2 '0' (number secs) ++ lit "s (" ++ number ticks ++ lit " tickow @ " ++ number timerHz ++ lit "Hz)"

def cmdInfo (heapUsed heapFree : Nat) (available : Bool) : Str :=
  let totalKb := (heapUsed + heapFree) / 1024
  let usedKb := heapUsed / 1024
  lit "=== Informacje systemowe ===\n" ++
  lit "  System:        PolarOs v0.1.0\n" ++
  lit "  Architektura:  x86_64\n" ++
  lit "  Jezyk:         Rust (nightly)\n" ++
  lit "  Klawiatura:    PS/2 (IRQ1)\n" ++
  lit "  Heap:          " ++ number usedKb ++ lit "/" ++ number totalKb ++ lit " KiB\n" ++
  lit "  Filesystem:    RamFs (drzewo katalogow)\n" ++
  lit "  Dysk ATA:      " ++ (if available then lit "dostepny" else lit "niedostepny")

def cmdPs (sched : Scheduler) : Str :=
  let header := lit "  ID  STAN         NAZWA\n"
  Str.trimTrailingNewline (header ++ sched.tasks.flatMap fun task =>
    let state := match task.state with
      | .ready => lit "Ready      "
      | .running => lit "Running    "
      | .terminated => lit "Terminated "
    lit "  " ++ padLeft 3 ' ' (number task.id.toNat) ++ lit " " ++ state ++ lit "  " ++ task.name ++ lit "\n")

def cmdSpawn (sched : Scheduler) (args : Str) : Str × Scheduler :=
  let name := (Str.splitWhitespace args).head?.getD (lit "counter")
  if name = lit "counter" then
    let (id,sched) := sched.spawn (lit "demo-counter")
    (lit "Uruchomiono task 'counter' (ID=" ++ number id.toNat ++ lit ")",sched)
  else if name = lit "hello" then
    let (id,sched) := sched.spawn (lit "demo-hello")
    (lit "Uruchomiono task 'hello' (ID=" ++ number id.toNat ++ lit ")",sched)
  else (lit "Dostepne demo taski: counter, hello",sched)

def cmdKill (sched : Scheduler) (args : Str) : Str × Scheduler :=
  match (Str.splitWhitespace args).head? with
  | none => (lit "Uzycie: kill <id>",sched)
  | some idStr =>
    match Str.parseUnsigned (2^64) idStr with
    | none => (lit "Nieprawidlowy ID: '" ++ idStr ++ lit "'",sched)
    | some id =>
      if id = 0 then (lit "Nie mozna zabic taska jadra (ID=0).",sched)
      else match killAndCleanup sched (UInt64.ofNat id) with
        | (true,sched) => (lit "Zakonczono task ID=" ++ number id ++ lit ".",sched)
        | (false,sched) => (lit "Nie znaleziono aktywnego taska o ID=" ++ number id ++ lit ".",sched)

def cmdFatls (ata : Ata δ) (disk : δ) : Checked (Str × δ) := do
  let (files,disk) ← listRootFiles ata disk
  if files.isEmpty then return (lit "(brak plikow lub blad odczytu)",disk)
  return (Str.trimTrailingNewline (lit "Pliki na dysku FAT (root):\n" ++
    files.flatMap fun f => lit "  " ++ f ++ lit "\n"),disk)

/-- The program from the RamFs, or from the FAT volume unless its listing is an error. -/
def findProgram (ata : Ata δ) (fs : RamFs) (name : Str) (cwd : List Str) (disk : δ) : Checked (Option Bytes × δ) := do
  match fs.read cwd name with
  | some data => return (some data,disk)
  | none =>
    let (rootFiles,disk) ← listRootFiles ata disk
    match rootFiles with
    | [] => return (none,disk)
    | first::_ =>
      if Str.containsStr (lit "Error") first || Str.containsStr (lit "Not valid") first then return (none,disk)
      readFile ata name disk

/-- `loadAndMapElf` stands for the ELF loader over the memory it maps. -/
def cmdExec {μ : Type} (ata : Ata δ) (loadAndMapElf : Bytes → μ → Checked (Except Str UInt64 × μ)) (fs : RamFs)
    (args : Str) (cwd : List Str) (sched : Scheduler) (disk : δ) (memory : μ) :
    Checked (Str × Scheduler × δ × μ) := do
  let name := (Str.splitWhitespace args).head?.getD []
  if name = lit "hello" then
    let (id,sched) := sched.spawn (lit "user-hello")
    return (lit "Uruchomiono user program 'hello' (ID=" ++ number id.toNat ++ lit ")",sched,disk,memory)
  else if name = lit "counter" then
    let (id,sched) := sched.spawn (lit "user-counter")
    return (lit "Uruchomiono user program 'counter' (ID=" ++ number id.toNat ++ lit ")",sched,disk,memory)
  else
    let (dataOpt,disk) ← findProgram ata fs name cwd disk
    match dataOpt with
    | none =>
      return (lit "Nie znaleziono programu '" ++ name ++ lit "'. Dostepne wbudowane: hello, counter",sched,disk,memory)
    | some data =>
      let (loaded,memory) ← loadAndMapElf data memory
      match loaded with
      | .ok _ =>
        let (id,sched) := sched.spawn (lit "user-elf")
        return (lit "Uruchomiono ELF '" ++ name ++ lit "' (ID=" ++ number id.toNat ++ lit ")",sched,disk,memory)
      | .error message => return (lit "Blad ladowania ELF: " ++ message,sched,disk,memory)

def cmdKeymap (current : LayoutId) (args : Str) : Str × LayoutId :=
  let name := Str.trim args
  if name.isEmpty then
    (lit "Aktualny layout: " ++ layoutName current ++ lit "\nDostepne: us, uk, de, fr, dvorak, colemak",current)
  else match layoutFromName name with
    | some layout => (lit "Layout zmieniony na: " ++ layoutName layout,layout)
    | none =>
      (lit "Nieznany layout '" ++ name ++ lit "'. Dostepne: us, uk, de, fr, dvorak, colemak",current)

end PolarOs
