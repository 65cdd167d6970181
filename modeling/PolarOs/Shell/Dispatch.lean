import PolarOs.Shell.Commands
import PolarOs.Shell.Environment
import PolarOs.Shell.Storage

/-! The command table and `run_command` (`shell/commands.rs`). The world is what the
handlers share behind their locks; the working directory belongs to the shell. -/
namespace PolarOs
open Library Library.Checked

variable {δ μ : Type}

/-- The parts of the machine that are not in the shell: the disk driver, the Unicode
tables, and the ELF loader over the memory it maps. -/
structure Platform (δ μ : Type) where
  ata : Ata δ
  isAlphanumeric : Char → Bool
  loadAndMapElf : Bytes → μ → Checked (Except Str UInt64 × μ)

inductive Color where
  | lightRed
  | lightGreen
deriving DecidableEq

inductive Output where
  | print (text : Str)
  | setColor (foreground : Color)
  | clearScreen
deriving DecidableEq

structure World (δ μ : Type) where
  fs : RamFs
  env : Env
  sched : Scheduler
  layout : LayoutId
  ticks : Nat
  heapUsed : Nat
  heapFree : Nat
  disk : δ
  memory : μ
  console : List Output

namespace World

def println (world : World δ μ) (text : Str) : World δ μ :=
  {world with console := world.console ++ [.print (text ++ ['\n'])]}

def shellError (world : World δ μ) (message : Str) : World δ μ :=
  {world with console := world.console ++
      [.setColor .lightRed,.print (message ++ ['\n']),.setColor .lightGreen] }

end World

/-- The wrapper functions of the table. -/
inductive Handler where
  | help
  | echo
  | ls
  | cat
  | touch
  | write
  | rm
  | mkdir
  | pwd
  | grep
  | wc
  | cp
  | mv
  | hexdump
  | head
  | tail
  | sort
  | uniq
  | save
  | uptime
  | info
  | ps
  | spawn
  | kill
  | exec
  | env
  | exportVar
  | fatls
  | keymap
deriving DecidableEq

structure CommandEntry where
  name : Str
  help : Str
  handler : Option Handler

def commandTable : List CommandEntry := [
  ⟨lit "help",lit "Wyswietl te pomoc",some .help⟩,
  ⟨lit "echo",lit "Wyswietl tekst",some .echo⟩,
  ⟨lit "clear",lit "Wyczysc ekran",none⟩,
  ⟨lit "ls",lit "Lista plikow i katalogow",some .ls⟩,
  ⟨lit "cat",lit "Wyswietl zawartosc pliku",some .cat⟩,
  ⟨lit "touch",lit "Utworz pusty plik",some .touch⟩,
  ⟨lit "write",lit "Zapisz tekst do pliku",some .write⟩,
  ⟨lit "rm",lit "Usun plik lub pusty katalog",some .rm⟩,
  ⟨lit "mkdir",lit "Utworz katalog",some .mkdir⟩,
  ⟨lit "cd",lit "Zmien katalog (cd .. / cd /)",none⟩,
  ⟨lit "pwd",lit "Wyswietl biezacy katalog",some .pwd⟩,
  ⟨lit "grep",lit "Szukaj wzorca w pliku",some .grep⟩,
  ⟨lit "wc",lit "Policz linie/slowa/bajty",some .wc⟩,
  ⟨lit "cp",lit "Kopiuj plik",some .cp⟩,
  ⟨lit "mv",lit "Przenies/zmien nazwe pliku",some .mv⟩,
  ⟨lit "hexdump",lit "Zrzut szesnastkowy pliku",some .hexdump⟩,
  ⟨lit "head",lit "Pokaz pierwszych N linii",some .head⟩,
  ⟨lit "tail",lit "Pokaz ostatnich N linii",some .tail⟩,
  ⟨lit "sort",lit "Sortuj linie",some .sort⟩,
  ⟨lit "uniq",lit "Usun powtorzenia (pipe)",some .uniq⟩,
  ⟨lit "save",lit "Zapisz FS na dysk ATA",some .save⟩,
  ⟨lit "load",lit "Wczytaj FS z dysku ATA",none⟩,
  ⟨lit "uptime",lit "Czas dzialania systemu",some .uptime⟩,
  ⟨lit "info",lit "Informacje systemowe",some .info⟩,
  ⟨lit "ps",lit "Lista procesow/taskow",some .ps⟩,
  ⟨lit "spawn",lit "Uruchom demo task",some .spawn⟩,
  ⟨lit "kill",lit "Zakoncz task o podanym ID",some .kill⟩,
  ⟨lit "exec",lit "Uruchom program uzytkownika",some .exec⟩,
  ⟨lit "env",lit "Pokaz zmienne srodowiskowe",some .env⟩,
  ⟨lit "export",lit "Ustaw zmienna srodowiskowa",some .exportVar⟩,
  ⟨lit "fatls",lit "Lista plikow FAT32",some .fatls⟩,
  ⟨lit "keymap",lit "Pokaz/zmien layout klawiatury",some .keymap⟩]

def cmdHelp : Str :=
  lit "Dostepne komendy:\n" ++
    (commandTable.flatMap fun entry => lit "  " ++ padRight 16 entry.name ++ lit "- " ++ entry.help ++ lit "\n") ++
    lit "Pipe: cmd1 | cmd2   Redirect: cmd > plik, >> plik, < plik"

/-- What the wrappers call. None of the called functions gets the working directory mutably. -/
def Handler.run (p : Platform δ μ) (handler : Handler) (args : Str) (cwd : List Str) (pipeInput : Option Str)
    (world : World δ μ) : Checked (Str × World δ μ) :=
  match handler with
  | .help => .ok (cmdHelp,world)
  | .echo => .ok (cmdEcho args,world)
  | .ls => .ok (cmdLs world.fs cwd,world)
  | .cat => .ok (cmdCat world.fs args cwd,world)
  | .touch => let (output,fs) := cmdTouch world.fs args cwd; .ok (output,{world with fs})
  | .write => let (output,fs) := cmdWrite world.fs args cwd; .ok (output,{world with fs})
  | .rm => let (output,fs) := cmdRm world.fs args cwd; .ok (output,{world with fs})
  | .mkdir => let (output,fs) := cmdMkdir world.fs args cwd; .ok (output,{world with fs})
  | .pwd => .ok (cmdPwd cwd,world)
  | .grep => .ok (cmdGrep world.fs args cwd pipeInput,world)
  | .wc => .ok (cmdWc world.fs args cwd pipeInput,world)
  | .cp => let (output,fs) := cmdCp world.fs args cwd; .ok (output,{world with fs})
  | .mv => let (output,fs) := cmdMv world.fs args cwd; .ok (output,{world with fs})
  | .hexdump => .ok (cmdHexdump world.fs args cwd,world)
  | .head => .ok (cmdHead world.fs args cwd pipeInput,world)
  | .tail => .ok (cmdTail world.fs args cwd pipeInput,world)
  | .sort => .ok (cmdSort world.fs args cwd pipeInput,world)
  | .uniq => .ok (cmdUniq pipeInput,world)
  | .save => let (output,disk) := cmdSave p.ata world.fs world.disk; .ok (output,{world with disk})
  | .uptime => .ok (cmdUptime world.ticks,world)
  | .info => .ok (cmdInfo world.heapUsed world.heapFree (p.ata.isAvailable world.disk),world)
  | .ps => .ok (cmdPs world.sched,world)
  | .spawn => let (output,sched) := cmdSpawn world.sched args; .ok (output,{world with sched})
  | .kill => let (output,sched) := cmdKill world.sched args; .ok (output,{world with sched})
  | .exec => do
    let (output,sched,disk,memory) ←
      cmdExec p.ata p.loadAndMapElf world.fs args cwd world.sched world.disk world.memory
    return (output,{world with sched,disk,memory})
  | .env => .ok (cmdEnv world.env,world)
  | .exportVar => let (output,map) := cmdExport world.env args; .ok (output,{world with env := map})
  | .fatls => do
    let (output,disk) ← cmdFatls p.ata world.disk
    return (output,{world with disk})
  | .keymap => let (output,layout) := cmdKeymap world.layout args; .ok (output,{world with layout})

/-- The loop over the table: the first entry of the name that has a handler. -/
def lookupHandler (cmd : Str) : Option Handler :=
  commandTable.findSome? fun entry => if entry.name = cmd then entry.handler else none

/-- The output, the working directory and the world after one command. -/
def runCommand (p : Platform δ μ) (cmd args : Str) (cwd : List Str) (pipeInput : Option Str)
    (world : World δ μ) : Checked (Str × List Str × World δ μ) :=
  if cmd = lit "clear" then .ok ([],cwd,{world with console := world.console ++ [.clearScreen]})
  else if cmd = lit "cd" then .ok ([],cmdCd world.fs args cwd,world)
  else if cmd = lit "load" then do
    let (output,fs,cwd,disk) ← cmdLoad p.ata world.fs cwd world.disk
    return (output,cwd,{world with fs,disk})
  else match lookupHandler cmd with
    | some handler => do
      let (output,world) ← handler.run p args cwd pipeInput world
      return (output,cwd,world)
    | none => .ok (lit "Nieznana komenda: '" ++ cmd ++ lit "'. Wpisz 'help' aby zobaczyc liste komend.",cwd,world)

end PolarOs
