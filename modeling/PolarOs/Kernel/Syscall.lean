import PolarOs.Fs.RamFs
import PolarOs.Kernel.Scheduler

/-! The system calls (`kernel/syscall/handlers.rs`). Memory a pointer and a length
describe is given as its bytes; what a call stores to the caller's buffer, prints or
asks of the scheduler is part of its response. -/
namespace PolarOs
open Library

/-- The constants `EBADF`, `ENOENT`, `EINVAL` and `EMFILE`. -/
inductive Errno where
  | ebadf
  | enoent
  | einval
  | emfile
deriving DecidableEq

def Errno.code : Errno → UInt64
  | .ebadf => 0xFFFFFFFFFFFFFFFF
  | .enoent => 0xFFFFFFFFFFFFFFFF
  | .einval => 0xFFFFFFFFFFFFFFFF
  | .emfile => 0xFFFFFFFFFFFFFFFF

abbrev Reply := Except Errno Nat

def Reply.rax : Reply → UInt64
  | .ok value => UInt64.ofNat value
  | .error errno => errno.code

def Reply.Fails (reply : Reply) : Prop := ∃ errno, reply = .error errno

def maxFds : Nat := 16
def reservedFds : Nat := 3

structure OpenFile where
  path : List Str
  name : Str
  offset : Nat
deriving DecidableEq

/-- The one table `FD_TABLE`. -/
abbrev FdTable := Fin maxFds → Option OpenFile

def FdTable.empty : FdTable := fun _ => none

def readUserStr (bytes : Bytes) : Option Str := Utf8.decode bytes

def allocFd (fds : FdTable) : Option (Fin maxFds) :=
  (List.finRange maxFds).find? fun fd => reservedFds ≤ fd.val && (fds fd).isNone

/-- Splits a path like `/docs/info.txt` into directory components and a file name. -/
def parseFilePath (path : Str) : List Str × Str :=
  let path := path.dropWhile (· == '/')
  let parts := (Str.split '/' path).filter (fun part => !part.isEmpty)
  match parts.getLast? with
  | none => ([],[])
  | some filename => (parts.dropLast,filename)

/-- The table after the clean-up loop; `exit_current_task` follows it. -/
def sysExit (fds : FdTable) : FdTable := fun fd => if reservedFds ≤ fd.val then none else fds fd

def sysWrite (fd : Nat) (slice : Bytes) : Str × Reply :=
  if fd ≠ 1 ∧ fd ≠ 2 then ([],.error .ebadf)
  else match Utf8.decode slice with
    | some text => (text,.ok slice.length)
    | none =>
      let shown := slice.filter fun byte => (0x20 ≤ byte && byte ≤ 0x7e) || byte == 10
      (shown.map fun byte => Char.ofNat byte.toNat,.ok slice.length)

def sysOpen (fs : RamFs) (path : Bytes) (fds : FdTable) : Reply × FdTable :=
  match readUserStr path with
  | none => (.error .einval,fds)
  | some path =>
    let (dirPath,filename) := parseFilePath path
    if !fs.exists dirPath filename then (.error .enoent,fds)
    else if fs.isDir dirPath filename then (.error .einval,fds)
    else match allocFd fds with
      | none => (.error .emfile,fds)
      | some fd => (.ok fd.val,Function.update fds fd (some ⟨dirPath,filename,0⟩))

/-- The reply, the bytes stored to the buffer and the table. -/
def sysRead (fs : RamFs) (fd len : Nat) (fds : FdTable) : Reply × Bytes × FdTable :=
  if inside : fd < maxFds then
    match fds ⟨fd,inside⟩ with
    | none => (.error .ebadf,[],fds)
    | some file =>
      match fs.read file.path file.name with
      | none => (.error .enoent,[],fds)
      | some data =>
        let remaining := if file.offset < data.length then data.drop file.offset else []
        let toRead := min remaining.length len
        (.ok toRead,remaining.take toRead,
          Function.update fds ⟨fd,inside⟩ (some {file with offset := file.offset + toRead}))
  else (.error .ebadf,[],fds)

def sysClose (fd : Nat) (fds : FdTable) : Reply × FdTable :=
  if inside : reservedFds ≤ fd ∧ fd < maxFds then
    if (fds ⟨fd,inside.2⟩).isSome then (.ok 0,Function.update fds ⟨fd,inside.2⟩ none)
    else (.error .ebadf,fds)
  else (.error .ebadf,fds)

def sysStat (fs : RamFs) (path : Bytes) : Reply :=
  match readUserStr path with
  | none => .error .einval
  | some path =>
    let (dirPath,filename) := parseFilePath path
    match fs.read dirPath filename with
    | some data => .ok data.length
    | none => .error .enoent

/-- A system call number with its arguments; `other` is every number without a handler. -/
inductive Call where
  | exit (code : Nat)
  | write (fd : Nat) (buf : Bytes)
  | yield
  | getpid
  | openFile (path : Bytes)
  | read (fd len : Nat)
  | close (fd : Nat)
  | stat (path : Bytes)
  | other (nr : Nat)

/-- `rax` is none when the call does not return; `action` is what the scheduler is asked. -/
structure Response where
  rax : Option UInt64
  buffer : Bytes
  printed : Str
  action : Option Action

def Response.plain (reply : Reply) : Response where
  rax := some reply.rax
  buffer := []
  printed := []
  action := none

def syscallDispatch (fs : RamFs) (sched : Scheduler) (fds : FdTable) : Call → Response × FdTable
  | .exit _ => ({ rax := none,buffer := [],printed := [],action := some .exit },sysExit fds)
  | .write fd buf =>
    let (printed,reply) := sysWrite fd buf
    ({Response.plain reply with printed},fds)
  | .yield => ({Response.plain (.ok 0) with action := some .yield},fds)
  | .getpid => (.plain (.ok (sysGetpid sched).toNat),fds)
  | .openFile path =>
    let (reply,fds) := sysOpen fs path fds
    (.plain reply,fds)
  | .read fd len =>
    let (reply,buffer,fds) := sysRead fs fd len fds
    ({Response.plain reply with buffer},fds)
  | .close fd =>
    let (reply,fds) := sysClose fd fds
    (.plain reply,fds)
  | .stat path => (.plain (sysStat fs path),fds)
  | .other _ => (.plain (.error .einval),fds)

example : parseFilePath (lit "//docs//info.txt") = ([lit "docs"],lit "info.txt") := by decide

end PolarOs
