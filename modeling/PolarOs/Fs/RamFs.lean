import PolarOs.Text
import PolarOs.Library.SortedMap
import PolarOs.Library.Reader
import Mathlib.Data.Char
import Mathlib.Data.List.Lex

/-! The in-memory filesystem (`fs/ramfs.rs`, `fs/mod.rs`). A `BTreeMap<String, _>` is
its list of entries in key order; Rust orders strings by their bytes, which is the
order of their characters. A tree carries the proof that every directory is ordered. -/
namespace PolarOs
open Library Library.SortedMap

inductive FsEntry where
  | file (data : Bytes)
  | dir (children : List (Str × FsEntry))

abbrev Dir := List (Str × FsEntry)

inductive Dir.WellFormed : Dir → Prop
  | intro (dir : Dir) (sorted : Sorted dir)
      (below : ∀ name children, (name,.dir children) ∈ dir → WellFormed children) : WellFormed dir

def FsEntry.WellFormed : FsEntry → Prop
  | .file _ => True
  | .dir children => Dir.WellFormed children

namespace Dir

theorem WellFormed.sorted {dir : Dir} (good : WellFormed dir) : Sorted dir := by
  cases good
  assumption

theorem WellFormed.entry {dir : Dir} (good : WellFormed dir) {name : Str} {entry : FsEntry}
    (member : (name,entry) ∈ dir) : entry.WellFormed := by
  obtain ⟨_,_,below⟩ := good
  cases entry with
  | file data => trivial
  | dir children => exact below name children member

theorem WellFormed.found {dir : Dir} (good : WellFormed dir) {name : Str} {entry : FsEntry}
    (found : find dir name = some entry) : entry.WellFormed :=
  good.entry (mem_of_find found)

theorem wellFormed_nil : WellFormed [] :=
  .intro _ List.Pairwise.nil (by simp)

theorem WellFormed.insert {dir : Dir} (good : WellFormed dir) (name : Str) {entry : FsEntry}
    (entryGood : entry.WellFormed) : WellFormed (SortedMap.insert dir name entry) := by
  refine .intro _ (sorted_insert good.sorted name entry) ?_
  intro other children member
  rcases mem_insert member with same | old
  · cases same
    exact entryGood
  · exact good.entry old

theorem WellFormed.erase {dir : Dir} (good : WellFormed dir) (name : Str) :
    WellFormed (SortedMap.erase dir name) := by
  refine .intro _ (sorted_erase good.sorted name) ?_
  intro other children member
  exact good.entry (List.mem_filter.mp member).1

/-- The loop of `get_dir`. -/
def getDir : Dir → List Str → Option Dir
  | current,[] => some current
  | current,component::path =>
    match find current component with
    | some (.dir dir) => getDir dir path
    | _ => none

/-- A mutable borrow of one directory of a tree: the directory and the tree with the
directory's final content written back. -/
structure Borrow where
  dir : Dir
  back : Dir → Dir
  wellFormed : WellFormed dir
  restores : ∀ changed, WellFormed changed → WellFormed (back changed)

/-- The loop of `get_dir_mut`. -/
def getDirMut : (current : Dir) → WellFormed current → List Str → Option Borrow
  | current,good,[] => some ⟨current,id,good,fun _ changedGood => changedGood⟩
  | current,good,component::path =>
    match found : find current component with
    | some (.dir dir) =>
      match getDirMut dir (good.found found) path with
      | some inner => some {
          dir := inner.dir
          back := fun changed => insert current component (.dir (inner.back changed))
          wellFormed := inner.wellFormed
          restores := fun changed changedGood =>
            good.insert component (inner.restores changed changedGood) }
      | none => none
    | _ => none

end Dir

structure RamFs where
  root : Dir
  wellFormed : root.WellFormed

@[ext] theorem RamFs.ext {first second : RamFs} (same : first.root = second.root) : first = second := by
  cases first
  cases second
  cases same
  rfl

structure DirEntry where
  name : Str
  isDir : Bool
  size : Nat
deriving DecidableEq

inductive RemoveResult where
  | ok
  | notFound
  | dirNotEmpty
deriving DecidableEq

namespace RamFs

def new : RamFs := ⟨[],Dir.wellFormed_nil⟩

def getDir (fs : RamFs) (path : List Str) : Option Dir :=
  fs.root.getDir path

def getDirMut (fs : RamFs) (path : List Str) : Option Dir.Borrow :=
  Dir.getDirMut fs.root fs.wellFormed path

def replace (_ : RamFs) (other : RamFs) : RamFs := ⟨other.root,other.wellFormed⟩

/-- `dir.insert(name, entry)` through a borrow. -/
def insert (dir : Dir.Borrow) (name : Str) (entry : FsEntry) (good : entry.WellFormed) : RamFs :=
  ⟨dir.back (SortedMap.insert dir.dir name entry),dir.restores _ (dir.wellFormed.insert name good)⟩

/-- `dir.remove(name)` through a borrow. -/
def erase (dir : Dir.Borrow) (name : Str) : RamFs :=
  ⟨dir.back (SortedMap.erase dir.dir name),dir.restores _ (dir.wellFormed.erase name)⟩

def list (fs : RamFs) (path : List Str) : Option (List DirEntry) := do
  let dir ← fs.getDir path
  return dir.map fun (name,entry) =>
    let (isDir,size) := match entry with
      | .file data => (false,data.length)
      | .dir _ => (true,0)
    ⟨name,isDir,size⟩

def read (fs : RamFs) (path : List Str) (name : Str) : Option Bytes := do
  let dir ← fs.getDir path
  match find dir name with
  | some (.file data) => some data
  | _ => none

def write (fs : RamFs) (path : List Str) (name : Str) (data : Bytes) : Bool × RamFs :=
  match fs.getDirMut path with
  | none => (false,fs)
  | some dir =>
    match find dir.dir name with
    | some (.dir _) => (false,fs)
    | _ => (true,insert dir name (.file data) trivial)

def create (fs : RamFs) (path : List Str) (name : Str) : Bool × RamFs :=
  match fs.getDirMut path with
  | none => (false,fs)
  | some dir =>
    if (find dir.dir name).isSome then (false,fs)
    else (true,insert dir name (.file []) trivial)

def remove (fs : RamFs) (path : List Str) (name : Str) : RemoveResult × RamFs :=
  match fs.getDirMut path with
  | none => (.notFound,fs)
  | some dir =>
    match find dir.dir name with
    | none => (.notFound,fs)
    | some (.dir (_::_)) => (.dirNotEmpty,fs)
    | _ => (.ok,erase dir name)

def mkdir (fs : RamFs) (path : List Str) (name : Str) : Bool × RamFs :=
  match fs.getDirMut path with
  | none => (false,fs)
  | some dir =>
    if (find dir.dir name).isSome then (false,fs)
    else (true,insert dir name (.dir []) Dir.wellFormed_nil)

def isDir (fs : RamFs) (path : List Str) (name : Str) : Bool :=
  match fs.getDir path with
  | some dir => match find dir name with
    | some (.dir _) => true
    | _ => false
  | none => false

def names (fs : RamFs) (path : List Str) : List Str :=
  match fs.getDir path with
  | some dir => dir.map Prod.fst
  | none => []

end RamFs

def RamFs.exists (fs : RamFs) (path : List Str) (name : Str) : Bool :=
  match fs.getDir path with
  | some dir => (find dir name).isSome
  | none => false

end PolarOs
