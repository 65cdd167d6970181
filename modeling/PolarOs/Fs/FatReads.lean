import PolarOs.Fs.Fat

/-! The FAT32 driver on a disk whose reads all succeed: what it returns as a function of the
boot sector, of the first sector of the root directory and of the first sector of a file. -/
namespace PolarOs
open Library Library.Checked

def layoutOf (boot : Sector) : Checked (Except Str FatLayout) :=
  (readFatLayout arrayAta fun _ => boot).map Prod.fst

theorem readFatLayout_array (disk : Nat → Sector) :
    readFatLayout arrayAta disk = (layoutOf (disk partitionOffset)).map fun layout => (layout,disk) := by
  simp only [layoutOf,readFatLayout,arrayAta]
  split_ifs
  · rfl
  · simp only [map_of_bind]
    rfl

def FatLayout.lba (layout : FatLayout) (cluster : Nat) : Checked Nat :=
  clusterToLba cluster layout.dataStart layout.sectorsPerCluster

def entryNamed (name : Str) (sector : Sector) : Option FatEntry :=
  (validEntries sector).findSome? fun entry => if entry.filename = name then some entry else none

theorem entryNamed_eq_find (name : Str) (sector : Sector) :
    entryNamed name sector = (validEntries sector).find? fun entry => decide (entry.filename = name) := by
  rw [entryNamed,← List.findSome?_guard]
  congr
  funext entry
  simp only [Option.guard,decide_eq_true_eq]

def listing (sector : Sector) : List Str :=
  (validEntries sector).map fun entry =>
    if entry.isDir then entry.filename ++ ['/']
    else entry.filename ++ lit " (" ++ number entry.size ++ lit " b)"

def listingOf (disk : Nat → Sector) : Except Str FatLayout → Checked (List Str)
  | .error message => .ok [message]
  | .ok layout => (layout.lba layout.rootCluster).map fun root => listing (disk root)

theorem listRootFiles_array (disk : Nat → Sector) :
    (listRootFiles arrayAta disk).map Prod.fst = layoutOf (disk partitionOffset) >>= listingOf disk := by
  rw [listRootFiles,readFatLayout_array]
  cases layoutOf (disk partitionOffset) with
  | error fault => rfl
  | ok result =>
    cases result with
    | error message => rfl
    | ok layout =>
      change (layout.lba layout.rootCluster >>= _).map Prod.fst = (layout.lba layout.rootCluster).map _
      cases layout.lba layout.rootCluster <;> rfl

/-- The sector that the driver reads for the file of an entry, none without an entry. -/
def FatLayout.start (layout : FatLayout) (entry : Option FatEntry) : Checked (Option (FatEntry × Nat)) :=
  match entry with
  | none => .ok none
  | some entry => (layout.lba entry.cluster).map fun lba => some (entry,lba)

def contentOf (disk : Nat → Sector) (name : Str) : Except Str FatLayout → Checked (Option Bytes)
  | .error _ => .ok none
  | .ok layout => do
    let root ← layout.lba layout.rootCluster
    let start ← layout.start (entryNamed name (disk root))
    return start.map fun (entry,lba) => (disk lba).bytes.take (min entry.size 512)

theorem findInRootDir_array {α : Type} (disk : Nat → Sector) (layout : FatLayout) (f : FatEntry → Option α) :
    findInRootDir arrayAta layout f disk =
      (layout.lba layout.rootCluster).map fun root => ((validEntries (disk root)).findSome? f,disk) := by
  change layout.lba layout.rootCluster >>= _ = _
  cases layout.lba layout.rootCluster <;> rfl

theorem readFile_array (disk : Nat → Sector) (name : Str) :
    (readFile arrayAta name disk).map Prod.fst = layoutOf (disk partitionOffset) >>= contentOf disk name := by
  rw [readFile,readFatLayout_array]
  cases layoutOf (disk partitionOffset) with
  | error fault => rfl
  | ok result =>
    cases result with
    | error message => rfl
    | ok layout =>
      change (findInRootDir arrayAta layout _ disk >>= _).map Prod.fst = layout.lba layout.rootCluster >>= _
      rw [findInRootDir_array]
      cases layout.lba layout.rootCluster with
      | error fault => rfl
      | ok root =>
        change (Except.ok (entryNamed name (disk root),disk) >>= _).map Prod.fst =
          layout.start (entryNamed name (disk root)) >>= _
        cases entryNamed name (disk root) with
        | none => rfl
        | some entry =>
          change (layout.lba entry.cluster >>= _).map Prod.fst = (layout.lba entry.cluster).map _ >>= _
          cases layout.lba entry.cluster <;> rfl

end PolarOs
