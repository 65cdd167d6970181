import PolarOs.Drivers.Ata
import PolarOs.Library.Checked
import PolarOs.Library.LittleEndian
import PolarOs.Text

/-! The read-only FAT32 driver (`fs/fat.rs`). Records are read from the bytes of their
sector at the offsets of the packed structs; 32-bit arithmetic faults on overflow. -/
namespace PolarOs
open Library Library.Checked

variable {δ α : Type}

def Sector.field (sector : Sector) (offset width : Nat) : Nat :=
  LittleEndian.decode ((sector.bytes.drop offset).take width)

/-- The fields of `BPB` that are read. -/
structure Bpb where
  bytesPerSector : Nat
  sectorsPerCluster : Nat
  reservedSectors : Nat
  fats : Nat
  sectorsPerFat32 : Nat
  rootCluster : Nat

def Bpb.ofSector (sector : Sector) : Bpb where
  bytesPerSector := sector.field 11 2
  sectorsPerCluster := sector.field 13 1
  reservedSectors := sector.field 14 2
  fats := sector.field 16 1
  sectorsPerFat32 := sector.field 36 4
  rootCluster := sector.field 44 4

/-- The fields of the FAT `DirEntry` that are read. -/
structure FatEntry where
  name : Bytes
  ext : Bytes
  attr : UInt8
  clusterHigh : Nat
  clusterLow : Nat
  size : Nat

def FatEntry.ofSector (sector : Sector) (i : Nat) : FatEntry where
  name := (sector.bytes.drop (i * 32)).take 8
  ext := (sector.bytes.drop (i * 32 + 8)).take 3
  attr := sector.bytes.getD (i * 32 + 11) 0
  clusterHigh := sector.field (i * 32 + 20) 2
  clusterLow := sector.field (i * 32 + 26) 2
  size := sector.field (i * 32 + 28) 4

namespace FatEntry

def isFree (entry : FatEntry) : Bool := entry.name.head? == some 0xE5

def isEnd (entry : FatEntry) : Bool := entry.name.head? == some 0x00

def isLongName (entry : FatEntry) : Bool := entry.attr == 0x0F

def isDir (entry : FatEntry) : Bool := entry.attr &&& 0x10 != 0

def filename (entry : FatEntry) : Str :=
  let shown := fun bytes : Bytes => (bytes.filter (· != 0x20)).map fun byte => Char.ofNat byte.toNat
  if entry.ext.head? != some 0x20 then shown entry.name ++ ['.'] ++ shown entry.ext else shown entry.name

def cluster (entry : FatEntry) : Nat := entry.clusterHigh * 2^16 + entry.clusterLow

end FatEntry

def partitionOffset : Nat := 0
def entriesPerSector : Nat := 16

structure FatLayout where
  dataStart : Nat
  rootCluster : Nat
  sectorsPerCluster : Nat

def readFatLayout (ata : Ata δ) (disk : δ) : Checked (Except Str FatLayout × δ) :=
  match ata.readSector partitionOffset disk with
  | (none,disk) => .ok (.error (lit "ATA Read Error"),disk)
  | (some sector,disk) => do
    let bpb := Bpb.ofSector sector
    if bpb.bytesPerSector ≠ 512 then return (.error (lit "Not valid FAT32 (invalid sector size)"),disk)
    let fatStart ← add 32 partitionOffset bpb.reservedSectors
    let fatSize := bpb.sectorsPerFat32
    let dataStart ← add 32 fatStart (← mul 32 bpb.fats fatSize)
    return (.ok ⟨dataStart,bpb.rootCluster,bpb.sectorsPerCluster⟩,disk)

def clusterToLba (cluster dataStart sectorsPerCluster : Nat) : Checked Nat := do
  let offset ← mul 32 (← sub cluster 2) sectorsPerCluster
  add 32 dataStart offset

/-- The entries of one directory sector up to the end mark, without free and long-name ones. -/
def validEntries (sector : Sector) : List FatEntry :=
  let entries := (List.range entriesPerSector).map (FatEntry.ofSector sector)
  (entries.takeWhile fun entry => !entry.isEnd).filter fun entry => !(entry.isFree || entry.isLongName)

def findInRootDir (ata : Ata δ) (layout : FatLayout) (f : FatEntry → Option α) (disk : δ) :
    Checked (Option α × δ) := do
  let rootLba ← clusterToLba layout.rootCluster layout.dataStart layout.sectorsPerCluster
  match ata.readSector rootLba disk with
  | (none,disk) => return (none,disk)
  | (some sector,disk) => return ((validEntries sector).findSome? f,disk)

def listRootFiles (ata : Ata δ) (disk : δ) : Checked (List Str × δ) := do
  match ← readFatLayout ata disk with
  | (.error message,disk) => return ([message],disk)
  | (.ok layout,disk) =>
    let rootLba ← clusterToLba layout.rootCluster layout.dataStart layout.sectorsPerCluster
    match ata.readSector rootLba disk with
    | (none,disk) => return ([lit "Failed to read Root Dir"],disk)
    | (some sector,disk) =>
      let files := (validEntries sector).map fun entry =>
        if entry.isDir then entry.filename ++ ['/']
        else entry.filename ++ lit " (" ++ number entry.size ++ lit " b)"
      return (files,disk)

/-- The result of the read of the data sector is not looked at: a failed one leaves zeros. -/
def readFile (ata : Ata δ) (name : Str) (disk : δ) : Checked (Option Bytes × δ) := do
  match ← readFatLayout ata disk with
  | (.error _,disk) => return (none,disk)
  | (.ok layout,disk) =>
    match ← findInRootDir ata layout (fun entry => if entry.filename = name then some entry else none) disk with
    | (none,disk) => return (none,disk)
    | (some foundEntry,disk) =>
      let lba ← clusterToLba foundEntry.cluster layout.dataStart layout.sectorsPerCluster
      let (buf,disk) := ata.readSector lba disk
      return (some ((buf.getD Sector.zero).bytes.take (min foundEntry.size 512)),disk)

end PolarOs
