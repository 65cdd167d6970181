import PolarOs.Fs.FatReads

/-! What makes a disk a FAT32 volume, beyond the fields that the driver reads: the number of
clusters, the entries of the tables. -/
namespace PolarOs
open Library Library.Checked

/-! A FAT32 volume with one empty file, 129000 clusters of one sector each behind two
tables of the given size. -/

def bootSector (sectorsPerFat : Nat) : Sector where
  bytes := [0xEB,0x58,0x90] ++ Utf8.encode (lit "POLAROS ") ++ [0,2,1,32,0,2,0,0,0,0,0xF8,0,0,63,0,255,0,0,0,0,0] ++
    LittleEndian.encode 4 (32 + 2 * sectorsPerFat + 129000) ++ LittleEndian.encode 4 sectorsPerFat ++
    [0,0,0,0,2,0,0,0,1,0,6,0] ++ List.replicate 12 0 ++ [0x80,0,0x29,1,2,3,4] ++
    Utf8.encode (lit "POLAROS    FAT32   ") ++ List.replicate 420 0 ++ [0x55,0xAA]
  size := by
    simp only [List.length_append,LittleEndian.length_encode,List.length_replicate]
    decide

/-- The first sector of a table: the media entry, the end mark, one cluster for the root. -/
def tableSector : Sector where
  bytes := [0xF8,0xFF,0xFF,0x0F,0xFF,0xFF,0xFF,0x0F,0xFF,0xFF,0xFF,0x0F] ++ List.replicate 500 0
  size := by
    rw [List.length_append,List.length_replicate]
    rfl

def rootSector : Sector where
  bytes := Utf8.encode (lit "A       TXT") ++ [0x20] ++ List.replicate 500 0
  size := by
    simp only [List.length_append,List.length_replicate]
    decide

def volume (sectorsPerFat : Nat) : Nat → Sector := fun lba =>
  if lba = partitionOffset then bootSector sectorsPerFat
  else if lba = 32 ∨ lba = 32 + sectorsPerFat then tableSector
  else if lba = 32 + 2 * sectorsPerFat then rootSector
  else Sector.zero

/-! The same volume with a file of 600 bytes in clusters 3 and 4. -/

def chainedTableSector : Sector where
  bytes := [0xF8,0xFF,0xFF,0x0F,0xFF,0xFF,0xFF,0x0F,0xFF,0xFF,0xFF,0x0F,4,0,0,0,0xFF,0xFF,0xFF,0x0F] ++
    List.replicate 492 0
  size := by
    rw [List.length_append,List.length_replicate]
    rfl

def chainedRootSector : Sector where
  bytes := Utf8.encode (lit "A       TXT") ++ [0x20] ++ List.replicate 14 0 ++ [3,0,0x58,2,0,0] ++ List.replicate 480 0
  size := by
    simp only [List.length_append,List.length_replicate]
    decide

def chainedVolume : Nat → Sector := fun lba =>
  if lba = partitionOffset then bootSector 1008
  else if lba = 32 ∨ lba = 32 + 1008 then chainedTableSector
  else if lba = 32 + 2 * 1008 then chainedRootSector
  else Sector.zero

def Bpb.dataStart (bpb : Bpb) : Nat := bpb.reservedSectors + bpb.fats * bpb.sectorsPerFat32

def clusterCount (boot : Sector) : Nat :=
  (boot.field 32 4 - (Bpb.ofSector boot).dataStart) / (Bpb.ofSector boot).sectorsPerCluster

def tableEntry (disk : Nat → Sector) (copy cluster : Nat) : Nat :=
  let bpb := Bpb.ofSector (disk partitionOffset)
  (disk (bpb.reservedSectors + copy * bpb.sectorsPerFat32 + cluster / 128)).field (cluster % 128 * 4) 4 % 2^28

/-- What a valid FAT32 volume at sector 0 with a root directory of one cluster has. -/
structure Fat32Volume (disk : Nat → Sector) : Prop where
  signature : (disk partitionOffset).field 510 2 = 0xAA55
  sectorSize : (Bpb.ofSector (disk partitionOffset)).bytesPerSector = 512
  clusterSize : (Bpb.ofSector (disk partitionOffset)).sectorsPerCluster ∈ [1,2,4,8,16,32,64,128]
  reserved : 0 < (Bpb.ofSector (disk partitionOffset)).reservedSectors
  tables : 0 < (Bpb.ofSector (disk partitionOffset)).fats
  noRootEntries : (disk partitionOffset).field 17 2 = 0
  noTotal16 : (disk partitionOffset).field 19 2 = 0
  noTable16 : (disk partitionOffset).field 22 2 = 0
  clusters : 65525 ≤ clusterCount (disk partitionOffset)
  tableSize : (clusterCount (disk partitionOffset) + 2) * 4 ≤ (Bpb.ofSector (disk partitionOffset)).sectorsPerFat32 * 512
  root : 2 ≤ (Bpb.ofSector (disk partitionOffset)).rootCluster ∧
    (Bpb.ofSector (disk partitionOffset)).rootCluster < clusterCount (disk partitionOffset) + 2
  rootEnds : ∀ copy < (Bpb.ofSector (disk partitionOffset)).fats,
    0x0FFFFFF8 ≤ tableEntry disk copy (Bpb.ofSector (disk partitionOffset)).rootCluster

theorem volume_valid : Fat32Volume (volume 1008) where
  signature := by decide +kernel
  sectorSize := by decide +kernel
  clusterSize := by decide +kernel
  reserved := by decide +kernel
  tables := by decide +kernel
  noRootEntries := by decide +kernel
  noTotal16 := by decide +kernel
  noTable16 := by decide +kernel
  clusters := by decide +kernel
  tableSize := by decide +kernel
  root := by decide +kernel
  rootEnds := by decide +kernel

end PolarOs
