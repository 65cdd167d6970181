import PolarOs.Fs.RamFs
import PolarOs.Library.LittleEndian
import PolarOs.Library.Utf8

/-! The saved-filesystem format (`serialize`, `load_from` in `fs/ramfs.rs`). Casts to
`u16`, `u8` and `u32` truncate as in the source. The decoder keeps the source's order
of checks, reads and steps; its recursion has no measure there, here it has fuel. -/
namespace PolarOs
open Library Library.SortedMap Library.Reader

mutual

def serializeEntry (name : Str) : FsEntry → Bytes
  | .file data =>
    let nameBytes := Utf8.encode name
    let nameLen := min nameBytes.length 255
    [0,UInt8.ofNat nameLen] ++ nameBytes.take nameLen ++
      LittleEndian.encode 4 (data.length % 2^32) ++ data
  | .dir children =>
    let nameBytes := Utf8.encode name
    let nameLen := min nameBytes.length 255
    [1,UInt8.ofNat nameLen] ++ nameBytes.take nameLen ++
      (LittleEndian.encode 2 (children.length % 2^16) ++ serializeEntries children)

/-- The loop over the entries of one directory. -/
def serializeEntries : List (Str × FsEntry) → Bytes
  | [] => []
  | (name,entry)::rest => serializeEntry name entry ++ serializeEntries rest

end

def serializeDir (dir : Dir) : Bytes :=
  LittleEndian.encode 2 (dir.length % 2^16) ++ serializeEntries dir

def RamFs.serialize (fs : RamFs) : Bytes :=
  serializeDir fs.root

/-- The body of the entry loop over any way of adding an entry; `recurse` stands for the recursive call. -/
def readEntry (add : Dir → Str → FsEntry → Dir) (recurse : Reader Dir) (dir : Dir) : Reader Dir := do
  let (entryType,nameLen) ← guarded 2 (do
    let entryType ← byteAt 0
    let nameLen ← byteAt 1
    return (entryType,nameLen.toNat))
  let name ← guarded nameLen (do
    let bytes ← bytesOf nameLen
    ofOption (Utf8.decode bytes))
  if entryType = 0 then
    let dataLen ← guarded 4 (do
      let b0 ← byteAt 0
      let b1 ← byteAt 1
      let b2 ← byteAt 2
      let b3 ← byteAt 3
      return LittleEndian.decode [b0,b1,b2,b3])
    let fileData ← guarded dataLen (bytesOf dataLen)
    return add dir name (.file fileData)
  else if entryType = 1 then
    let children ← recurse
    return add dir name (.dir children)
  else
    reject

def readBody (add : Dir → Str → FsEntry → Dir) (recurse : Reader Dir) : Reader Dir := do
  let count ← guarded 2 (do
    let b0 ← byteAt 0
    let b1 ← byteAt 1
    return LittleEndian.decode [b0,b1])
  iterate count (readEntry add recurse) []

/-- The source adds an entry by an insertion into the map. -/
def deserializeEntry (recurse : Reader Dir) (dir : Dir) : Reader Dir := readEntry insert recurse dir

def deserializeBody (recurse : Reader Dir) : Reader Dir := readBody insert recurse

def deserializeFuel : Nat → Reader Dir
  | 0 => exhausted
  | fuel+1 => deserializeBody (deserializeFuel fuel)

/-- Every nested directory takes at least one byte, so the length of the input bounds
the depth of the recursion. -/
def deserializeDir : Reader Dir := fun data pos =>
  deserializeFuel (data.length + 1) data pos

end PolarOs
