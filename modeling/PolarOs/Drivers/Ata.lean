import PolarOs.Library.Reader
import Mathlib.Logic.Function.Basic

/-! The disk as the kernel sees it through `drivers/ata.rs`: 512-byte sectors behind
`read_sector` and `write_sector`, either of which may report failure. -/
namespace PolarOs
open Library

structure Sector where
  bytes : Bytes
  size : bytes.length = 512

namespace Sector

@[ext] theorem ext {first second : Sector} (same : first.bytes = second.bytes) : first = second := by
  cases first
  cases second
  cases same
  rfl

def zero : Sector := ⟨List.replicate 512 0,List.length_replicate⟩

/-- `buf[offset..offset + src.len()].copy_from_slice(src)`. -/
def copyFrom (buf : Sector) (offset : Nat) (src : Bytes) (fits : offset + src.length ≤ 512) : Sector where
  bytes := buf.bytes.take offset ++ src ++ buf.bytes.drop (offset + src.length)
  size := by
    have size := buf.size
    simp only [List.length_append,List.length_take,List.length_drop]
    omega

theorem copyFrom_append {buf : Sector} {head tail src : Bytes} {offset length : Nat}
    (split : buf.bytes = head ++ tail) (start : head.length = offset) (size : src.length = length)
    (fits : offset + src.length ≤ 512) :
    (buf.copyFrom offset src fits).bytes = head ++ src ++ tail.drop length := by
  subst start size
  simp only [copyFrom,split,List.take_left,List.drop_append,Nat.add_sub_cancel_left]
  rw [List.drop_of_length_le (by omega),List.nil_append]

end Sector

/-- A device state with the three calls of the driver; a failed read leaves the
caller's buffer as it was. -/
structure Ata (δ : Type) where
  isAvailable : δ → Bool
  readSector : Nat → δ → Option Sector × δ
  writeSector : Nat → Sector → δ → Bool × δ

def dataStartSector : Nat := 2048

def arrayAta : Ata (Nat → Sector) where
  isAvailable _ := true
  readSector lba disk := (some (disk lba),disk)
  writeSector lba buf disk := (true,Function.update disk lba buf)

/-- A disk with any content. A read may fail, depending on the sector and on how many reads
came before; the state is the list of the sectors that were asked for. -/
def faultyAta (content : Nat → Sector) (fails : Nat → Nat → Bool) (available : Bool) : Ata (List Nat) where
  isAvailable _ := available
  readSector lba reads := (if fails reads.length lba then none else some (content lba),reads ++ [lba])
  writeSector _ _ reads := (false,reads)

end PolarOs
