import PolarOs.Shell.Storage
import PolarOs.Fs.FatVolume

/-! The saved filesystem and the FAT32 volume on one disk. The FAT driver reads sector 0,
the first sector of the root directory and the first sector of a file, wherever the boot
sector and the directory place them; a save writes from sector 2048 on. -/
namespace PolarOs
open Library Library.Checked

/-- The sector of the root directory that the driver reads, none without a volume. -/
def rootLba (disk : Nat → Sector) : Checked (Option Nat) := do
  match ← layoutOf (disk partitionOffset) with
  | .error _ => return none
  | .ok layout => return some (← layout.lba layout.rootCluster)

end PolarOs
