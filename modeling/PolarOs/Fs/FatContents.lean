import PolarOs.Fs.FatFaults

/-! The files of a FAT32 volume, of any size and spread over chains of clusters, and how much of
them `read_file` returns: it looks for the name in the first sector of the root directory and
reads the first sector of the file. -/
namespace PolarOs
open Library Library.Checked

variable {disk : Nat → Sector} {cluster : Nat} {clusters : List Nat} {entry : FatEntry} {name : Str}

/-- The cluster is one of the data area. -/
def DataCluster (disk : Nat → Sector) (cluster : Nat) : Prop :=
  2 ≤ cluster ∧ cluster < clusterCount (disk partitionOffset) + 2

/-- The clusters that the first table chains from a cluster on, to an end mark. -/
inductive Chain (disk : Nat → Sector) : Nat → List Nat → Prop
  | last {cluster : Nat} (data : DataCluster disk cluster) (ends : 0x0FFFFFF8 ≤ tableEntry disk 0 cluster) :
      Chain disk cluster [cluster]
  | next {cluster : Nat} {clusters : List Nat} (data : DataCluster disk cluster)
      (rest : Chain disk (tableEntry disk 0 cluster) clusters) : Chain disk cluster (cluster :: clusters)

def clusterSectors (disk : Nat → Sector) (cluster : Nat) : List Sector :=
  (List.range (bootBpb disk).sectorsPerCluster).map fun i => disk ((bootBpb disk).lba cluster + i)

def chainSectors (disk : Nat → Sector) (clusters : List Nat) : List Sector :=
  clusters.flatMap (clusterSectors disk)

/-- The content of a file that is not empty: as many bytes of its chain as its size says. -/
def HasContent (disk : Nat → Sector) (entry : FatEntry) (content : Bytes) : Prop :=
  ∃ clusters, Chain disk entry.cluster clusters ∧
    entry.size ≤ ((chainSectors disk clusters).flatMap Sector.bytes).length ∧
    content = ((chainSectors disk clusters).flatMap Sector.bytes).take entry.size

theorem field_lt (sector : Sector) (offset width : Nat) : sector.field offset width < 256^width := by
  refine Nat.lt_of_lt_of_le (LittleEndian.decode_lt _) (Nat.pow_le_pow_right (by omega) ?_)
  exact List.length_take_le ..

theorem DataCluster.fits (data : DataCluster disk cluster) :
    0 < (bootBpb disk).sectorsPerCluster ∧
      (bootBpb disk).lba cluster + (bootBpb disk).sectorsPerCluster ≤ (disk partitionOffset).field 32 4 := by
  obtain ⟨low,high⟩ := data
  rw [clusterCount] at high
  change cluster < ((disk partitionOffset).field 32 4 - (bootBpb disk).dataStart) / (bootBpb disk).sectorsPerCluster + 2
    at high
  have room : (cluster - 2 + 1) * (bootBpb disk).sectorsPerCluster ≤
      (disk partitionOffset).field 32 4 - (bootBpb disk).dataStart :=
    Nat.le_trans (Nat.mul_le_mul_right _ (by omega)) (Nat.div_mul_le_self ..)
  have some : 0 < (bootBpb disk).sectorsPerCluster := by
    rw [Nat.pos_iff_ne_zero]
    intro zero
    rw [zero,Nat.div_zero] at high
    omega
  rw [Nat.add_mul,Nat.one_mul] at room
  rw [Bpb.lba]
  omega

theorem DataCluster.addresses (data : DataCluster disk cluster) : (bootBpb disk).Addresses cluster := by
  have total : (disk partitionOffset).field 32 4 < 256^4 := field_lt ..
  have fits := data.fits
  exact ⟨data.1,by omega⟩

theorem Chain.data (chain : Chain disk cluster clusters) : DataCluster disk cluster := by
  cases chain with
  | last data => exact data
  | next data => exact data

theorem Chain.sectors (chain : Chain disk cluster clusters) :
    ∃ rest, chainSectors disk clusters = disk ((bootBpb disk).lba cluster) :: rest := by
  obtain ⟨more,count⟩ := Nat.exists_eq_add_of_lt chain.data.fits.1
  have first : ∃ rest, clusterSectors disk cluster = disk ((bootBpb disk).lba cluster) :: rest := by
    rw [clusterSectors,count,Nat.zero_add,List.range_succ_eq_map]
    exact ⟨_,rfl⟩
  obtain ⟨rest,first⟩ := first
  cases chain with
  | last => exact ⟨rest ++ [],by rw [chainSectors,List.flatMap_cons,first,List.flatMap_nil,List.cons_append]⟩
  | next data chain => exact ⟨_,by rw [chainSectors,List.flatMap_cons,first,List.cons_append]⟩

/-- Of the content the first sector of the chain has the first 512 bytes. -/
theorem HasContent.take {content : Bytes} (has : HasContent disk entry content) :
    content.take 512 = (disk ((bootBpb disk).lba entry.cluster)).bytes.take (min entry.size 512) := by
  obtain ⟨clusters,chain,_,rfl⟩ := has
  obtain ⟨rest,sectors⟩ := chain.sectors
  rw [sectors,List.flatMap_cons,List.take_take,Nat.min_comm,List.take_append_of_le_length]
  rw [Sector.size]
  exact Nat.min_le_right ..

end PolarOs
