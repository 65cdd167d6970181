import PolarOs.Fs.FatVolume

/-! Where the FAT32 driver faults and where it passes a failed read on. The address of a cluster
is computed from fields that nothing checks, and the read of the file itself is not looked at. -/
namespace PolarOs
open Library Library.Checked

variable {disk content : Nat → Sector} {boot : Sector} {name : Str}

def Bpb.lba (bpb : Bpb) (cluster : Nat) : Nat := bpb.dataStart + (cluster - 2) * bpb.sectorsPerCluster

/-- The cluster is a data cluster, and its address has 32 bits. -/
def Bpb.Addresses (bpb : Bpb) (cluster : Nat) : Prop := 2 ≤ cluster ∧ bpb.lba cluster < 2^32

theorem clusterToLba_ok {cluster dataStart sectorsPerCluster lba : Nat} :
    clusterToLba cluster dataStart sectorsPerCluster = .ok lba ↔
      2 ≤ cluster ∧ lba = dataStart + (cluster - 2) * sectorsPerCluster ∧ lba < 2^32 := by
  rw [clusterToLba]
  constructor
  · intro ran
    obtain ⟨index,subtracted,ran⟩ := bind_ok.mp ran
    obtain ⟨offset,multiplied,ran⟩ := bind_ok.mp ran
    obtain ⟨data,rfl⟩ := sub_eq_ok.mp subtracted
    obtain ⟨_,rfl⟩ := mul_eq_ok.mp multiplied
    obtain ⟨small,rfl⟩ := add_eq_ok.mp ran
    exact ⟨data,rfl,small⟩
  · rintro ⟨data,rfl,small⟩
    have product : (cluster - 2) * sectorsPerCluster < 2^32 := Nat.lt_of_le_of_lt (Nat.le_add_left ..) small
    rw [sub,if_pos data,ok_bind,mul,if_pos product,ok_bind,add,if_pos small]

/-- The layout of a volume, when its data area starts at an address of 32 bits. -/
def Bpb.layout (bpb : Bpb) : FatLayout := ⟨bpb.dataStart,bpb.rootCluster,bpb.sectorsPerCluster⟩

theorem layoutOf_ok (sectorSize : (Bpb.ofSector boot).bytesPerSector = 512) {result : Except Str FatLayout} :
    layoutOf boot = .ok result ↔ (Bpb.ofSector boot).dataStart < 2^32 ∧ result = .ok (Bpb.ofSector boot).layout := by
  rw [layoutOf,map_eq_ok,readFatLayout]
  simp only [arrayAta,sectorSize,ne_eq,not_true_eq_false,if_false]
  constructor
  · rintro ⟨⟨_,_⟩,ran,rfl⟩
    obtain ⟨fatStart,added,ran⟩ := bind_ok.mp ran
    obtain ⟨size,multiplied,ran⟩ := bind_ok.mp ran
    obtain ⟨dataStart,ended,ran⟩ := bind_ok.mp ran
    obtain ⟨_,rfl⟩ := add_eq_ok.mp added
    obtain ⟨_,rfl⟩ := mul_eq_ok.mp multiplied
    obtain ⟨small,rfl⟩ := add_eq_ok.mp ended
    cases ran
    rw [partitionOffset,Nat.zero_add] at small
    refine ⟨small,?_⟩
    rw [partitionOffset,Nat.zero_add]
    rfl
  · rintro ⟨small,rfl⟩
    rw [Bpb.dataStart] at small
    refine ⟨(.ok (Bpb.ofSector boot).layout,fun _ => boot),?_,rfl⟩
    rw [partitionOffset,add,Nat.zero_add,if_pos (by omega),ok_bind,mul,if_pos (by omega),ok_bind,add,if_pos small]
    rfl

theorem lba_ok {bpb : Bpb} {cluster lba : Nat} :
    bpb.layout.lba cluster = .ok lba ↔ bpb.Addresses cluster ∧ lba = bpb.lba cluster := by
  rw [FatLayout.lba,clusterToLba_ok,Bpb.Addresses,Bpb.lba,Bpb.layout]
  constructor
  · rintro ⟨data,rfl,small⟩
    exact ⟨⟨data,small⟩,rfl⟩
  · rintro ⟨⟨data,small⟩,rfl⟩
    exact ⟨data,rfl,small⟩

theorem Bpb.Addresses.place {bpb : Bpb} {cluster : Nat} (addresses : bpb.Addresses cluster) :
    bpb.layout.lba cluster = .ok (bpb.lba cluster) :=
  lba_ok.mpr ⟨addresses,rfl⟩

/-- The boot sector of the disk. -/
def bootBpb (disk : Nat → Sector) : Bpb := Bpb.ofSector (disk partitionOffset)

/-- The first sector of the root directory. -/
def rootDir (disk : Nat → Sector) : Sector := disk ((bootBpb disk).lba (bootBpb disk).rootCluster)

/-- The root directory has an address, and so has each file that a name can reach: the first
entry of that name in the first sector of the directory. -/
structure AddressesFit (disk : Nat → Sector) : Prop where
  root : (bootBpb disk).Addresses (bootBpb disk).rootCluster
  files : ∀ name entry, entryNamed name (rootDir disk) = some entry → (bootBpb disk).Addresses entry.cluster

theorem Bpb.Addresses.table {bpb : Bpb} {cluster : Nat} (addresses : bpb.Addresses cluster) : bpb.dataStart < 2^32 :=
  Nat.lt_of_le_of_lt (Nat.le_add_right ..) addresses.2

theorem listRootFiles_ok_iff (sectorSize : (bootBpb disk).bytesPerSector = 512) :
    (∃ files, listRootFiles arrayAta disk = .ok files) ↔ (bootBpb disk).Addresses (bootBpb disk).rootCluster := by
  have shown := listRootFiles_array disk
  constructor
  · rintro ⟨files,ran⟩
    rw [ran] at shown
    obtain ⟨result,found,listed⟩ := bind_ok.mp shown.symm
    obtain ⟨_,rfl⟩ := (layoutOf_ok sectorSize).mp found
    obtain ⟨root,place,_⟩ := map_eq_ok.mp listed
    exact (lba_ok.mp place).1
  · intro addresses
    have found := (layoutOf_ok sectorSize).mpr ⟨addresses.table,rfl⟩
    have listed : listingOf disk (.ok (bootBpb disk).layout) = .ok (listing (rootDir disk)) :=
      map_eq_ok.mpr ⟨_,addresses.place,rfl⟩
    rw [found,ok_bind] at shown
    obtain ⟨files,ran,_⟩ := map_eq_ok.mp (shown.trans listed)
    exact ⟨files,ran⟩

theorem readFile_root (sectorSize : (bootBpb disk).bytesPerSector = 512)
    (addresses : (bootBpb disk).Addresses (bootBpb disk).rootCluster) (name : Str) :
    (readFile arrayAta name disk).map Prod.fst =
      ((bootBpb disk).layout.start (entryNamed name (rootDir disk))).map fun start =>
        start.map fun (entry,lba) => (disk lba).bytes.take (min entry.size 512) := by
  rw [readFile_array,(layoutOf_ok sectorSize).mpr ⟨addresses.table,rfl⟩,ok_bind]
  change (bootBpb disk).layout.lba (bootBpb disk).rootCluster >>= _ = _
  rw [addresses.place,ok_bind]
  change (bootBpb disk).layout.start (entryNamed name (rootDir disk)) >>= _ = _
  cases (bootBpb disk).layout.start (entryNamed name (rootDir disk)) <;> rfl

theorem start_ok_iff {layout : FatLayout} {entry : Option FatEntry} :
    (∃ start, layout.start entry = .ok start) ↔ ∀ file, entry = some file → ∃ lba, layout.lba file.cluster = .ok lba := by
  cases entry with
  | none => exact iff_of_true ⟨none,rfl⟩ (fun _ same => by cases same)
  | some entry =>
    constructor
    · rintro ⟨start,ran⟩ file same
      cases same
      obtain ⟨lba,place,_⟩ := map_eq_ok.mp ran
      exact ⟨lba,place⟩
    · intro places
      obtain ⟨lba,place⟩ := places entry rfl
      exact ⟨some (entry,lba),map_eq_ok.mpr ⟨lba,place,rfl⟩⟩

/-- All calls of the driver go without a fault exactly when all clusters that they start from
have addresses. -/
theorem fat_calls_return_iff_addresses_fit (sectorSize : (bootBpb disk).bytesPerSector = 512) :
    ((∃ files, listRootFiles arrayAta disk = .ok files) ∧ ∀ name, ∃ data, readFile arrayAta name disk = .ok data) ↔
      AddressesFit disk := by
  rw [listRootFiles_ok_iff sectorSize]
  constructor
  · rintro ⟨root,reads⟩
    refine ⟨root,?_⟩
    intro name entry found
    obtain ⟨data,ran⟩ := reads name
    have shown := readFile_root sectorSize root name
    rw [ran] at shown
    obtain ⟨start,started,_⟩ := map_eq_ok.mp shown.symm
    obtain ⟨lba,place⟩ := start_ok_iff.mp ⟨start,started⟩ entry found
    exact (lba_ok.mp place).1
  · rintro ⟨root,files⟩
    refine ⟨root,?_⟩
    intro name
    obtain ⟨start,started⟩ := start_ok_iff.mpr fun file found => ⟨_,(files name file found).place⟩
    have shown := readFile_root sectorSize root name
    rw [started] at shown
    obtain ⟨data,ran,_⟩ := map_eq_ok.mp shown
    exact ⟨data,ran⟩

theorem chained_calls_return :
    (∃ files, listRootFiles arrayAta chainedVolume = .ok files) ∧
      ∀ name, ∃ data, readFile arrayAta name chainedVolume = .ok data := by
  refine (fat_calls_return_iff_addresses_fit (by decide +kernel)).mpr ⟨?root,?files⟩
  case root =>
    rw [Bpb.Addresses]
    decide +kernel
  case files =>
    intro name entry found
    rw [entryNamed_eq_find] at found
    have numbered : ∀ listed ∈ validEntries (rootDir chainedVolume), listed.cluster = 3 := by decide +kernel
    rw [numbered entry (List.mem_of_find?_eq_some found),Bpb.Addresses]
    decide +kernel

/-- An empty file has cluster 0. -/
theorem empty_file_underflows :
    Fat32Volume (volume 1008) ∧ (bootBpb (volume 1008)).bytesPerSector = 512 ∧
      readFile arrayAta (lit "A.TXT") (volume 1008) = .error .panic := by
  refine ⟨volume_valid,by decide +kernel,?_⟩
  have answered : (readFile arrayAta (lit "A.TXT") (volume 1008)).map Prod.fst = .error .panic := by decide +kernel
  exact map_eq_error.mp answered

/-! Failing reads. Of the three reads of `readFile` the first two stop the call. -/

section FailingReads
variable {fails : Nat → Nat → Bool} {available : Bool}

theorem readFatLayout_faulty (reads : List Nat) :
    readFatLayout (faultyAta content fails available) reads =
      if fails reads.length partitionOffset then .ok (.error (lit "ATA Read Error"),reads ++ [partitionOffset])
      else (layoutOf (content partitionOffset)).map fun layout => (layout,reads ++ [partitionOffset]) := by
  simp only [readFatLayout,faultyAta,layoutOf,arrayAta]
  cases fails reads.length partitionOffset with
  | true => rfl
  | false =>
    simp only [Bool.false_eq_true,if_false]
    split_ifs
    · rfl
    · simp only [map_of_bind]
      rfl

theorem findInRootDir_faulty {α : Type} (layout : FatLayout) (f : FatEntry → Option α) (reads : List Nat) :
    findInRootDir (faultyAta content fails available) layout f reads =
      (layout.lba layout.rootCluster).map fun root =>
        (if fails reads.length root then none else (validEntries (content root)).findSome? f,reads ++ [root]) := by
  change layout.lba layout.rootCluster >>= _ = _
  cases layout.lba layout.rootCluster with
  | error fault => rfl
  | ok root =>
    simp only [ok_bind,faultyAta,Except.map]
    cases fails reads.length root <;> rfl

/-- A call that gets to the read of the file: the two reads before it went well, and the
entry was found. -/
structure ReachesData (content : Nat → Sector) (fails : Nat → Nat → Bool) (name : Str) (root lba : Nat)
    (entry : FatEntry) : Prop where
  boot : fails 0 partitionOffset = false
  directory : fails 1 root = false
  found : entryNamed name (content root) = some entry
  placed : ∃ layout, layoutOf (content partitionOffset) = .ok (.ok layout) ∧
    layout.lba layout.rootCluster = .ok root ∧ layout.lba entry.cluster = .ok lba

def dataRead (content : Nat → Sector) (fails : Nat → Nat → Bool) (lba : Nat) (entry : FatEntry) : Bytes :=
  (if fails 2 lba then Sector.zero else content lba).bytes.take (min entry.size 512)

theorem ReachesData.readFile {root lba : Nat} {entry : FatEntry}
    (reaches : ReachesData content fails name root lba entry) :
    readFile (faultyAta content fails available) name [] =
      .ok (some (dataRead content fails lba entry),[partitionOffset,root,lba]) := by
  obtain ⟨layout,found,directory,data⟩ := reaches.placed
  rw [PolarOs.readFile,readFatLayout_faulty,List.length_nil,reaches.boot,if_neg Bool.false_ne_true,found]
  change findInRootDir (faultyAta content fails available) layout _ [partitionOffset] >>= _ = _
  rw [findInRootDir_faulty,directory]
  change Except.ok (if fails 1 root then none else entryNamed name (content root),[partitionOffset,root]) >>= _ = _
  rw [reaches.directory,if_neg Bool.false_ne_true,reaches.found,ok_bind]
  change layout.lba entry.cluster >>= _ = _
  rw [data,ok_bind,dataRead]
  simp only [faultyAta]
  cases fails 2 lba <;> rfl

theorem reachesData_of_some {data : Bytes} {reads : List Nat}
    (ran : readFile (faultyAta content fails available) name [] = .ok (some data,reads)) :
    ∃ root lba entry, ReachesData content fails name root lba entry := by
  obtain ⟨⟨located,afterBoot⟩,read,ran⟩ := bind_ok.mp ran
  rw [readFatLayout_faulty,List.length_nil] at read
  cases boot : fails 0 partitionOffset with
  | true =>
    rw [boot,if_pos rfl] at read
    cases read
    cases ran
  | false =>
    rw [boot,if_neg Bool.false_ne_true] at read
    obtain ⟨layout,found,same⟩ := map_eq_ok.mp read
    cases same
    cases located with
    | error message => cases ran
    | ok layout =>
      obtain ⟨⟨entry,afterRoot⟩,searched,ran⟩ := bind_ok.mp ran
      rw [findInRootDir_faulty] at searched
      obtain ⟨root,place,same⟩ := map_eq_ok.mp searched
      cases entry with
      | none => cases ran
      | some entry =>
        obtain ⟨lba,data,_⟩ := bind_ok.mp ran
        rw [List.nil_append,List.length_singleton] at same
        cases directory : fails 1 root with
        | true =>
          rw [directory,if_pos rfl] at same
          cases same
        | false =>
          rw [directory,if_neg Bool.false_ne_true] at same
          exact ⟨root,lba,entry,boot,directory,(Prod.mk.inj same).1,layout,found,place,data⟩

theorem failed_read_gives_none_iff :
    (∀ result reads, readFile (faultyAta content fails available) name [] = .ok (result,reads) →
      (∃ i lba, reads[i]? = some lba ∧ fails i lba = true) → result = none) ↔
    ∀ root lba entry, ReachesData content fails name root lba entry → fails 2 lba = false := by
  constructor
  · intro stops root lba entry reaches
    refine Bool.eq_false_of_not_eq_true fun failed => ?_
    cases stops _ _ reaches.readFile ⟨2,lba,rfl,failed⟩
  · intro succeeds result reads ran
    rintro ⟨i,sector,asked,failed⟩
    cases result with
    | none => rfl
    | some data =>
      obtain ⟨root,lba,entry,reaches⟩ := reachesData_of_some ran
      cases reaches.readFile.symm.trans ran
      match i with
      | 0 =>
        cases asked
        cases reaches.boot.symm.trans failed
      | 1 =>
        cases asked
        cases reaches.directory.symm.trans failed
      | 2 =>
        cases asked
        cases (succeeds root sector entry reaches).symm.trans failed
      | i + 3 => cases asked

def thirdReadFails (number _lba : Nat) : Bool := number == 2

theorem failed_data_read_gives_zeros :
    ∃ data reads, readFile (faultyAta chainedVolume thirdReadFails true) (lit "A.TXT") [] = .ok (some data,reads) ∧
      (∃ i lba, reads[i]? = some lba ∧ thirdReadFails i lba = true) ∧ data = List.replicate 512 0 := by
  have answered : readFile (faultyAta chainedVolume thirdReadFails true) (lit "A.TXT") [] =
      .ok (some (List.replicate 512 0),[0,2048,2049]) := by decide +kernel
  exact ⟨_,_,answered,⟨2,2049,rfl,rfl⟩,rfl⟩

end FailingReads

end PolarOs
