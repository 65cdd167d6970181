import PolarOs.Shell.Storage
import PolarOs.Fs.Records

/-! A save that stops at a failing sector. `write_sector` reports failure before it
sends any data, so the sector keeps what it held. The header is written first: after a
later failure the image has the new length, the new bytes up to the failing sector and
the old ones from there. -/
namespace PolarOs
open Library

/-- A working array on which as many writes succeed as the counter says. -/
def failingAta : Ata ((Nat → Sector) × Nat) where
  isAvailable _ := true
  readSector lba device := (some (device.1 lba),device)
  writeSector lba buf device :=
    match device with
    | (disk,0) => (false,disk,0)
    | (disk,left+1) => (true,Function.update disk lba buf,left)

/-- The first `n` bytes of the sectors from `sector` on. -/
def held (disk : Nat → Sector) (sector n : Nat) : Bytes :=
  if n ≤ 512 then (disk sector).bytes.take n
  else (disk sector).bytes ++ held disk (sector + 1) (n - 512)
termination_by n

/-- The first `n` bytes of the image on a disk, whatever length its header states. -/
def image (disk : Nat → Sector) (n : Nat) : Bytes :=
  ((disk dataStartSector).bytes.drop 8).take (min n 504) ++ held disk (dataStartSector + 1) (n - 504)

theorem held_short {disk : Nat → Sector} {sector n : Nat} (short : n ≤ 512) :
    held disk sector n = (disk sector).bytes.take n := by
  rw [held,if_pos short]

theorem held_long {disk : Nat → Sector} {sector n : Nat} (long : 512 < n) :
    held disk sector n = (disk sector).bytes ++ held disk (sector + 1) (n - 512) := by
  rw [held,if_neg (by omega)]

theorem held_zero (disk : Nat → Sector) (sector : Nat) : held disk sector 0 = [] := by
  rw [held_short (by omega),List.take_zero]

theorem held_congr {first second : Nat → Sector} {sector n : Nat}
    (same : ∀ lba, sector ≤ lba → first lba = second lba) : held first sector n = held second sector n := by
  induction n using Nat.strong_induction_on generalizing sector with
  | _ n ih =>
    by_cases short : n ≤ 512
    · rw [held_short short,held_short short,same sector (Nat.le_refl _)]
    · have long : 512 < n := by omega
      have rest : held first (sector + 1) (n - 512) = held second (sector + 1) (n - 512) :=
        ih (n - 512) (by omega) fun lba above => same lba (by omega)
      rw [held_long long,held_long long,same sector (Nat.le_refl _),rest]

theorem loadLoop_held (total : Nat) (data : Bytes) (sector : Nat) (disk : Nat → Sector) (within : data.length ≤ total) :
    loadLoop arrayAta total data sector disk = (.ok (data ++ held disk sector (total - data.length)),disk) := by
  induction left : total - data.length using Nat.strong_induction_on generalizing data sector with
  | _ left ih =>
    subst left
    have size := (disk sector).size
    by_cases more : data.length < total
    · rw [loadLoop,if_pos more]
      simp only [arrayAta]
      have length : (data ++ (disk sector).bytes.take (min (total - data.length) 512)).length =
          data.length + min (total - data.length) 512 := by
        rw [List.length_append,List.length_take,size]
        omega
      have rest := ih _ (by omega) (data ++ (disk sector).bytes.take (min (total - data.length) 512)) (sector + 1)
        (by omega) rfl
      refine rest.trans ?_
      rw [length]
      by_cases short : total - data.length ≤ 512
      · have done : total - (data.length + min (total - data.length) 512) = 0 := by omega
        rw [done,held_zero,List.append_nil,held_short short,Nat.min_eq_left short]
      · have long : 512 < total - data.length := by omega
        have full : min (total - data.length) 512 = 512 := by omega
        have after : total - (data.length + 512) = total - data.length - 512 := by omega
        rw [full,after,List.take_of_length_le (by omega),held_long long,List.append_assoc]
    · have done : total - data.length = 0 := by omega
      rw [loadLoop,if_neg more,done,held_zero,List.append_nil]

/-- What the loader reports and leaves for what `load_from` makes of the image. -/
def installed (total : Nat) (fs : RamFs) (cwd : List Str) (disk : Nat → Sector) :
    Option RamFs → Str × RamFs × List Str × (Nat → Sector)
  | some newFs => (loadedMessage total,newFs,[],disk)
  | none => (lit "Uszkodzone dane na dysku.",fs,cwd,disk)

theorem cmdLoad_image {disk : Nat → Sector} {total : Nat} {result : Option RamFs} (fs : RamFs) (cwd : List Str)
    (word : (disk dataStartSector).bytes.take 4 = magic)
    (length : LittleEndian.decode (((disk dataStartSector).bytes.drop 4).take 4) = total)
    (decoded : RamFs.loadFrom (image disk total) = .ok result) :
    cmdLoad arrayAta fs cwd disk = .ok (installed total fs cwd disk result) := by
  have size : (((disk dataStartSector).bytes.drop 8).take (min total 504)).length = min total 504 := by
    rw [List.length_take,List.length_drop,(disk dataStartSector).size]
    omega
  have loop := loadLoop_held total (((disk dataStartSector).bytes.drop 8).take (min total 504)) (dataStartSector + 1)
    disk (by omega)
  have rest : total - min total 504 = total - 504 := by omega
  rw [size,rest,← image] at loop
  simp only [arrayAta] at loop
  simp only [cmdLoad,arrayAta,Bool.not_true,Bool.false_eq_true,if_false,word,ne_eq,not_true_eq_false,length]
  rw [loop]
  cases result with
  | none =>
    simp only [decoded]
    rfl
  | some newFs =>
    simp only [decoded]
    rfl

theorem image_saved (disk : Nat → Sector) (fs : RamFs) :
    image (cmdSave arrayAta fs disk).2 fs.serialize.length = fs.serialize := by
  obtain ⟨disk',saved,header,frame,loop⟩ := cmdSave_array disk fs
  have size : (fs.serialize.take (min fs.serialize.length 504)).length = min fs.serialize.length 504 := by
    rw [List.length_take]
    omega
  have rest : fs.serialize.length - min fs.serialize.length 504 = fs.serialize.length - 504 := by omega
  have read := loadLoop_held fs.serialize.length (fs.serialize.take (min fs.serialize.length 504))
    (dataStartSector + 1) disk' (by omega)
  rw [loop,size,rest] at read
  have after : (cmdSave arrayAta fs disk).2 = disk' := congrArg Prod.snd saved
  rw [after,image,header,saveHeader_chunk]
  exact (Except.ok.inj (Prod.mk.inj read).1).symm

/-- The loop stops at the failing sector; before it are the new bytes, behind it the old. -/
theorem saveLoop_failing (data : Bytes) (left offset sector : Nat) (disk : Nat → Sector)
    (fails : offset + 512 * left < data.length) :
    ∃ message disk', saveLoop failingAta data offset sector (disk,left) = (.error message,disk',0) ∧
      (∀ lba, lba < sector → disk' lba = disk lba) ∧
      held disk' sector (data.length - offset) =
        (data.drop offset).take (512 * left) ++ (held disk sector (data.length - offset)).drop (512 * left) := by
  induction left generalizing offset sector disk with
  | zero =>
    refine ⟨lit "Blad zapisu sektora " ++ number sector ++ lit ".",disk,?_,fun _ _ => rfl,rfl⟩
    rw [saveLoop,if_pos (by omega)]
    rfl
  | succ left ih =>
    have reach : 512 + offset < data.length := by omega
    have long : 512 < data.length - offset := Nat.lt_sub_of_add_lt reach
    have full : min (data.length - offset) 512 = 512 := by omega
    have size : ((data.drop offset).take 512).length = 512 := by
      rw [List.length_take,List.length_drop]
      omega
    let buf := Sector.zero.copyFrom 0 ((data.drop offset).take 512) (by omega)
    have whole : buf.bytes = (data.drop offset).take 512 := by
      have copied := copyFrom_zero_take ((data.drop offset).take 512) (by omega)
      rw [List.take_of_length_le (by rw [Sector.size,size])] at copied
      exact copied
    obtain ⟨message,disk',run,frame,mixed⟩ := ih (offset + 512) (sector + 1) (Function.update disk sector buf) (by omega)
    refine ⟨message,disk',?_,?_,?_⟩
    · rw [saveLoop,if_pos (by omega)]
      simp only [full]
      exact run
    · intro lba below
      rw [frame lba (by omega),Function.update_of_ne (by omega)]
    · have stored : disk' sector = buf := by rw [frame sector (by omega),Function.update_self]
      have after : data.length - (offset + 512) = data.length - offset - 512 := by omega
      have others : held (Function.update disk sector buf) (sector + 1) (data.length - offset - 512) =
          held disk (sector + 1) (data.length - offset - 512) := by
        apply held_congr
        intro lba above
        rw [Function.update_of_ne (by omega)]
      have more : 512 * (left + 1) = 512 + 512 * left := by omega
      have behind : ((disk sector).bytes ++ held disk (sector + 1) (data.length - offset - 512)).drop (512 + 512 * left) =
          (held disk (sector + 1) (data.length - offset - 512)).drop (512 * left) := by
        rw [← List.drop_drop,List.drop_left' (disk sector).size]
      rw [after,others] at mixed
      rw [held_long long,held_long long,stored,whole,mixed,more,behind,List.take_add,List.drop_drop,List.append_assoc]

/-- A save that fails behind its header: the new bytes up to the failing sector, the old
ones from there, and what the loader makes of both. -/
theorem interrupted_body (disk : Nat → Sector) (fs later : RamFs) (cwd : List Str) (left : Nat)
    (short : fs.serialize.length < 2^32) (fails : 504 + 512 * left < fs.serialize.length) :
    ∃ message disk' result, cmdSave failingAta fs (disk,left+1) = (message,disk',0) ∧
      image disk' fs.serialize.length = fs.serialize.take (504 + 512 * left) ++
        (image disk fs.serialize.length).drop (504 + 512 * left) ∧
      RamFs.loadFrom (image disk' fs.serialize.length) = .ok result ∧
      cmdLoad arrayAta later cwd disk' = .ok (installed fs.serialize.length later cwd disk' result) := by
  generalize source : fs.serialize = data at *
  have chunk : min data.length 504 = 504 := by omega
  obtain ⟨message,disk',run,frame,mixed⟩ := saveLoop_failing data left 504 (dataStartSector + 1)
    (Function.update disk dataStartSector (saveHeader data)) fails
  have header : disk' dataStartSector = saveHeader data := by
    rw [frame _ (by omega)]
    exact Function.update_self ..
  have old : held (Function.update disk dataStartSector (saveHeader data)) (dataStartSector + 1) (data.length - 504) =
      held disk (dataStartSector + 1) (data.length - 504) := by
    apply held_congr
    intro lba above
    rw [Function.update_of_ne (by omega)]
  obtain ⟨result,decoded⟩ := loadFrom_total (image disk' data.length)
  have word : (disk' dataStartSector).bytes.take 4 = magic := by rw [header,saveHeader_magic]
  have length : LittleEndian.decode (((disk' dataStartSector).bytes.drop 4).take 4) = data.length := by
    rw [header,saveHeader_length short]
  refine ⟨message,disk',result,?_,?_,decoded,cmdLoad_image later cwd word length decoded⟩
  · simp only [failingAta] at run
    simp only [cmdSave,failingAta,Bool.not_true,Bool.false_eq_true,if_false,source,chunk]
    rw [run]
  · have size : (((disk dataStartSector).bytes.drop 8).take 504).length = 504 := by
      rw [List.length_take,List.length_drop,(disk dataStartSector).size]
      rfl
    have first := saveHeader_chunk data
    rw [chunk] at first
    rw [image,image,header,chunk,first,mixed,old,List.take_add,← List.drop_drop,List.drop_left' size,
      List.append_assoc]

/-- After an interrupted save of `b` over a complete save of `a` a load restores `a` if
the header failed, else installs what `load_from` makes of the mixed image or reports
an error and changes nothing. -/
theorem interrupted_save (before : Nat → Sector) (a b later : RamFs) (cwd : List Str)
    (aLimits : a.Storable) (aShort : a.serialize.length < 2^32) (bShort : b.serialize.length < 2^32) :
    image (cmdSave arrayAta a before).2 a.serialize.length = a.serialize ∧
      (∃ message disk, cmdSave failingAta b ((cmdSave arrayAta a before).2,0) = (message,disk,0) ∧
        ∃ loaded, cmdLoad arrayAta later cwd disk = .ok (loaded,a,[],disk)) ∧
      ∀ left, 504 + 512 * left < b.serialize.length → ∃ message disk result,
        cmdSave failingAta b ((cmdSave arrayAta a before).2,left+1) = (message,disk,0) ∧
        image disk b.serialize.length = b.serialize.take (504 + 512 * left) ++
          (image (cmdSave arrayAta a before).2 b.serialize.length).drop (504 + 512 * left) ∧
        RamFs.loadFrom (image disk b.serialize.length) = .ok result ∧
        cmdLoad arrayAta later cwd disk = .ok (installed b.serialize.length later cwd disk result) := by
  refine ⟨image_saved before a,?_,?_⟩
  · have refused : cmdSave failingAta b ((cmdSave arrayAta a before).2,0) =
        (lit "Blad zapisu naglowka.",(cmdSave arrayAta a before).2,0) := rfl
    obtain ⟨loaded,restored⟩ := cmdLoad_saved before later cwd aLimits aShort
    exact ⟨_,_,refused,loaded,restored⟩
  · intro left fails
    exact interrupted_body _ b later cwd left bShort fails

def filled (byte : UInt8) : RamFs := (RamFs.new.write [] ['a'] (List.replicate 600 byte)).2

theorem serialize_file {data : Bytes} (small : data.length < 2^32) :
    (RamFs.new.write [] ['a'] data).2.serialize = [1,0,0,1,97] ++ LittleEndian.encode 4 data.length ++ data := by
  have tree : (RamFs.new.write [] ['a'] data).2.root = [(['a'],.file data)] := rfl
  have count : LittleEndian.encode 2 ([(['a'],FsEntry.file data)].length % 2^16) = [1,0] := by
    rw [List.length_singleton]
    decide
  have name : Utf8.encode ['a'] = [97] := by decide
  rw [RamFs.serialize,tree,serializeDir,serializeEntries,serializeEntries,serializeEntry_file (by decide) small,
    List.append_nil,count,name]
  rfl

theorem storable_file {data : Bytes} (small : data.length < 2^32) : (RamFs.new.write [] ['a'] data).2.Storable := by
  have one : (RamFs.new.write [] ['a'] data).2.root.length = 1 := rfl
  exact ⟨by rw [one]; decide,by decide,small,trivial⟩

theorem filled_serialize (byte : UInt8) :
    (filled byte).serialize = [1,0,0,1,97,88,2,0,0] ++ List.replicate 600 byte := by
  rw [filled,serialize_file (by rw [List.length_replicate]; decide),List.length_replicate]
  rfl

theorem filled_length (byte : UInt8) : (filled byte).serialize.length = 609 := by
  rw [filled_serialize,List.length_append,List.length_replicate]
  rfl

theorem interrupted_save_header : ∃ message disk loaded,
    cmdSave failingAta (filled 1) ((cmdSave arrayAta (filled 0) fun _ => Sector.zero).2,0) = (message,disk,0) ∧
      cmdLoad arrayAta RamFs.new [] disk = .ok (loaded,filled 0,[],disk) := by
  have small : (List.replicate 600 (0 : UInt8)).length < 2^32 := by
    rw [List.length_replicate]
    decide
  obtain ⟨message,disk,run,loaded,restored⟩ := (interrupted_save (fun _ => Sector.zero) (filled 0) (filled 1)
    RamFs.new [] (storable_file small) (by rw [filled_length]; decide) (by rw [filled_length]; decide)).2.1
  exact ⟨message,disk,loaded,run,restored⟩

/-- The second sector fails: 495 bytes of the new file and 105 of the old one. -/
theorem interrupted_save_mixed : ∃ message disk loaded saved,
    cmdSave failingAta (filled 1) ((cmdSave arrayAta (filled 0) fun _ => Sector.zero).2,1) = (message,disk,0) ∧
      cmdLoad arrayAta RamFs.new [] disk = .ok (loaded,saved,[],disk) ∧ saved ≠ filled 0 ∧ saved ≠ filled 1 := by
  let mixed : Bytes := List.replicate 495 1 ++ List.replicate 105 0
  let saved := (RamFs.new.write [] ['a'] mixed).2
  have small : mixed.length < 2^32 := by
    rw [List.length_append,List.length_replicate,List.length_replicate]
    decide
  obtain ⟨message,disk,result,run,seam,decoded,loaded⟩ :=
    interrupted_body (cmdSave arrayAta (filled 0) fun _ => Sector.zero).2 (filled 1) RamFs.new [] 0
      (by rw [filled_length]; decide) (by rw [filled_length]; decide)
  have old := image_saved (fun _ => Sector.zero) (filled 0)
  rw [filled_length,filled_serialize] at old
  rw [filled_length,old,filled_serialize] at seam
  have content : image disk 609 = saved.serialize := by
    rw [seam,serialize_file small,List.length_append,List.length_replicate,List.length_replicate,
      List.take_append,List.drop_append,List.take_replicate,List.drop_replicate]
    rfl
  rw [filled_length,content,loadFrom_image (storable_file small)] at decoded
  cases decoded
  have differs (byte other : UInt8) (member : other ∈ mixed) (different : other ≠ byte) : saved ≠ filled byte := by
    intro same
    have bytes : mixed = List.replicate 600 byte :=
      Option.some.inj (congrArg (fun fs => RamFs.read fs [] ['a']) same)
    rw [bytes] at member
    exact different (List.eq_of_mem_replicate member)
  refine ⟨message,disk,_,saved,run,loaded,differs 0 1 ?_ (by decide),differs 1 0 ?_ (by decide)⟩
  · exact List.mem_append_left _ (List.mem_replicate.mpr ⟨by decide,rfl⟩)
  · exact List.mem_append_right _ (List.mem_replicate.mpr ⟨by decide,rfl⟩)

end PolarOs
