import PolarOs.Drivers.Ata
import PolarOs.Fs.CodecLaws

/-! `cmd_save` and `cmd_load` (`shell/commands.rs`): one header sector with the length
and the first 504 bytes, then 512-byte chunks, the last one padded with zeros. -/
namespace PolarOs
open Library

variable {δ : Type}

def magic : Bytes := Utf8.encode (lit "PLRS")

/-- The sector with the magic word, the length and the first chunk. -/
def saveHeader (data : Bytes) : Sector :=
  let totalLen := data.length % 2^32
  let firstChunk := min data.length 504
  ((Sector.zero.copyFrom 0 magic (by decide)).copyFrom 4 (LittleEndian.encode 4 totalLen) (by simp)).copyFrom 8
    (data.take firstChunk) (by rw [List.length_take]; omega)

/-- The loop over the chunks after the first; it ends with the next free sector. -/
def saveLoop (ata : Ata δ) (data : Bytes) (offset sector : Nat) (disk : δ) : Except Str Nat × δ :=
  if offset < data.length then
    let chunk := min (data.length - offset) 512
    let buf := Sector.zero.copyFrom 0 ((data.drop offset).take chunk) (by rw [List.length_take]; omega)
    match ata.writeSector sector buf disk with
    | (false,disk) => (.error (lit "Blad zapisu sektora " ++ number sector ++ lit "."),disk)
    | (true,disk) => saveLoop ata data (offset + chunk) (sector + 1) disk
  else (.ok sector,disk)
termination_by data.length - offset

def savedMessage (length sectors : Nat) : Str :=
  lit "Zapisano " ++ number length ++ lit " bajtow (" ++ number sectors ++ lit " sektorow)."

def cmdSave (ata : Ata δ) (fs : RamFs) (disk : δ) : Str × δ :=
  if !ata.isAvailable disk then (lit "Dysk ATA niedostepny.",disk)
  else
    let data := fs.serialize
    match ata.writeSector dataStartSector (saveHeader data) disk with
    | (false,disk) => (lit "Blad zapisu naglowka.",disk)
    | (true,disk) =>
      match saveLoop ata data (min data.length 504) (dataStartSector + 1) disk with
      | (.error message,disk) => (message,disk)
      | (.ok sector,disk) => (savedMessage data.length (sector - dataStartSector),disk)

/-- The loop that reads sectors until `total_len` bytes are there. -/
def loadLoop (ata : Ata δ) (totalLen : Nat) (data : Bytes) (sector : Nat) (disk : δ) : Except Str Bytes × δ :=
  if data.length < totalLen then
    match ata.readSector sector disk with
    | (none,disk) => (.error (lit "Blad odczytu sektora " ++ number sector ++ lit "."),disk)
    | (some buf,disk) =>
      let remaining := totalLen - data.length
      let chunk := min remaining 512
      loadLoop ata totalLen (data ++ buf.bytes.take chunk) (sector + 1) disk
  else (.ok data,disk)
termination_by totalLen - data.length
decreasing_by
  have size := buf.size
  simp only [List.length_append,List.length_take]
  omega

def loadedMessage (totalLen : Nat) : Str :=
  lit "Wczytano system plikow (" ++ number totalLen ++ lit " bajtow)."

/-- The result text, the filesystem, the working directory and the device afterwards. -/
def cmdLoad (ata : Ata δ) (fs : RamFs) (cwd : List Str) (disk : δ) :
    Checked.Checked (Str × RamFs × List Str × δ) :=
  if !ata.isAvailable disk then .ok (lit "Dysk ATA niedostepny.",fs,cwd,disk)
  else
    match ata.readSector dataStartSector disk with
    | (none,disk) => .ok (lit "Blad odczytu naglowka.",fs,cwd,disk)
    | (some header,disk) =>
      if header.bytes.take 4 ≠ magic then
        .ok (lit "Brak zapisanego systemu plikow na dysku.",fs,cwd,disk)
      else
        let totalLen := LittleEndian.decode ((header.bytes.drop 4).take 4)
        let firstChunk := min totalLen 504
        match loadLoop ata totalLen ((header.bytes.drop 8).take firstChunk) (dataStartSector + 1) disk with
        | (.error message,disk) => .ok (message,fs,cwd,disk)
        | (.ok data,disk) => do
          match ← RamFs.loadFrom data with
          | some newFs => return (loadedMessage totalLen,fs.replace newFs,[],disk)
          | none => return (lit "Uszkodzone dane na dysku.",fs,cwd,disk)

/-! Saving and loading on a working disk. -/

theorem copyFrom_zero_take (src : Bytes) (fits : 0 + src.length ≤ 512) :
    (Sector.zero.copyFrom 0 src fits).bytes.take src.length = src := by
  simp [Sector.copyFrom]

/-- What the loop writes lies between its first sector and the one it ends with. -/
theorem saveLoop_array (data : Bytes) (offset sector : Nat) (disk : Nat → Sector) :
    ∃ last disk', saveLoop arrayAta data offset sector disk = (.ok last,disk') ∧
      last = sector + (data.length - offset + 511) / 512 ∧
      (∀ lba, lba < sector ∨ last ≤ lba → disk' lba = disk lba) ∧
      (offset ≤ data.length →
        loadLoop arrayAta data.length (data.take offset) sector disk' = (.ok data,disk')) := by
  induction left : data.length - offset using Nat.strong_induction_on generalizing offset sector disk with
  | _ left ih =>
    by_cases more : offset < data.length
    · let chunk := min (data.length - offset) 512
      let src := (data.drop offset).take chunk
      have size : src.length = chunk := by simp only [src,chunk,List.length_take,List.length_drop]; omega
      have fits : 0 + src.length ≤ 512 := by omega
      let buf := Sector.zero.copyFrom 0 src fits
      obtain ⟨last,disk',run,above,frame,reload⟩ :=
        ih (data.length - (offset + chunk)) (by omega) (offset + chunk) (sector + 1)
          (Function.update disk sector buf) rfl
      refine ⟨last,disk',?_,by omega,?_,fun _ => ?_⟩
      · rw [saveLoop,if_pos more]
        exact run
      · intro lba outside
        rw [frame lba (by omega),Function.update_of_ne (by omega)]
      · -- the reader meets the sector the writer just filled
        have stored : disk' sector = buf := by
          rw [frame sector (by omega),Function.update_self]
        have extended : data.take offset ++ buf.bytes.take chunk = data.take (offset + chunk) := by
          rw [← size,copyFrom_zero_take src fits,List.take_add,size]
        have length : (data.take offset).length = offset := by rw [List.length_take]; omega
        rw [loadLoop,if_pos (by omega)]
        simp only [arrayAta,stored,length]
        have rest := reload (by omega)
        rw [← extended] at rest
        exact rest
    · refine ⟨sector,disk,?_,by omega,fun _ _ => rfl,fun within => ?_⟩
      · rw [saveLoop,if_neg more]
      · have whole : data.take offset = data := List.take_of_length_le (by omega)
        rw [whole,loadLoop,if_neg (Nat.lt_irrefl _)]

theorem length_magic : magic.length = 4 := by decide

theorem saveHeader_bytes (data : Bytes) :
    (saveHeader data).bytes = magic ++ LittleEndian.encode 4 (data.length % 2^32) ++
      data.take (min data.length 504) ++ List.replicate (504 - min data.length 504) 0 := by
  let word := LittleEndian.encode 4 (data.length % 2^32)
  have wordLength : word.length = 4 := LittleEndian.length_encode 4 _
  have chunkLength : (data.take (min data.length 504)).length = min data.length 504 := by
    rw [List.length_take]
    omega
  have blank : Sector.zero.bytes = [] ++ List.replicate 512 0 := rfl
  have first := Sector.copyFrom_append blank rfl length_magic (by decide)
  rw [List.drop_replicate,List.nil_append] at first
  have second := Sector.copyFrom_append first length_magic wordLength (by omega)
  rw [List.drop_replicate] at second
  have third := Sector.copyFrom_append second
    (by rw [List.length_append,length_magic,wordLength]) chunkLength (by omega)
  rw [List.drop_replicate] at third
  exact third

theorem saveHeader_magic (data : Bytes) : (saveHeader data).bytes.take 4 = magic := by
  rw [saveHeader_bytes,List.append_assoc,List.append_assoc,← length_magic,List.take_left]

theorem saveHeader_rest (data : Bytes) : (saveHeader data).bytes.drop 4 =
    LittleEndian.encode 4 (data.length % 2^32) ++ (data.take (min data.length 504) ++
      List.replicate (504 - min data.length 504) 0) := by
  rw [saveHeader_bytes,List.append_assoc,List.append_assoc,← length_magic,List.drop_left]

theorem saveHeader_length {data : Bytes} (short : data.length < 2^32) :
    LittleEndian.decode (((saveHeader data).bytes.drop 4).take 4) = data.length := by
  have size := LittleEndian.length_encode 4 (data.length % 2^32)
  rw [saveHeader_rest,List.take_left' size,LittleEndian.decode_encode 4 _ (by omega),
    Nat.mod_eq_of_lt short]

theorem saveHeader_chunk (data : Bytes) :
    ((saveHeader data).bytes.drop 8).take (min data.length 504) = data.take (min data.length 504) := by
  have size := LittleEndian.length_encode 4 (data.length % 2^32)
  have chunkLength : (data.take (min data.length 504)).length = min data.length 504 := by
    rw [List.length_take]
    omega
  have split : (saveHeader data).bytes.drop 8 = ((saveHeader data).bytes.drop 4).drop 4 := by
    rw [List.drop_drop]
  rw [split,saveHeader_rest,List.drop_left' size,List.take_left' chunkLength]

/-- The number of sectors a save of that many bytes writes. -/
def savedSectors (length : Nat) : Nat := 1 + (length - 504 + 511) / 512

/-- A save on a working disk: the header, the sectors it changed, what the loader reads. -/
theorem cmdSave_array (disk : Nat → Sector) (fs : RamFs) :
    ∃ disk', cmdSave arrayAta fs disk =
        (savedMessage fs.serialize.length (savedSectors fs.serialize.length),disk') ∧
      disk' dataStartSector = saveHeader fs.serialize ∧
      (∀ lba, lba < dataStartSector ∨ dataStartSector + savedSectors fs.serialize.length ≤ lba → disk' lba = disk lba) ∧
      loadLoop arrayAta fs.serialize.length (fs.serialize.take (min fs.serialize.length 504)) (dataStartSector + 1) disk' =
        (.ok fs.serialize,disk') := by
  generalize source : fs.serialize = data
  let started := Function.update disk dataStartSector (saveHeader data)
  obtain ⟨last,disk',run,above,frame,reload⟩ :=
    saveLoop_array data (min data.length 504) (dataStartSector + 1) started
  have rest : data.length - min data.length 504 = data.length - 504 := by omega
  have count : last = dataStartSector + savedSectors data.length := by
    rw [above,rest,savedSectors,Nat.add_assoc]
  refine ⟨disk',?_,?_,?_,reload (by omega)⟩
  · simp only [arrayAta,started] at run
    simp only [cmdSave,arrayAta,Bool.not_true,Bool.false_eq_true,if_false,source]
    rw [run,count]
    simp only [Nat.add_sub_cancel_left]
  · rw [frame _ (by omega)]
    exact Function.update_self ..
  · intro lba outside
    have kept : disk' lba = started lba := frame lba (by omega)
    exact kept.trans (Function.update_of_ne (by omega) ..)

theorem cmdLoad_saved (disk : Nat → Sector) {fs : RamFs} (later : RamFs) (cwd : List Str)
    (storable : fs.Storable) (short : fs.serialize.length < 2^32) :
    ∃ message, cmdLoad arrayAta later cwd (cmdSave arrayAta fs disk).2 =
      .ok (message,fs,[],(cmdSave arrayAta fs disk).2) := by
  obtain ⟨disk',saved,header,_,loop⟩ := cmdSave_array disk fs
  rw [saved]
  refine ⟨loadedMessage fs.serialize.length,?_⟩
  simp only [arrayAta] at loop
  simp only [cmdLoad,arrayAta,header,Bool.not_true,Bool.false_eq_true,if_false,saveHeader_magic,
    ne_eq,not_true_eq_false,saveHeader_length short,saveHeader_chunk]
  rw [loop]
  simp only [loadFrom_image storable]
  rfl

/-- Loading after saving brings the saved tree back, and saving touched only the run
of sectors whose length it reports. -/
theorem load_after_save (disk : Nat → Sector) (fs later : RamFs) (cwd : List Str)
    (storable : fs.Storable) (short : fs.serialize.length < 2^32) :
    (∃ message, cmdLoad arrayAta later cwd (cmdSave arrayAta fs disk).2 =
      .ok (message,fs,[],(cmdSave arrayAta fs disk).2)) ∧
    ∃ sectors, (cmdSave arrayAta fs disk).1 = savedMessage fs.serialize.length sectors ∧
      ∀ lba, lba < dataStartSector ∨ dataStartSector + sectors ≤ lba →
        (cmdSave arrayAta fs disk).2 lba = disk lba := by
  refine ⟨cmdLoad_saved disk later cwd storable short,?_⟩
  obtain ⟨disk',saved,_,frame,_⟩ := cmdSave_array disk fs
  rw [saved]
  exact ⟨savedSectors fs.serialize.length,rfl,frame⟩

/-- A file that the sector of the header does not hold. -/
def longFile : RamFs := (RamFs.new.write [] ['a'] (List.replicate 600 7)).2

theorem load_after_save_one : 504 < longFile.serialize.length ∧
    ∃ message, cmdLoad arrayAta RamFs.new [['d']] (cmdSave arrayAta longFile fun _ => Sector.zero).2 =
      .ok (message,longFile,[],(cmdSave arrayAta longFile fun _ => Sector.zero).2) := by
  have limit : (FsEntry.file (List.replicate 600 7)).Storable := by
    rw [FsEntry.Storable,List.length_replicate]
    decide
  have length : longFile.serialize.length = 609 := by decide +kernel
  refine ⟨by rw [length]; decide,?_⟩
  exact (load_after_save (fun _ => Sector.zero) longFile RamFs.new [['d']] ⟨by decide,by decide,limit,trivial⟩
    (by rw [length]; decide)).1

end PolarOs
