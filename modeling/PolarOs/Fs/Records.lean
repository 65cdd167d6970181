import PolarOs.Fs.CodecLaws
import PolarOs.Library.Utf8Order

/-! The records of a saved image in the order they occur. The decoder reads the records
and folds them into maps; only where that changes nothing is the image an encoding. -/
namespace PolarOs
open Library Library.SortedMap Library.Reader

def record (dir : Dir) (name : Str) (entry : FsEntry) : Dir := dir ++ [(name,entry)]

def recordFuel : Nat → Reader Dir
  | 0 => exhausted
  | fuel+1 => readBody record (recordFuel fuel)

/-- The entries of every directory record as they occur, with repeated names. -/
def recordDir : Reader Dir := fun data pos => recordFuel (data.length + 1) data pos

mutual

def FsEntry.build : FsEntry → FsEntry
  | .file data => .file data
  | .dir children => .dir (buildOnto [] children)

def buildOnto : Dir → List (Str × FsEntry) → Dir
  | dir,[] => dir
  | dir,(name,entry)::rest => buildOnto (insert dir name entry.build) rest

end

def build (records : Dir) : Dir := buildOnto [] records

/-- The names of every directory record occur in strictly increasing byte order. -/
inductive Ascending : Dir → Prop
  | intro (records : Dir) (names : records.Pairwise fun first second => Utf8.encode first.1 < Utf8.encode second.1)
      (below : ∀ name children, (name,.dir children) ∈ records → Ascending children) : Ascending records

theorem ascending_iff {records : Dir} : Ascending records ↔ records.WellFormed := by
  constructor
  · intro ascending
    induction ascending with
    | intro records names _ ih => exact .intro records (names.imp Utf8.encode_lt_iff.mp) ih
  · intro good
    induction good with
    | intro records sorted _ ih => exact .intro records (sorted.imp Utf8.encode_lt_iff.mpr) ih

/-! The decoder builds what the record reader reads. -/

theorem buildOnto_record (dir records : Dir) (name : Str) (entry : FsEntry) :
    buildOnto dir (record records name entry) = insert (buildOnto dir records) name entry.build := by
  induction records generalizing dir with
  | nil => rfl
  | cons first records ih => exact ih _

theorem follows_entry {recurse other : Reader Dir} (inner : Follows build recurse other) (records : Dir) :
    Follows build (readEntry record recurse records) (readEntry insert other (build records)) := by
  apply follows_same
  intro header
  obtain ⟨entryType,nameLen⟩ := header
  apply follows_same
  intro name
  split_ifs
  · apply follows_same
    intro dataLen
    apply follows_same
    intro fileData
    rw [build,← FsEntry.build,← buildOnto_record]
    exact follows_pure build _
  · apply follows_bind inner
    intro children
    have built : insert (build records) name (.dir (build children)) = build (record records name (.dir children)) :=
      (buildOnto_record [] records name (.dir children)).symm
    rw [built]
    exact follows_pure build _
  · exact follows_reject build

theorem follows_fuel (fuel : Nat) : Follows build (recordFuel fuel) (deserializeFuel fuel) := by
  induction fuel with
  | zero => exact follows_exhausted build
  | succ fuel ih =>
    apply follows_same
    intro count
    exact follows_iterate (follows_entry ih) count []

theorem deserializeDir_records {data : Bytes} {pos stop : Nat} {dir : Dir} :
    deserializeDir data pos = .ok (some dir,stop) ↔
      ∃ records, recordDir data pos = .ok (some records,stop) ∧ build records = dir :=
  follows_run (follows_fuel (data.length + 1))

/-! The bytes behind accepted records are their encoding. -/

theorem spans_header : Spans (guarded 2 (do
    let entryType ← byteAt 0
    let nameLen ← byteAt 1
    return (entryType,nameLen.toNat))) fun header bytes =>
      ∃ nameLen : UInt8, header.2 = nameLen.toNat ∧ bytes = [header.1,nameLen] := by
  intro data pos value stop bound run
  obtain ⟨bytes,split,length,size,seen⟩ := spans_guarded inside_header data pos value stop bound run
  obtain ⟨entryType,nameLen,rfl⟩ := List.length_eq_two.mp size
  cases seen
  exact ⟨_,split,length,nameLen,rfl,rfl⟩

theorem spans_name (nameLen : Nat) : Spans (guarded nameLen (do
    let bytes ← bytesOf nameLen
    ofOption (Utf8.decode bytes))) fun name bytes => bytes = Utf8.encode name ∧ bytes.length = nameLen := by
  intro data pos value stop bound run
  obtain ⟨bytes,split,length,size,seen⟩ := spans_guarded (inside_name nameLen) data pos value stop bound run
  exact ⟨bytes,split,length,(Utf8.encode_of_decode seen).symm,size⟩

theorem spans_count : Spans (guarded 2 (do
    let b0 ← byteAt 0
    let b1 ← byteAt 1
    return LittleEndian.decode [b0,b1])) fun count bytes => count < 2^16 ∧ bytes = LittleEndian.encode 2 count := by
  intro data pos value stop bound run
  obtain ⟨bytes,split,length,size,seen⟩ := spans_guarded inside_count data pos value stop bound run
  obtain ⟨b0,b1,rfl⟩ := List.length_eq_two.mp size
  cases seen
  exact ⟨_,split,length,by simpa using LittleEndian.decode_lt [b0,b1],(LittleEndian.encode_decode [b0,b1]).symm⟩

theorem spans_length : Spans (guarded 4 (do
    let b0 ← byteAt 0
    let b1 ← byteAt 1
    let b2 ← byteAt 2
    let b3 ← byteAt 3
    return LittleEndian.decode [b0,b1,b2,b3])) fun dataLen bytes =>
      dataLen < 2^32 ∧ bytes = LittleEndian.encode 4 dataLen := by
  intro data pos value stop bound run
  obtain ⟨bytes,split,length,size,seen⟩ := spans_guarded inside_length data pos value stop bound run
  obtain ⟨b0,b1,b2,b3,rfl⟩ : ∃ b0 b1 b2 b3, bytes = [b0,b1,b2,b3] := by
    match bytes,size with
    | [b0,b1,b2,b3],_ => exact ⟨b0,b1,b2,b3,rfl⟩
  cases seen
  exact ⟨_,split,length,by simpa using LittleEndian.decode_lt [b0,b1,b2,b3],
    (LittleEndian.encode_decode [b0,b1,b2,b3]).symm⟩

theorem serializeEntry_file {name : Str} {data : Bytes} (short : (Utf8.encode name).length ≤ 255)
    (small : data.length < 2^32) : serializeEntry name (.file data) =
      [0,UInt8.ofNat (Utf8.encode name).length] ++ (Utf8.encode name ++ (LittleEndian.encode 4 data.length ++ data)) := by
  simp only [serializeEntry,Nat.min_eq_left short,List.take_length,Nat.mod_eq_of_lt small,List.append_assoc]

theorem serializeEntry_dir {name : Str} {children : Dir} (short : (Utf8.encode name).length ≤ 255) :
    serializeEntry name (.dir children) =
      [1,UInt8.ofNat (Utf8.encode name).length] ++ (Utf8.encode name ++ serializeDir children) := by
  simp only [serializeEntry,Nat.min_eq_left short,List.take_length,List.append_assoc,serializeDir]

/-- A record that is the encoding of its entry. -/
def Recorded (entry : Str × FsEntry) : Prop := (Utf8.encode entry.1).length ≤ 255 ∧ entry.2.Storable

theorem spans_entry {recurse : Reader Dir}
    (inner : Spans recurse fun records bytes => bytes = serializeDir records ∧ (FsEntry.dir records).Storable)
    (records : Dir) : Spans (readEntry record recurse records) fun next bytes =>
      ∃ entry, next = record records entry.1 entry.2 ∧ bytes = serializeEntry entry.1 entry.2 ∧ Recorded entry := by
  apply spans_bind spans_header
  intro header front read
  obtain ⟨entryType,length⟩ := header
  obtain ⟨nameLen,rfl,rfl⟩ := read
  apply spans_bind (spans_name nameLen.toNat)
  intro name nameBytes read
  obtain ⟨rfl,size⟩ := read
  have short : (Utf8.encode name).length ≤ 255 := by
    have small := nameLen.toNat_lt
    omega
  have lengthByte : UInt8.ofNat (Utf8.encode name).length = nameLen := by rw [size,UInt8.ofNat_toNat]
  split_ifs with file directory
  · apply spans_bind spans_length
    intro dataLen lengthBytes read
    obtain ⟨small,rfl⟩ := read
    apply spans_bind (spans_guarded (inside_bytesOf dataLen))
    intro fileData content read
    obtain ⟨rfl,same⟩ := read
    cases same
    apply spans_pure
    refine ⟨(name,.file fileData),rfl,?_,short,small⟩
    dsimp only at file ⊢
    rw [serializeEntry_file short small,lengthByte,file,List.append_nil]
  · apply spans_bind inner
    intro children body read
    obtain ⟨rfl,storable⟩ := read
    apply spans_pure
    refine ⟨(name,.dir children),rfl,?_,short,storable⟩
    dsimp only at directory ⊢
    rw [serializeEntry_dir short,lengthByte,directory,List.append_nil]
  · exact spans_reject _

theorem entriesStorable_iff {entries : List (Str × FsEntry)} :
    EntriesStorable entries ↔ ∀ entry ∈ entries, Recorded entry := by
  induction entries with
  | nil => simp [EntriesStorable]
  | cons entry rest ih => simp only [EntriesStorable,ih,List.forall_mem_cons,Recorded,and_assoc]

theorem foldl_record (dir records : Dir) :
    records.foldl (fun dir entry => record dir entry.1 entry.2) dir = dir ++ records := by
  induction records generalizing dir with
  | nil => simp
  | cons entry records ih => rw [List.foldl_cons,ih,record,List.append_assoc,List.singleton_append]

theorem spans_fuel (fuel : Nat) : Spans (recordFuel fuel) fun records bytes =>
    bytes = serializeDir records ∧ (FsEntry.dir records).Storable := by
  induction fuel with
  | zero => exact spans_exhausted _
  | succ fuel ih =>
    apply spans_bind spans_count
    intro count front read data pos records stop bound run
    obtain ⟨small,rfl⟩ := read
    have entries : Spans (iterate count (readEntry record (recordFuel fuel)) []) fun last bytes =>
        ∃ items : List (Str × FsEntry), items.length = count ∧
          last = items.foldl (fun dir entry => record dir entry.1 entry.2) [] ∧
          bytes = items.flatMap (fun entry => serializeEntry entry.1 entry.2) ∧ ∀ entry ∈ items, Recorded entry :=
      spans_iterate (spans_entry ih) count []
    obtain ⟨bytes,split,length,items,size,rfl,rfl,good⟩ := entries data pos records stop bound run
    refine ⟨_,split,length,?_,?_⟩
    · rw [foldl_record,List.nil_append,serializeDir,serializeEntries_eq,size,Nat.mod_eq_of_lt small]
    · rw [foldl_record,List.nil_append]
      exact ⟨by omega,entriesStorable_iff.mpr good⟩

theorem recordDir_bytes {data : Bytes} {stop : Nat} {records : Dir}
    (run : recordDir data 0 = .ok (some records,stop)) :
    data.take stop = serializeDir records ∧ (FsEntry.dir records).Storable := by
  obtain ⟨bytes,split,length,rfl,storable⟩ := spans_fuel _ data 0 records stop (Nat.zero_le _) run
  rw [List.drop_zero] at split
  refine ⟨?_,storable⟩
  rw [split,List.take_left' (by omega)]

/-! The record reader inverts the encoder on records, whatever their order. -/

theorem sizeOf_children {name : Str} {children records : Dir} (member : (name,.dir children) ∈ records) :
    sizeOf children < sizeOf records := by
  have smaller := List.sizeOf_lt_of_mem member
  simp only [Prod.mk.sizeOf_spec,FsEntry.dir.sizeOf_spec] at smaller
  omega

theorem reads_recordFuel (fuel : Nat) {records : Dir} (deep : sizeOf records < fuel)
    (storable : (FsEntry.dir records).Storable) : Reads (recordFuel fuel) (serializeDir records) records := by
  induction fuel generalizing records with
  | zero => exact absurd deep (Nat.not_lt_zero _)
  | succ fuel ih =>
    have body := reads_body record storable fun name children member =>
      ih (Nat.lt_of_lt_of_le (sizeOf_children member) (Nat.le_of_lt_succ deep)) (storable_entry storable.2 member).2
    rw [foldl_record,List.nil_append] at body
    exact body

theorem serializeDir_injective {first second : Dir} (firstStorable : (FsEntry.dir first).Storable)
    (secondStorable : (FsEntry.dir second).Storable) (same : serializeDir first = serializeDir second) :
    first = second := by
  let fuel := sizeOf first + sizeOf second + 1
  have one := reads_recordFuel fuel (by omega) firstStorable [] []
  have other := reads_recordFuel fuel (by omega) secondStorable [] []
  rw [same,other] at one
  cases one
  rfl

/-! What the maps keep of the records. -/

theorem entriesStorable_insert {dir : Dir} {name : Str} {entry : FsEntry} (kept : EntriesStorable dir)
    (good : Recorded (name,entry)) : EntriesStorable (insert dir name entry) := by
  apply entriesStorable_iff.mpr
  intro other member
  rcases mem_insert member with same | old
  · exact same ▸ good
  · exact entriesStorable_iff.mp kept other old

mutual

theorem storable_build (entry : FsEntry) (storable : entry.Storable) : entry.build.Storable := by
  cases entry with
  | file data => exact storable
  | dir children =>
    obtain ⟨few,each⟩ := storable
    obtain ⟨kept,length⟩ := storable_buildOnto [] children trivial each
    rw [FsEntry.build]
    rw [List.length_nil,Nat.zero_add] at length
    exact ⟨length.trans few,kept⟩

theorem storable_buildOnto (dir records : Dir) (kept : EntriesStorable dir) (storable : EntriesStorable records) :
    EntriesStorable (buildOnto dir records) ∧ (buildOnto dir records).length ≤ dir.length + records.length := by
  match records with
  | [] => exact ⟨kept,Nat.le_refl _⟩
  | (name,entry)::rest =>
    obtain ⟨short,small,later⟩ := storable
    have added := entriesStorable_insert kept ⟨short,storable_build entry small⟩
    obtain ⟨all,length⟩ := storable_buildOnto (insert dir name entry.build) rest added later
    have more := length_insert_le dir name entry.build
    refine ⟨all,?_⟩
    rw [buildOnto,List.length_cons]
    omega

end

theorem buildOnto_foldl (dir records : Dir) : buildOnto dir records =
    (records.map fun entry => (entry.1,entry.2.build)).foldl (fun map entry => insert map entry.1 entry.2) dir := by
  induction records generalizing dir with
  | nil => rfl
  | cons entry records ih => exact ih _

theorem build_wellFormed {records : Dir} (good : records.WellFormed) : build records = records := by
  induction good with
  | intro records sorted below ih =>
    have each : ∀ entry ∈ records, (entry.1,entry.2.build) = id entry := by
      intro entry member
      obtain ⟨name,entry⟩ := entry
      cases entry with
      | file data => rfl
      | dir children =>
        have inner := ih name children member
        rw [build] at inner
        rw [FsEntry.build,inner]
        rfl
    rw [build,buildOnto_foldl,List.map_congr_left each,List.map_id]
    exact foldl_insert sorted

theorem run_of_loadFrom {data : Bytes} {fs : RamFs} (accepts : RamFs.loadFrom data = .ok (some fs)) :
    ∃ stop, deserializeDir data 0 = .ok (some fs.root,stop) := by
  unfold RamFs.loadFrom at accepts
  split at accepts
  next fault failed => cases accepts
  next place rejected => cases accepts
  next root stop accepted =>
    cases accepts
    exact ⟨stop,accepted⟩

theorem storable_of_loadFrom {data : Bytes} {fs : RamFs} (accepts : RamFs.loadFrom data = .ok (some fs)) :
    fs.Storable := by
  obtain ⟨stop,run⟩ := run_of_loadFrom accepts
  obtain ⟨records,recorded,built⟩ := deserializeDir_records.mp run
  have all := storable_build (.dir records) (recordDir_bytes recorded).2
  rw [FsEntry.build,← build,built] at all
  exact all

/-- An accepted image loads again from its own encoding, and is that encoding exactly
when the names of every directory record occur in strictly increasing byte order. -/
theorem canonical_images {data : Bytes} {fs : RamFs} (accepts : RamFs.loadFrom data = .ok (some fs)) :
    ∃ stop records, deserializeDir data 0 = .ok (some fs.root,stop) ∧ recordDir data 0 = .ok (some records,stop) ∧
      RamFs.loadFrom fs.serialize = .ok (some fs) ∧ (fs.serialize = data.take stop ↔ Ascending records) := by
  obtain ⟨stop,run⟩ := run_of_loadFrom accepts
  obtain ⟨records,recorded,built⟩ := deserializeDir_records.mp run
  obtain ⟨bytes,storable⟩ := recordDir_bytes recorded
  have kept := storable_of_loadFrom accepts
  have again := loadFrom_image kept
  refine ⟨stop,records,run,recorded,again,?_⟩
  rw [ascending_iff,bytes]
  constructor
  · intro same
    exact serializeDir_injective kept storable same ▸ fs.wellFormed
  · intro good
    rw [RamFs.serialize,← built,build_wellFormed good]

theorem canonical_images_swapped : ∃ fs stop records,
    RamFs.loadFrom [2,0,0,1,98,0,0,0,0,0,1,97,0,0,0,0] = .ok (some fs) ∧
      recordDir [2,0,0,1,98,0,0,0,0,0,1,97,0,0,0,0] 0 = .ok (some records,stop) ∧ ¬Ascending records ∧
      RamFs.loadFrom fs.serialize = .ok (some fs) ∧
      fs.serialize ≠ [2,0,0,1,98,0,0,0,0,0,1,97,0,0,0,0].take stop := by
  let fs := ((RamFs.new.write [] ['b'] []).2.write [] ['a'] []).2
  have run : deserializeDir [2,0,0,1,98,0,0,0,0,0,1,97,0,0,0,0] 0 = .ok (some fs.root,16) := rfl
  have accepts := loadFrom_of_run run
  have known : recordDir [2,0,0,1,98,0,0,0,0,0,1,97,0,0,0,0] 0 =
      .ok (some [(['b'],.file []),(['a'],.file [])],16) := rfl
  obtain ⟨stop,records,_,recorded,again,canonical⟩ := canonical_images accepts
  obtain ⟨rfl,rfl⟩ : records = [(['b'],.file []),(['a'],.file [])] ∧ stop = 16 := by
    rw [known] at recorded
    cases recorded
    exact ⟨rfl,rfl⟩
  have unordered : ¬Ascending [(['b'],.file []),(['a'],.file [])] := by
    intro ascending
    cases ascending with
    | intro _ names _ => exact absurd names (by decide)
  exact ⟨fs,16,_,accepts,known,unordered,again,fun same => unordered (canonical.mp same)⟩

end PolarOs
