import PolarOs.Fs.Codec
import PolarOs.Library.ReaderImage

/-! The decoder on arbitrary bytes and on the encoder's output. It never faults, it
depends on exactly the bytes it passes over, and it inverts the encoder on every
tree within the limits of the format. -/
namespace PolarOs
open Library Library.SortedMap Library.Reader

theorem inside_header : Inside 2 (do
      let entryType ← byteAt 0
      let nameLen ← byteAt 1
      return (entryType,nameLen.toNat)) (fun bytes =>
        bytes[0]?.bind fun entryType => bytes[1]?.bind fun nameLen => some (entryType,nameLen.toNat)) :=
  inside_bind (inside_byteAt (by omega)) fun _ =>
    inside_bind (inside_byteAt (by omega)) fun _ => inside_pure 2 _

theorem inside_name (nameLen : Nat) : Inside nameLen (do
      let bytes ← bytesOf nameLen
      ofOption (Utf8.decode bytes)) (fun bytes => (some bytes).bind Utf8.decode) :=
  inside_bind (inside_bytesOf nameLen) fun _ => inside_ofOption nameLen _

theorem inside_count : Inside 2 (do
      let b0 ← byteAt 0
      let b1 ← byteAt 1
      return LittleEndian.decode [b0,b1]) (fun bytes =>
        bytes[0]?.bind fun b0 => bytes[1]?.bind fun b1 => some (LittleEndian.decode [b0,b1])) :=
  inside_bind (inside_byteAt (by omega)) fun _ =>
    inside_bind (inside_byteAt (by omega)) fun _ => inside_pure 2 _

theorem inside_length : Inside 4 (do
      let b0 ← byteAt 0
      let b1 ← byteAt 1
      let b2 ← byteAt 2
      let b3 ← byteAt 3
      return LittleEndian.decode [b0,b1,b2,b3]) (fun bytes =>
        bytes[0]?.bind fun b0 => bytes[1]?.bind fun b1 => bytes[2]?.bind fun b2 =>
          bytes[3]?.bind fun b3 => some (LittleEndian.decode [b0,b1,b2,b3])) :=
  inside_bind (inside_byteAt (by omega)) fun _ =>
    inside_bind (inside_byteAt (by omega)) fun _ =>
      inside_bind (inside_byteAt (by omega)) fun _ =>
        inside_bind (inside_byteAt (by omega)) fun _ => inside_pure 4 _

theorem delimited_entry {recurse : Reader Dir} (inner : Delimited recurse) (dir : Dir) :
    Delimited (deserializeEntry recurse dir) := by
  refine delimited_bind (delimited_guarded inside_header) ?_
  intro header
  obtain ⟨entryType,nameLen⟩ := header
  refine delimited_bind (delimited_guarded (inside_name nameLen)) fun name => ?_
  split_ifs
  · refine delimited_bind (delimited_guarded inside_length) fun dataLen => ?_
    exact delimited_bind (delimited_guarded (inside_bytesOf dataLen)) fun _ => delimited_pure _
  · exact delimited_bind inner fun _ => delimited_pure _
  · exact delimited_reject

theorem delimited_body {recurse : Reader Dir} (inner : Delimited recurse) :
    Delimited (deserializeBody recurse) :=
  delimited_bind (delimited_guarded inside_count) fun count =>
    delimited_iterate (delimited_entry inner) count []

theorem delimited_fuel (fuel : Nat) : Delimited (deserializeFuel fuel) := by
  induction fuel with
  | zero => exact delimited_exhausted
  | succ fuel ih => exact delimited_body ih

theorem safe_entry {left : Nat} {recurse : Reader Dir} (delimited : Delimited recurse)
    (inner : Safe left recurse) (dir : Dir) : Safe left (deserializeEntry recurse dir) := by
  refine safe_bind (delimited_guarded inside_header) (safe_guarded left inside_header) ?_
  intro header
  obtain ⟨entryType,nameLen⟩ := header
  refine safe_bind (delimited_guarded (inside_name nameLen)) (safe_guarded left (inside_name nameLen)) fun name => ?_
  split_ifs
  · refine safe_bind (delimited_guarded inside_length) (safe_guarded left inside_length) fun dataLen => ?_
    exact safe_bind (delimited_guarded (inside_bytesOf dataLen)) (safe_guarded left (inside_bytesOf dataLen))
      fun _ => safe_pure left _
  · exact safe_bind delimited inner fun _ => safe_pure left _
  · exact safe_reject left

/-- The entry count takes two bytes, so the recursive calls have fewer bytes to come. -/
theorem safe_fuel (fuel : Nat) : Safe fuel (deserializeFuel fuel) := by
  induction fuel with
  | zero => exact fun _ _ _ short => absurd short (Nat.not_lt_zero _)
  | succ fuel ih =>
    exact safe_guarded_bind inside_count (by omega) fun count =>
      safe_iterate (delimited_entry (delimited_fuel fuel)) (safe_entry (delimited_fuel fuel) ih) count []

theorem extends_body {recurse other : Reader Dir} (inner : Extends recurse other) :
    Extends (deserializeBody recurse) (deserializeBody other) := by
  refine extends_bind (Extends.refl _) fun count => extends_iterate (fun dir => ?_) count []
  refine extends_bind (Extends.refl _) ?_
  intro header
  obtain ⟨entryType,nameLen⟩ := header
  refine extends_bind (Extends.refl _) fun name => ?_
  split_ifs
  · exact Extends.refl _
  · exact extends_bind inner fun _ => Extends.refl _
  · exact Extends.refl _

theorem extends_succ (fuel : Nat) : Extends (deserializeFuel fuel) (deserializeFuel (fuel + 1)) := by
  induction fuel with
  | zero => exact extends_exhausted _
  | succ fuel ih => exact extends_body ih

theorem extends_fuel {fuel more : Nat} (enough : fuel ≤ more) :
    Extends (deserializeFuel fuel) (deserializeFuel more) := by
  induction enough with
  | refl => exact Extends.refl _
  | step _ ih => exact fun data pos outcome run => extends_succ _ data pos outcome (ih data pos outcome run)

theorem body_outside (recurse : Reader Dir) {data : Bytes} {pos : Nat} (outside : data.length < pos + 2) :
    deserializeBody recurse data pos = .ok (none,pos) := by
  refine bind_of_rejects ?_ _
  rw [guarded_run inside_count,if_neg (by omega)]

theorem deserializeDir_total (data : Bytes) (pos : Nat) :
    ∃ result stop, deserializeDir data pos = .ok (result,stop) := by
  by_cases bound : pos ≤ data.length
  · exact safe_fuel (data.length + 1) data pos bound (by omega)
  · exact ⟨none,pos,body_outside _ (by omega)⟩

/-- Whatever some fuel computes is what the decoder computes. -/
theorem deserializeDir_of_fuel (fuel : Nat) : Extends (deserializeFuel fuel) deserializeDir := by
  intro data pos outcome run
  by_cases small : fuel ≤ data.length + 1
  · exact extends_fuel small data pos outcome run
  · obtain ⟨result,stop,total⟩ := deserializeDir_total data pos
    have same := extends_fuel (by omega : data.length + 1 ≤ fuel) data pos _ total
    rw [total,← same,run]

theorem fuel_of_deserializeDir {data : Bytes} {pos fuel : Nat} (bound : pos ≤ data.length)
    (enough : data.length - pos < fuel) : deserializeFuel fuel data pos = deserializeDir data pos := by
  obtain ⟨result,stop,run⟩ := safe_fuel fuel data pos bound enough
  rw [run,deserializeDir_of_fuel fuel data pos _ run]

/-- The decoder satisfies the recursion of the source: the fuel is never seen. -/
theorem deserializeDir_eq (data : Bytes) (pos : Nat) :
    deserializeDir data pos = deserializeBody deserializeDir data pos := by
  obtain ⟨result,stop,run⟩ := deserializeDir_total data pos
  have unfolded : deserializeBody (deserializeFuel data.length) data pos = .ok (result,stop) := run
  rw [run,extends_body (deserializeDir_of_fuel data.length) data pos _ unfolded]

theorem delimited_deserializeDir : Delimited deserializeDir where
  advances bound run := (delimited_fuel _).advances bound run
  determined {data pos value stop other} bound run agree :=
    deserializeDir_of_fuel _ other pos _ ((delimited_fuel (data.length + 1)).determined bound run agree)
  truncated {data pos value stop cut} bound run low high := by
    obtain ⟨place,rejected⟩ := (delimited_fuel (data.length + 1)).truncated bound run low high
    exact ⟨place,deserializeDir_of_fuel _ _ pos _ rejected⟩

theorem deserializeDir_consumes {data : Bytes} {pos stop : Nat} {dir : Dir}
    (run : deserializeDir data pos = .ok (some dir,stop)) : pos < stop := by
  rw [deserializeDir_eq] at run
  obtain ⟨count,middle,counted,rest⟩ := bind_accepts.mp run
  obtain ⟨fits,_,rfl⟩ := guarded_accepts inside_count counted
  have more := (delimited_iterate (delimited_entry delimited_deserializeDir) count []).advances fits rest
  omega

/-- On arbitrary bytes: no fault, whatever fuel beyond the bytes left; an accepted
tree is determined by the bytes passed over; every cut inside them is rejected. -/
theorem deserializeDir_self_delimiting (data : Bytes) (pos : Nat) (bound : pos ≤ data.length) :
    ∃ result stop, deserializeDir data pos = .ok (result,stop) ∧
      (∀ fuel, data.length - pos < fuel → deserializeFuel fuel data pos = .ok (result,stop)) ∧
      ∀ dir, result = some dir →
        pos < stop ∧ stop ≤ data.length ∧
        (∀ other : Bytes, stop ≤ other.length → (∀ i, pos ≤ i → i < stop → other[i]? = data[i]?) →
          deserializeDir other pos = .ok (some dir,stop)) ∧
        (∀ cut, pos ≤ cut → cut < stop →
          ∃ place, deserializeDir (data.take cut) pos = .ok (none,place)) := by
  obtain ⟨result,stop,run⟩ := deserializeDir_total data pos
  refine ⟨result,stop,run,fun fuel enough => (fuel_of_deserializeDir bound enough).trans run,?_⟩
  intro dir equal
  subst equal
  refine ⟨deserializeDir_consumes run,(delimited_deserializeDir.advances bound run).2,?_,?_⟩
  · intro other long same
    exact delimited_deserializeDir.determined bound run ⟨long,same⟩
  · intro cut low high
    exact delimited_deserializeDir.truncated bound run low high

theorem deserializeDir_self_delimiting_one :
    deserializeDir [1,0,0,1,97,2,0,0,0,1,2] 0 = .ok (some [(['a'],.file [1,2])],11) ∧
      ∃ place, deserializeDir [1,0,0,1,97] 0 = .ok (none,place) := by
  obtain ⟨result,stop,run,_,accepted⟩ :=
    deserializeDir_self_delimiting [1,0,0,1,97,2,0,0,0,1,2] 0 (by decide)
  have known : deserializeDir [1,0,0,1,97,2,0,0,0,1,2] 0 = .ok (some [(['a'],.file [1,2])],11) := rfl
  obtain ⟨rfl,rfl⟩ : result = some [(['a'],.file [1,2])] ∧ stop = 11 := by
    rw [known] at run
    cases run
    exact ⟨rfl,rfl⟩
  exact ⟨run,(accepted _ rfl).2.2.2 5 (by decide) (by decide)⟩

theorem yields_entry {recurse : Reader Dir} (inner : Yields Dir.WellFormed recurse) {dir : Dir}
    (good : dir.WellFormed) : Yields Dir.WellFormed (deserializeEntry recurse dir) := by
  refine yields_bind (yields_any _) ?_
  intro header _
  obtain ⟨entryType,nameLen⟩ := header
  refine yields_bind (yields_any _) fun name _ => ?_
  split_ifs
  · refine yields_bind (yields_any _) fun dataLen _ => yields_bind (yields_any _) fun fileData _ => ?_
    have fileGood : (FsEntry.file fileData).WellFormed := trivial
    apply yields_pure
    exact good.insert name fileGood
  · refine yields_bind inner fun children childrenGood => ?_
    have entryGood : (FsEntry.dir children).WellFormed := childrenGood
    apply yields_pure
    exact good.insert name entryGood
  · exact yields_reject _

theorem yields_fuel (fuel : Nat) : Yields Dir.WellFormed (deserializeFuel fuel) := by
  induction fuel with
  | zero =>
    intro data pos value stop run
    cases run
  | succ fuel ih =>
    exact yields_bind (yields_any _) fun count _ =>
      yields_iterate (fun dir good => yields_entry ih good) count Dir.wellFormed_nil

theorem deserializeDir_wellFormed {data : Bytes} {pos stop : Nat} {dir : Dir}
    (run : deserializeDir data pos = .ok (some dir,stop)) : dir.WellFormed :=
  yields_fuel _ run

def RamFs.loadFrom (data : Bytes) : Checked.Checked (Option RamFs) :=
  match run : deserializeDir data 0 with
  | .error fault => .error fault
  | .ok (none,_) => .ok none
  | .ok (some root,_) => .ok (some ⟨root,deserializeDir_wellFormed run⟩)

/-! Round trip. -/

mutual

def FsEntry.Storable : FsEntry → Prop
  | .file data => data.length < 2^32
  | .dir children => children.length ≤ 65535 ∧ EntriesStorable children

def EntriesStorable : List (Str × FsEntry) → Prop
  | [] => True
  | (name,entry)::rest => (Utf8.encode name).length ≤ 255 ∧ entry.Storable ∧ EntriesStorable rest

end

/-- The limits of the format: entries per directory, name bytes and file bytes. -/
def RamFs.Storable (fs : RamFs) : Prop :=
  (FsEntry.dir fs.root).Storable

theorem storable_entry {entries : List (Str × FsEntry)} (storable : EntriesStorable entries)
    {name : Str} {entry : FsEntry} (member : (name,entry) ∈ entries) :
    (Utf8.encode name).length ≤ 255 ∧ entry.Storable := by
  induction entries with
  | nil => simp at member
  | cons head rest ih =>
    obtain ⟨short,kept,later⟩ := storable
    rcases List.mem_cons.mp member with same | after
    · cases same
      exact ⟨short,kept⟩
    · exact ih later after

theorem serializeEntries_eq (entries : List (Str × FsEntry)) :
    serializeEntries entries = entries.flatMap fun entry => serializeEntry entry.1 entry.2 := by
  induction entries with
  | nil => rfl
  | cons entry rest ih => rw [serializeEntries,ih,List.flatMap_cons]

theorem reads_header (entryType : UInt8) {nameLen : Nat} (short : nameLen ≤ 255) :
    Reads (guarded 2 (do
      let entryType ← byteAt 0
      let nameLen ← byteAt 1
      return (entryType,nameLen.toNat))) [entryType,UInt8.ofNat nameLen] (entryType,nameLen) := by
  refine reads_guarded inside_header rfl ?_
  simp only [List.getElem?_cons_zero,List.getElem?_cons_succ,Option.bind_some,UInt8.toNat_ofNat']
  rw [Nat.mod_eq_of_lt (by omega)]

theorem reads_count {count : Nat} (fits : count < 2^16) :
    Reads (guarded 2 (do
      let b0 ← byteAt 0
      let b1 ← byteAt 1
      return LittleEndian.decode [b0,b1])) (LittleEndian.encode 2 (count % 2^16)) count := by
  refine reads_guarded inside_count (LittleEndian.length_encode 2 _) ?_
  have whole := LittleEndian.decode_encode 2 count (by omega)
  rw [Nat.mod_eq_of_lt fits]
  simpa [LittleEndian.encode] using whole

theorem reads_length {size : Nat} (fits : size < 2^32) :
    Reads (guarded 4 (do
      let b0 ← byteAt 0
      let b1 ← byteAt 1
      let b2 ← byteAt 2
      let b3 ← byteAt 3
      return LittleEndian.decode [b0,b1,b2,b3])) (LittleEndian.encode 4 (size % 2^32)) size := by
  refine reads_guarded inside_length (LittleEndian.length_encode 4 _) ?_
  have whole := LittleEndian.decode_encode 4 size (by omega)
  rw [Nat.mod_eq_of_lt fits]
  simpa [LittleEndian.encode] using whole

/-- The name the encoder writes, none when the cut splits a character. -/
def cutName (name : Str) : Option Str := Utf8.decode ((Utf8.encode name).take 255)

theorem cutName_short {name : Str} (short : (Utf8.encode name).length ≤ 255) : cutName name = some name := by
  rw [cutName,List.take_of_length_le short,Utf8.decode_encode]

/-- What reading makes of an entry when it makes `kept` of a directory. -/
def FsEntry.through (kept : Dir → Option Dir) : FsEntry → Option FsEntry
  | .file data => some (.file data)
  | .dir children => (kept children).map .dir

theorem gives_name (name : Str) :
    Gives (guarded (min (Utf8.encode name).length 255) (do
      let bytes ← bytesOf (min (Utf8.encode name).length 255)
      ofOption (Utf8.decode bytes))) ((Utf8.encode name).take (min (Utf8.encode name).length 255)) (cutName name) := by
  have size : ((Utf8.encode name).take (min (Utf8.encode name).length 255)).length =
      min (Utf8.encode name).length 255 := by
    rw [List.length_take]
    omega
  have cut : (Utf8.encode name).take (min (Utf8.encode name).length 255) = (Utf8.encode name).take 255 := by
    rw [Nat.min_comm,← List.take_take,List.take_length]
  have given := gives_guarded (inside_name (min (Utf8.encode name).length 255)) size
  rw [cut] at given ⊢
  exact given

theorem gives_entry (add : Dir → Str → FsEntry → Dir) {recurse : Reader Dir} {kept : Dir → Option Dir} (name : Str)
    {entry : FsEntry} (dir : Dir) (small : ∀ data, entry = .file data → data.length < 2^32)
    (inner : ∀ children, entry = .dir children → Gives recurse (serializeDir children) (kept children)) :
    Gives (readEntry add recurse dir) (serializeEntry name entry)
      ((cutName name).bind fun name => (entry.through kept).bind fun entry => some (add dir name entry)) := by
  have short : min (Utf8.encode name).length 255 ≤ 255 := Nat.min_le_right _ _
  cases entry with
  | file data =>
    simp only [serializeEntry,List.append_assoc]
    apply gives_after (reads_header 0 short)
    apply gives_bind (gives_name name)
    intro found _
    rw [if_pos rfl]
    apply gives_after (reads_length (small data rfl))
    have content := reads_guarded (inside_bytesOf data.length) (rfl : data.length = data.length) rfl
    exact reads_map content fun data => add dir found (.file data)
  | dir children =>
    simp only [serializeEntry,List.append_assoc]
    apply gives_after (reads_header 1 short)
    apply gives_bind (gives_name name)
    intro found _
    rw [if_neg (by decide),if_pos rfl]
    have through : (FsEntry.dir children).through kept = (kept children).map .dir := rfl
    rw [through,Option.bind_map]
    have nested : Gives (recurse >>= fun children => pure (add dir found (.dir children))) (serializeDir children ++ [])
        ((kept children).bind fun children => some (add dir found (.dir children))) :=
      gives_bind (inner children rfl) (fun _ _ => gives_pure _)
    rw [List.append_nil] at nested
    exact nested

/-- A directory is read back as the fold of its entries, if the count was not cut. -/
theorem gives_body (add : Dir → Str → FsEntry → Dir) {recurse : Reader Dir} {dir : Dir}
    {step : Dir → Str × FsEntry → Option Dir} (few : dir.length < 2^16)
    (each : ∀ entry ∈ dir, ∀ state,
      Gives (readEntry add recurse state) (serializeEntry entry.1 entry.2) (step state entry)) :
    Gives (readBody add recurse) (serializeDir dir) (dir.foldlM step []) := by
  rw [serializeDir,serializeEntries_eq]
  exact gives_after (reads_count few) (gives_iterate each [])

theorem through_some (entry : FsEntry) : entry.through some = some entry := by
  cases entry <;> rfl

theorem reads_body (add : Dir → Str → FsEntry → Dir) {recurse : Reader Dir} {dir : Dir}
    (storable : (FsEntry.dir dir).Storable)
    (inner : ∀ name children, (name,.dir children) ∈ dir → Reads recurse (serializeDir children) children) :
    Reads (readBody add recurse) (serializeDir dir) (dir.foldl (fun map entry => add map entry.1 entry.2) []) := by
  obtain ⟨few,each⟩ := storable
  have entries : ∀ entry ∈ dir, ∀ state, Gives (readEntry add recurse state) (serializeEntry entry.1 entry.2)
      (pure (add state entry.1 entry.2)) := by
    intro entry member state
    obtain ⟨name,entry⟩ := entry
    obtain ⟨short,kept⟩ := storable_entry each member
    have small : ∀ data, entry = .file data → data.length < 2^32 := by
      intro data same
      subst same
      exact kept
    have nested : ∀ children, entry = .dir children → Gives recurse (serializeDir children) (some children) := by
      intro children same
      subst same
      exact inner name children member
    have given := gives_entry add name state small nested
    rw [cutName_short short,through_some] at given
    exact given
  have whole := gives_body add (Nat.lt_succ_of_le few) entries
  rw [List.foldlM_pure] at whole
  exact whole

/-- Every tree within the limits is read back, between any prefix and any suffix. -/
theorem reads_serializeDir {dir : Dir} (good : dir.WellFormed) (storable : (FsEntry.dir dir).Storable) :
    Reads deserializeDir (serializeDir dir) dir := by
  induction good with
  | intro dir sorted below ih =>
    have body := reads_body insert storable fun name children member =>
      ih name children member (storable_entry storable.2 member).2
    have rebuilt : dir.foldl (fun map entry => SortedMap.insert map entry.1 entry.2) [] = dir := foldl_insert sorted
    rw [rebuilt] at body
    intro before after
    rw [deserializeDir_eq]
    exact body before after

theorem loadFrom_of_run {data : Bytes} {fs : RamFs} {stop : Nat}
    (run : deserializeDir data 0 = .ok (some fs.root,stop)) : RamFs.loadFrom data = .ok (some fs) := by
  unfold RamFs.loadFrom
  split
  next fault failed => simp [run] at failed
  next place rejected => simp [run] at rejected
  next root place accepted =>
    obtain rfl : fs.root = root := by
      rw [run] at accepted
      cases accepted
      rfl
    rfl

theorem loadFrom_of_refused {data : Bytes} {stop : Nat} (run : deserializeDir data 0 = .ok (none,stop)) :
    RamFs.loadFrom data = .ok none := by
  unfold RamFs.loadFrom
  split
  next fault failed => simp [run] at failed
  next place rejected => rfl
  next root place accepted => simp [run] at accepted

theorem loadFrom_total (data : Bytes) : ∃ result, RamFs.loadFrom data = .ok result := by
  obtain ⟨result,stop,run⟩ := deserializeDir_total data 0
  cases result with
  | none => exact ⟨none,loadFrom_of_refused run⟩
  | some root => exact ⟨some ⟨root,deserializeDir_wellFormed run⟩,loadFrom_of_run run⟩

theorem loadFrom_image {fs : RamFs} (storable : fs.Storable) : RamFs.loadFrom fs.serialize = .ok (some fs) := by
  have read := reads_serializeDir fs.wellFormed storable [] []
  simp only [List.nil_append,List.append_nil] at read
  exact loadFrom_of_run read

/-- Decode undoes encode, whatever bytes follow. -/
theorem loadFrom_serialize (fs : RamFs) (storable : fs.Storable) (rest : Bytes) :
    RamFs.loadFrom (fs.serialize ++ rest) = .ok (some fs) ∧
      deserializeDir (fs.serialize ++ rest) 0 = .ok (some fs.root,fs.serialize.length) := by
  have read := reads_serializeDir fs.wellFormed storable [] rest
  simp only [List.nil_append,List.length_nil,Nat.zero_add] at read
  exact ⟨loadFrom_of_run read,read⟩

/-- A directory of two files and a file. -/
def nestedTree : RamFs := ⟨[(['d'],.dir [(['f'],.file [1,2]),(['g'],.file [])]),(['e'],.file [3])],by
  refine .intro _ (by decide) ?_
  intro name children member
  rcases List.mem_pair.mp member with same | same <;> cases same
  exact .intro _ (by decide) (by simp)⟩

theorem loadFrom_serialize_one :
    RamFs.loadFrom (nestedTree.serialize ++ [7]) = .ok (some nestedTree) := by
  have limit : ∀ {data : Bytes}, data.length ≤ 2 → (FsEntry.file data).Storable := by
    intro data small
    exact Nat.lt_of_le_of_lt small (by decide)
  have inner : (FsEntry.dir [(['f'],.file [1,2]),(['g'],.file [])]).Storable :=
    ⟨by decide,by decide,limit (by decide),by decide,limit (by decide),trivial⟩
  exact (loadFrom_serialize nestedTree ⟨by decide,by decide,inner,by decide,limit (by decide),trivial⟩ [7]).1

end PolarOs
