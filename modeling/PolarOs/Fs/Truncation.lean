import PolarOs.Fs.Records

/-! What saving does to names over 255 bytes. The encoder writes their first 255 bytes;
the decoder refuses a split character and keeps the last of several entries whose cut
names coincide. Entry counts and file lengths fit their fields throughout. -/
namespace PolarOs
open Library Library.SortedMap Library.Reader

mutual

/-- The tree with every name cut, none when a cut splits a character. -/
def FsEntry.cut : FsEntry → Option FsEntry
  | .file data => some (.file data)
  | .dir children => (cutOnto [] children).map .dir

def cutOnto : Dir → List (Str × FsEntry) → Option Dir
  | dir,[] => some dir
  | dir,(name,entry)::rest => do
    let name ← cutName name
    let entry ← entry.cut
    cutOnto (insert dir name entry) rest

end

def Dir.cut (dir : Dir) : Option Dir := cutOnto [] dir

mutual

/-- Entry counts and file lengths fit their fields, whatever the names. -/
def FsEntry.Counted : FsEntry → Prop
  | .file data => data.length < 2^32
  | .dir children => children.length ≤ 65535 ∧ EntriesCounted children

def EntriesCounted : List (Str × FsEntry) → Prop
  | [] => True
  | (_,entry)::rest => entry.Counted ∧ EntriesCounted rest

end

mutual

def FsEntry.ShortNames : FsEntry → Prop
  | .file _ => True
  | .dir children => EntriesShort children

def EntriesShort : List (Str × FsEntry) → Prop
  | [] => True
  | (name,entry)::rest => (Utf8.encode name).length ≤ 255 ∧ entry.ShortNames ∧ EntriesShort rest

end

def RamFs.Counted (fs : RamFs) : Prop := (FsEntry.dir fs.root).Counted

def RamFs.ShortNames (fs : RamFs) : Prop := (FsEntry.dir fs.root).ShortNames

mutual

theorem FsEntry.storable_iff (entry : FsEntry) : entry.Storable ↔ entry.Counted ∧ entry.ShortNames := by
  cases entry with
  | file data => exact (and_true _).to_iff.symm
  | dir children =>
    have each := entriesStorable_split children
    simp only [FsEntry.Storable,FsEntry.Counted,FsEntry.ShortNames,each,and_assoc]

theorem entriesStorable_split (entries : List (Str × FsEntry)) :
    EntriesStorable entries ↔ EntriesCounted entries ∧ EntriesShort entries := by
  match entries with
  | [] => exact (and_true _).to_iff.symm
  | (name,entry)::rest =>
    have here := FsEntry.storable_iff entry
    have later := entriesStorable_split rest
    simp only [EntriesStorable,EntriesCounted,EntriesShort,here,later]
    tauto

end

theorem counted_entry {entries : List (Str × FsEntry)} (counted : EntriesCounted entries) {entry : Str × FsEntry}
    (member : entry ∈ entries) : entry.2.Counted := by
  induction entries with
  | nil => simp at member
  | cons head rest ih =>
    obtain ⟨first,later⟩ := counted
    rcases List.mem_cons.mp member with same | after
    · exact same ▸ first
    · exact ih later after

def cutEntry (dir : Dir) (entry : Str × FsEntry) : Option Dir :=
  (cutName entry.1).bind fun name => entry.2.cut.bind fun kept => some (insert dir name kept)

theorem cutOnto_foldlM (dir entries : Dir) : cutOnto dir entries = entries.foldlM cutEntry dir := by
  induction entries generalizing dir with
  | nil => rfl
  | cons entry entries ih =>
    obtain ⟨name,entry⟩ := entry
    rw [cutOnto,List.foldlM_cons,cutEntry]
    cases cutName name with
    | none => rfl
    | some short =>
      cases entry.cut with
      | none => rfl
      | some kept => exact ih _

theorem through_cut (entry : FsEntry) : entry.through Dir.cut = entry.cut := by
  cases entry with
  | file data => rw [FsEntry.cut,FsEntry.through]
  | dir children => rw [FsEntry.cut,FsEntry.through,Dir.cut]

/-- The decoder makes the cut tree of an encoding, or refuses it where a cut does. -/
theorem gives_cut (dir : Dir) (counted : (FsEntry.dir dir).Counted) :
    Gives deserializeDir (serializeDir dir) dir.cut := by
  obtain ⟨few,each⟩ := counted
  have entries : ∀ entry ∈ dir, ∀ state, Gives (readEntry insert deserializeDir state)
      (serializeEntry entry.1 entry.2) (cutEntry state entry) := by
    intro entry member state
    obtain ⟨name,entry⟩ := entry
    have fits := counted_entry each member
    have small : ∀ data, entry = .file data → data.length < 2^32 := by
      intro data same
      subst same
      exact fits
    have nested : ∀ children, entry = .dir children →
        Gives deserializeDir (serializeDir children) (Dir.cut children) := by
      intro children same
      subst same
      have smaller := sizeOf_children member
      exact gives_cut children fits
    have given := gives_entry insert name state small nested
    rw [through_cut] at given
    exact given
  have body := gives_body insert (Nat.lt_succ_of_le few) entries
  have unfolded : deserializeDir = readBody insert deserializeDir := by
    funext data pos
    exact deserializeDir_eq data pos
  rw [unfolded,Dir.cut,cutOnto_foldlM]
  exact body
termination_by sizeOf dir

theorem loadFrom_cut {fs : RamFs} (counted : fs.Counted) :
    RamFs.loadFrom fs.serialize = .ok none ∧ fs.root.cut = none ∨
      ∃ saved, RamFs.loadFrom fs.serialize = .ok (some saved) ∧ fs.root.cut = some saved.root := by
  have given := gives_cut fs.root counted
  cases kept : fs.root.cut with
  | none =>
    rw [kept] at given
    obtain ⟨stop,refused⟩ := given [] []
    rw [List.nil_append,List.append_nil] at refused
    exact Or.inl ⟨loadFrom_of_refused refused,rfl⟩
  | some root =>
    rw [kept] at given
    have run := given [] []
    rw [List.nil_append,List.append_nil] at run
    exact Or.inr ⟨⟨root,deserializeDir_wellFormed run⟩,loadFrom_of_run run,rfl⟩

/-- Within the counts and lengths of the format a saved tree comes back with its names
cut, or is refused where a cut splits a character; it is the tree that was saved
exactly when no name is over 255 bytes. -/
theorem load_of_saved {fs : RamFs} (counted : fs.Counted) :
    (RamFs.loadFrom fs.serialize = .ok none ↔ fs.root.cut = none) ∧
      (∀ saved : RamFs, RamFs.loadFrom fs.serialize = .ok (some saved) ↔ fs.root.cut = some saved.root) ∧
      ∀ saved, RamFs.loadFrom fs.serialize = .ok (some saved) → (saved = fs ↔ fs.ShortNames) := by
  refine ⟨?_,?_,?_⟩
  · rcases loadFrom_cut counted with ⟨refused,kept⟩ | ⟨saved,accepted,kept⟩
    · simp only [refused,kept]
    · simp [accepted,kept]
  · intro saved
    rcases loadFrom_cut counted with ⟨refused,kept⟩ | ⟨other,accepted,kept⟩
    · simp [refused,kept]
    · rw [accepted,kept,Except.ok.injEq,Option.some.injEq,Option.some.injEq,RamFs.ext_iff]
  · intro saved accepted
    have limits : fs.Storable ↔ fs.Counted ∧ fs.ShortNames := FsEntry.storable_iff _
    constructor
    · intro same
      exact (limits.mp (same ▸ storable_of_loadFrom accepted)).2
    · intro short
      have whole := loadFrom_image (limits.mpr ⟨counted,short⟩)
      rw [accepted] at whole
      cases whole
      rfl

def longNamed : RamFs := (RamFs.new.write [] (List.replicate 256 'a') []).2

theorem longNamed_root : longNamed.root = [(List.replicate 256 'a',.file [])] := rfl

theorem longNamed_counted : longNamed.Counted :=
  ⟨by decide,Nat.two_pow_pos 32,trivial⟩

theorem longNamed_cut : longNamed.root.cut = some [(List.replicate 255 'a',.file [])] := by
  have encoded (n : Nat) : Utf8.encode (List.replicate n 'a') = List.replicate n 97 :=
    List.flatMap_replicate.trans List.flatten_replicate_singleton
  have bytes : (Utf8.encode (List.replicate 256 'a')).take 255 = Utf8.encode (List.replicate 255 'a') := by
    rw [encoded,encoded,List.take_replicate]
    rfl
  have name : cutName (List.replicate 256 'a') = some (List.replicate 255 'a') := by
    rw [cutName,bytes,Utf8.decode_encode]
  rw [longNamed_root,Dir.cut,cutOnto_foldlM,List.foldlM_cons,cutEntry,name]
  rfl

theorem load_of_saved_long : RamFs.loadFrom longNamed.serialize ≠ .ok none ∧
    ∀ saved, RamFs.loadFrom longNamed.serialize = .ok (some saved) → (saved = longNamed ↔ longNamed.ShortNames) := by
  obtain ⟨refused,_,kept⟩ := load_of_saved longNamed_counted
  refine ⟨fun none => ?_,kept⟩
  rw [refused,longNamed_cut] at none
  cases none

theorem load_alters_name : ∃ saved, RamFs.loadFrom (RamFs.new.write [] (List.replicate 256 'a') []).2.serialize =
    .ok (some saved) ∧ saved ≠ (RamFs.new.write [] (List.replicate 256 'a') []).2 := by
  rcases loadFrom_cut longNamed_counted with ⟨_,refused⟩ | ⟨saved,accepts,kept⟩
  · rw [longNamed_cut] at refused
    cases refused
  · refine ⟨saved,accepts,fun same => ?_⟩
    have root : saved.root = longNamed.root := congrArg RamFs.root same
    rw [longNamed_cut,root,longNamed_root] at kept
    have lengths := congrArg (fun root => root.map fun entry => entry.1.length) (Option.some.inj kept)
    simp only [List.map_cons,List.map_nil,List.length_replicate] at lengths
    exact absurd lengths (by decide)

end PolarOs
