import PolarOs.Kernel.Elf

/-! The memory image that the ELF loader leaves. A page keeps the frame it got, and a frame that
is handed out is mapped nowhere else, so a later segment changes nothing that an earlier one
stored, even on a page that they share. -/
namespace PolarOs.Elf
open Library Library.Checked BootInfoFrameAllocator

theorem allocateFrames_append {crate : FrameCrate} {early late : List (Option Nat)} {first middle last : BootInfoFrameAllocator}
    {count more : Nat} (left : allocateFrames crate count first = .ok (early,middle))
    (right : allocateFrames crate more middle = .ok (late,last)) :
    allocateFrames crate (count + more) first = .ok (early ++ late,last) := by
  induction count generalizing early first with
  | zero =>
    cases left
    rw [Nat.zero_add,List.nil_append,right]
  | succ count ih =>
    obtain ⟨⟨frame,second⟩,taken,left⟩ := bind_ok.mp left
    obtain ⟨⟨frames,third⟩,rest,left⟩ := bind_ok.mp left
    cases left
    rw [Nat.succ_add_eq_add_succ,Nat.add_succ,allocateFrames,taken,ok_bind]
    dsimp only
    rw [ih rest]
    rfl

/-- The frames still to be handed out differ from each other and from the mapped ones. -/
def FreshFrames (crate : FrameCrate) (table : PageTable) (allocator : BootInfoFrameAllocator) : Prop :=
  ∀ count frames next, allocateFrames crate count allocator = .ok (frames,next) →
    (frames.Pairwise fun left right => ∀ frame, left = some frame → right ≠ some frame) ∧
    ∀ frame, some frame ∈ frames → ∀ page mapping, table page = some mapping → mapping.frame ≠ frame

variable {table : PageTable} {allocator next : BootInfoFrameAllocator} {crate : FrameCrate} {crates : Crates} {data : Bytes}

theorem FreshFrames.later (fresh : FreshFrames crate table allocator) {count : Nat} {frames : List (Option Nat)}
    (ran : allocateFrames crate count allocator = .ok (frames,next)) : FreshFrames crate table next := by
  intro more late last again
  obtain ⟨apart,unused⟩ := fresh _ _ _ (allocateFrames_append ran again)
  exact ⟨(List.pairwise_append.mp apart).2.1,fun frame member => unused frame (List.mem_append_right _ member)⟩

theorem FreshFrames.unused (fresh : FreshFrames crate table allocator) {frame : Nat}
    (taken : allocator.allocateFrame crate = .ok (some frame,next)) :
    ∀ page mapping, table page = some mapping → mapping.frame ≠ frame := by
  have one : allocateFrames crate 1 allocator = .ok ([some frame],next) := by
    rw [allocateFrames,taken]
    rfl
  exact (fresh _ _ _ one).2 frame List.mem_cons_self

theorem FreshFrames.mapped (fresh : FreshFrames crate table allocator) {frame : Nat}
    (taken : allocator.allocateFrame crate = .ok (some frame,next)) (page : Nat) (flags : PageTableFlags) :
    FreshFrames crate (Function.update table page (some ⟨frame,flags⟩)) next := by
  intro count late last ran
  have all : allocateFrames crate (count + 1) allocator = .ok (some frame::late,last) := by
    rw [allocateFrames,taken,ok_bind]
    dsimp only
    rw [ran]
    rfl
  obtain ⟨apart,unused⟩ := fresh _ _ _ all
  obtain ⟨differ,apart⟩ := List.pairwise_cons.mp apart
  refine ⟨apart,?_⟩
  intro other member place mapping found
  by_cases here : place = page
  · rw [here,Function.update_self] at found
    cases found
    rintro rfl
    exact differ _ member _ rfl rfl
  · rw [Function.update_of_ne here] at found
    exact unused other (List.mem_cons_of_mem _ member) place mapping found

/-- Over a sorted memory map it is enough that no mapped frame is still to be handed out. -/
theorem freshFrames_ready (laws : crate.Laws) {memoryMap : List MemoryRegion} (sorted : SortedRegions memoryMap)
    (ready : Ready memoryMap allocator)
    (clear : ∀ page mapping, table page = some mapping → mapping.frame ∉ allocator.remaining) :
    FreshFrames crate table allocator := by
  intro count frames next ran
  obtain ⟨last,all⟩ := allocateFrames_spec laws sorted count ready
  rw [all] at ran
  cases ran
  have ascending : allocator.remaining.Pairwise (· < ·) := by
    rw [remaining,ready.map]
    exact sorted.frames.filter _
  constructor
  · rw [List.pairwise_map]
    apply List.pairwise_lt_range.imp
    intro i j below frame left right
    obtain ⟨first,left⟩ := List.getElem?_eq_some_iff.mp left
    obtain ⟨second,right⟩ := List.getElem?_eq_some_iff.mp right
    have apart := List.pairwise_iff_getElem.mp ascending i j first second below
    omega
  · intro frame member page mapping found same
    obtain ⟨i,_,place⟩ := List.mem_map.mp member
    exact clear page mapping found (same ▸ List.mem_of_getElem? place)

namespace AddressSpace

/-- Every frame is mapped at most once, also by what comes. -/
structure Private (crate : FrameCrate) (space : AddressSpace) : Prop where
  distinct : Paging.Distinct space.table
  fresh : FreshFrames crate space.table space.allocator

theorem mapPages_private (laws : crates.Laws) {flags : PageTableFlags} {pages : List Nat} {first last : AddressSpace}
    (own : first.Private crates.toFrameCrate) (ran : mapPages crates flags pages first = .ok (.ok (),last)) :
    last.Private crates.toFrameCrate := by
  induction pages generalizing first with
  | nil =>
    cases ran
    exact own
  | cons page pages ih =>
    rw [mapPages] at ran
    split at ran
    next => exact ih own ran
    next =>
      obtain ⟨⟨frame,allocator⟩,taken,ran⟩ := bind_ok.mp ran
      cases frame with
      | none => cases ran
      | some frame =>
        dsimp only at ran
        obtain ⟨count,frames,more⟩ := laws.allocates page ⟨frame,flags⟩ first.table allocator
        split at ran
        next => cases ran
        next left installed =>
          rw [installed] at more
          apply ih ?_ ran
          exact {
            distinct := Paging.distinct_update own.distinct (own.fresh.unused taken)
            fresh := (own.fresh.mapped taken page flags).later more }

end AddressSpace

theorem mem_pagesBetween {first last page : Nat} :
    page ∈ pagesBetween first last ↔ first ≤ page ∧ page ≤ last ∧ Canonical (page * pageSize) := by
  rw [pagesBetween,List.mem_filter,List.mem_range'_1,decide_eq_true_eq,and_assoc]
  constructor
  · rintro ⟨start,stop,canonical⟩
    exact ⟨start,by omega,canonical⟩
  · rintro ⟨start,stop,canonical⟩
    exact ⟨start,by omega,canonical⟩

namespace ProgramHeader

/-- A segment of a user program: some memory in the lower half, and contents from the file. -/
structure UserSegment (data : Bytes) (ph : ProgramHeader) : Prop where
  nonempty : 1 ≤ ph.memSize.toNat
  shorter : ph.fileSize.toNat ≤ ph.memSize.toNat
  inFile : ph.offset.toNat + ph.fileSize.toNat ≤ data.length
  lower : ph.virtualAddr.toNat + ph.memSize.toNat ≤ 2^47

def Covers (ph : ProgramHeader) (address : Nat) : Prop :=
  ph.virtualAddr.toNat ≤ address ∧ address < ph.virtualAddr.toNat + ph.memSize.toNat

def Apart (ph other : ProgramHeader) : Prop := ∀ address, ph.Covers address → ¬other.Covers address

variable {ph : ProgramHeader}

theorem UserSegment.length_contents (user : ph.UserSegment data) : (ph.contents data).length = ph.memSize.toNat := by
  have shorter := user.shorter
  have inFile := user.inFile
  rw [contents,List.length_append,List.length_replicate,List.length_take,List.length_drop]
  omega

theorem UserSegment.contents_get (user : ph.UserSegment data) {i : Nat} (bound : i < ph.memSize.toNat) :
    (ph.contents data)[i]? = if i < ph.fileSize.toNat then data[ph.offset.toNat + i]? else some 0 := by
  have shorter := user.shorter
  have inFile := user.inFile
  have length : ((data.drop ph.offset.toNat).take ph.fileSize.toNat).length = ph.fileSize.toNat := by
    rw [List.length_take,List.length_drop]
    omega
  rw [contents]
  split
  next stored => rw [List.getElem?_append_left (by omega),List.getElem?_take_of_lt stored,List.getElem?_drop]
  next zero =>
    rw [List.getElem?_append_right (by omega),length,List.getElem?_replicate,if_pos (by omega)]

theorem UserSegment.page_mem (user : ph.UserSegment data) {address : Nat} (covered : ph.Covers address) :
    pageOf address ∈ ph.pages := by
  obtain ⟨start,stop⟩ := covered
  have lower := user.lower
  have first : extended ph.virtualAddr.toNat = ph.virtualAddr.toNat := extended_canonical (Or.inl (by omega))
  have last : extended (ph.virtualAddr.toNat + ph.memSize.toNat - 1) = ph.virtualAddr.toNat + ph.memSize.toNat - 1 :=
    extended_canonical (Or.inl (by omega))
  rw [pages,first,last]
  refine mem_pagesBetween.mpr ⟨Nat.div_le_div_right start,Nat.div_le_div_right (by omega),Or.inl ?_⟩
  have whole := Nat.div_mul_le_self address pageSize
  unfold pageOf
  omega

end ProgramHeader

namespace AddressSpace

def read (space : AddressSpace) (address : Nat) : Option UInt8 :=
  Paging.read pageSize space.table space.frames address

variable {ph : ProgramHeader} {headers : List ProgramHeader} {first middle last : AddressSpace}

/-- The bytes of the segments are there, and all that was mapped is as before outside them. -/
structure Image (crate : FrameCrate) (data : Bytes) (segments : List ProgramHeader) (first last : AddressSpace) : Prop where
  kept : Paging.Extends first.table last.table
  own : last.Private crate
  mapped : ∀ ph ∈ segments, ∀ address, ph.Covers address → (last.table (pageOf address)).isSome
  described : ∀ ph ∈ segments, ∀ i < ph.memSize.toNat, last.read (ph.virtualAddr.toNat + i) =
    if i < ph.fileSize.toNat then data[ph.offset.toNat + i]? else some 0
  untouched : ∀ address, (first.table (pageOf address)).isSome → (∀ ph ∈ segments, ¬ph.Covers address) →
    last.read address = first.read address

/-- The later segments keep off what the earlier ones stored. -/
theorem Image.append {early late : List ProgramHeader} (left : Image crate data early first middle)
    (right : Image crate data late middle last) (apart : ∀ ph ∈ early, ∀ other ∈ late, ph.Apart other) :
    Image crate data (early ++ late) first last := by
  refine {
    kept := left.kept.trans right.kept
    own := right.own
    mapped := ?mapped
    described := ?described
    untouched := ?untouched }
  case mapped =>
    intro ph member address covered
    rcases List.mem_append.mp member with before | after
    · exact right.kept.isSome (left.mapped ph before address covered)
    · exact right.mapped ph after address covered
  case described =>
    intro ph member i bound
    rcases List.mem_append.mp member with before | after
    · have covered : ph.Covers (ph.virtualAddr.toNat + i) := ⟨Nat.le_add_right ..,Nat.add_lt_add_left bound _⟩
      rw [right.untouched _ (left.mapped ph before _ covered) fun other there => apart ph before other there _ covered]
      exact left.described ph before i bound
    · exact right.described ph after i bound
  case untouched =>
    intro address there outside
    rw [right.untouched address (left.kept.isSome there) fun ph member => outside ph (List.mem_append_right _ member)]
    exact left.untouched address there fun ph member => outside ph (List.mem_append_left _ member)

theorem Image.nil (own : first.Private crate) : Image crate data [] first first where
  kept := .refl _
  own := own
  mapped := fun _ member => absurd member List.not_mem_nil
  described := fun _ member => absurd member List.not_mem_nil
  untouched := fun _ _ _ => rfl

theorem Loaded.image (laws : crates.Laws) (user : ph.UserSegment data) (own : first.Private crates.toFrameCrate)
    (loaded : Loaded crates data ph first middle last) : Image crates.toFrameCrate data [ph] first last := by
  have pages := mapPages_mapped loaded.mapped
  have after := mapPages_private laws own loaded.mapped
  have present : ∀ address, ph.Covers address → (middle.table (pageOf address)).isSome :=
    fun address covered => pages.present _ (user.page_mem covered)
  rw [loaded.copied]
  refine {
    kept := pages.extended
    own := ⟨after.distinct,after.fresh⟩
    mapped := ?mapped
    described := ?described
    untouched := ?untouched }
  case mapped =>
    intro other member
    cases List.mem_singleton.mp member
    exact present
  case described =>
    intro other member i bound
    cases List.mem_singleton.mp member
    rw [← user.contents_get bound]
    apply Paging.read_storeBytes_inside after.distinct
    · intro j inside
      rw [user.length_contents] at inside
      exact present _ ⟨Nat.le_add_right ..,Nat.add_lt_add_left inside _⟩
    · rw [user.length_contents]
      exact bound
  case untouched =>
    intro address there outside
    have place : address < ph.virtualAddr.toNat ∨ ph.virtualAddr.toNat + (ph.contents data).length ≤ address := by
      have out := outside ph List.mem_cons_self
      rw [user.length_contents]
      unfold ProgramHeader.Covers at out
      omega
    calc (middle.storeBytes ph.virtualAddr.toNat (ph.contents data)).read address
        = middle.read address := Paging.read_storeBytes_outside after.distinct _ place
      _ = Paging.read pageSize middle.table first.frames address := by rw [read,(mapPages_memory loaded.mapped).1]
      _ = first.read address := Paging.read_extends pages.extended there

theorem Loads.image (laws : crates.Laws) (loads : Loads crates data headers first last)
    (user : ∀ ph ∈ headers.filter ProgramHeader.isLoad, ph.UserSegment data)
    (disjoint : (headers.filter ProgramHeader.isLoad).Pairwise ProgramHeader.Apart)
    (own : first.Private crates.toFrameCrate) :
    Image crates.toFrameCrate data (headers.filter ProgramHeader.isLoad) first last := by
  induction loads with
  | done space => exact .nil own
  | load isLoad loaded rest ih =>
    rw [List.filter_cons_of_pos isLoad] at user disjoint ⊢
    obtain ⟨apart,disjoint⟩ := List.pairwise_cons.mp disjoint
    have here := loaded.image laws (user _ List.mem_cons_self) own
    have later := ih (fun other member => user other (List.mem_cons_of_mem _ member)) disjoint here.own
    apply here.append later
    intro early member
    cases List.mem_singleton.mp member
    exact apart
  | skip skipped rest ih =>
    rw [List.filter_cons_of_neg skipped] at user disjoint ⊢
    exact ih user disjoint own

end AddressSpace

def ElfFile.segments (elf : ElfFile) : List ProgramHeader := elf.programHeaders.filter ProgramHeader.isLoad

/-- Disjoint segments are loaded as the file describes them, on pages that may be shared with
each other and with what was mapped before. -/
theorem loaded_image_as_described {elf : ElfFile} {mm mm' : MemoryManager} {entry : UInt64} (laws : crates.Laws)
    (parsed : crates.parse data = some elf) (user : ∀ ph ∈ elf.segments, ph.UserSegment data)
    (disjoint : elf.segments.Pairwise ProgramHeader.Apart)
    (mapper : mm.mapper = some table) (frameAllocator : mm.frameAllocator = some allocator)
    (distinct : Paging.Distinct table) (fresh : FreshFrames crates.toFrameCrate table allocator)
    (ran : loadAndMapElf crates data mm = .ok (.ok entry,mm')) :
    ∃ table', mm'.mapper = some table' ∧
      (∀ ph ∈ elf.segments, ∀ i < ph.memSize.toNat,
        Paging.read pageSize table' mm'.frames (ph.virtualAddr.toNat + i) =
          if i < ph.fileSize.toNat then data[ph.offset.toNat + i]? else some 0) ∧
      (∀ ph ∈ elf.segments, ∀ address, ph.Covers address → (table' (pageOf address)).isSome) ∧
      Paging.Extends table table' ∧
      ∀ address, (table (pageOf address)).isSome → (∀ ph ∈ elf.segments, ¬ph.Covers address) →
        Paging.read pageSize table' mm'.frames address = Paging.read pageSize table mm.frames address := by
  obtain ⟨elf',first,last,parsed',rfl,rfl,_,loading⟩ := loadAndMapElf_ok ran
  rw [parsed] at parsed'
  cases parsed'
  cases mapper
  cases frameAllocator
  have image := (AddressSpace.loadSegments_loads laws loading).image laws user disjoint ⟨distinct,fresh⟩
  exact ⟨last.table,rfl,image.described,image.mapped,image.kept,image.untouched⟩

/-- The second segment starts in the middle of the page where the first one ends. -/
def twoSegments : Bytes := elfImage 4194304
  [loadHeader 7 176 4194304 2 3,loadHeader 6 178 4194307 1 5000] [144,195,7]

def twoHeaders : List ProgramHeader := [⟨true,true,true,176,4194304,2,3⟩,⟨true,false,true,178,4194307,1,5000⟩]

theorem parse_twoSegments : plainCrates.parse twoSegments = some ⟨true,true,4194304,twoHeaders⟩ := by decide +kernel

theorem userSpace_mapped {page : Nat} {mapping : Paging.Mapping PageTableFlags}
    (found : userSpace.table page = some mapping) : page = 1280 ∧ mapping.frame = 2097152 := by
  rw [userSpace] at found
  dsimp only at found
  split at found <;> cases found
  next here => exact ⟨here,rfl⟩

theorem userSpace_private : userSpace.Private plainFrames where
  distinct := by
    intro page other mapping mapping' left right _
    rw [(userSpace_mapped left).1,(userSpace_mapped right).1]
  fresh := by
    have sorted : SortedRegions [⟨4096,16384,.usable,by decide⟩] := ⟨by simp [pageSize],List.pairwise_singleton _ _⟩
    apply freshFrames_ready plainFrames_laws sorted ⟨rfl,Nat.dvd_zero _⟩
    intro page mapping found
    rw [(userSpace_mapped found).2]
    decide

theorem twoSegments_loaded :
    ∃ mm', loadAndMapElf plainCrates twoSegments userSpace.manager = .ok (.ok 4194304,mm') := by
  have answered : (loadAndMapElf plainCrates twoSegments userSpace.manager).map Prod.fst = .ok (.ok 4194304) := by
    decide +kernel
  obtain ⟨⟨answer,mm'⟩,ran,rfl⟩ := map_eq_ok.mp answered
  exact ⟨mm',ran⟩

theorem loaded_image_as_described_two : ∃ mm' table',
    loadAndMapElf plainCrates twoSegments userSpace.manager = .ok (.ok 4194304,mm') ∧ mm'.mapper = some table' ∧
    ∀ i < 5000, Paging.read pageSize table' mm'.frames (4194307 + i) =
      if i < 1 then twoSegments[178 + i]? else some 0 := by
  obtain ⟨mm',ran⟩ := twoSegments_loaded
  have user : ∀ ph ∈ twoHeaders, ph.UserSegment twoSegments := by
    have length : twoSegments.length = 179 := by decide +kernel
    intro ph member
    rcases List.mem_pair.mp member with rfl | rfl
    · exact ⟨by decide,by decide,by rw [length]; decide,by decide⟩
    · exact ⟨by decide,by decide,by rw [length]; decide,by decide⟩
  have disjoint : twoHeaders.Pairwise ProgramHeader.Apart := by
    refine List.pairwise_pair.mpr ?_
    intro address left right
    exact absurd (Nat.lt_of_lt_of_le left.2 right.1) (Nat.lt_irrefl _)
  obtain ⟨table',found,described,_⟩ := loaded_image_as_described plainCrates_laws parse_twoSegments user disjoint
    rfl rfl userSpace_private.distinct userSpace_private.fresh ran
  exact ⟨mm',table',ran,found,described _ (List.mem_cons_of_mem _ List.mem_cons_self)⟩

end PolarOs.Elf
