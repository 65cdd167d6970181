import PolarOs.Text
import PolarOs.Library.Reader
import PolarOs.Library.Paging
import PolarOs.Library.LittleEndian
import PolarOs.Kernel.FrameAllocator

/-! The ELF loader (`kernel/elf.rs`). The crates it calls are parameters: `xmas-elf` reads the
headers, `x86_64` checks addresses and edits the page table. A store never faults here; the
loader's state records each one with the mapping that it meets. -/
namespace PolarOs.Elf
open Library Library.Checked

/-- The fields the loader reads; `isLoad` is `get_type() == Ok(Type::Load)`. -/
structure ProgramHeader where
  isLoad : Bool
  isExecute : Bool
  isWrite : Bool
  offset : UInt64
  virtualAddr : UInt64
  fileSize : UInt64
  memSize : UInt64
deriving DecidableEq

structure ElfFile where
  isSixtyFour : Bool
  isX8664 : Bool
  entryPoint : UInt64
  programHeaders : List ProgramHeader
deriving DecidableEq

/-- `PRESENT` is set in every entry. -/
structure PageTableFlags where
  writable : Bool
  noExecute : Bool
deriving DecidableEq

/-- The mapped pages, by page number. -/
abbrev PageTable := Paging.Table PageTableFlags

/-- `ElfFile::new`, `VirtAddr::new`, `Page::range_inclusive`, and whether `map_to` succeeds, with
what it leaves of the frames. A successful `map_to` installs the mapping it is given. -/
structure Crates extends FrameCrate where
  parse : Bytes → Option ElfFile
  virtAddr : Nat → Checked Nat
  pageRange : Nat → Nat → List Nat
  mapTo : Nat → Paging.Mapping PageTableFlags → PageTable → BootInfoFrameAllocator → Bool × BootInfoFrameAllocator

def Canonical (addr : Nat) : Prop := addr < 2^47 ∨ 2^64 - 2^47 ≤ addr ∧ addr < 2^64

instance (addr : Nat) : Decidable (Canonical addr) := inferInstanceAs (Decidable (_ ∨ _))

/-- Bit 47 goes into the bits above it, if these are all clear. -/
def extended (addr : Nat) : Nat := if 2^47 ≤ addr ∧ addr < 2^48 then addr + (2^64 - 2^48) else addr

/-- Pages have canonical addresses. -/
def pagesBetween (first last : Nat) : List Nat :=
  (List.range' first (last + 1 - first)).filter fun page => decide (Canonical (page * pageSize))

/-- `VirtAddr::new` extends the sign of an address and panics where that is not canonical. -/
structure Crates.Laws (crates : Crates) : Prop extends crates.toFrameCrate.Laws where
  canonical : ∀ addr, Canonical (extended addr) → crates.virtAddr addr = .ok (extended addr)
  noncanonical : ∀ addr, ¬Canonical (extended addr) → crates.virtAddr addr = .error .panic
  between : ∀ first last, crates.pageRange first last = pagesBetween first last
  allocates : ∀ page mapping table allocator, ∃ count frames,
    BootInfoFrameAllocator.allocateFrames crates.toFrameCrate count allocator =
      .ok (frames,(crates.mapTo page mapping table allocator).2)

/-- A byte that the loader stores, with the mapping of its page at that moment. -/
structure ByteStore where
  address : Nat
  byte : UInt8
  mapping : Option (Paging.Mapping PageTableFlags)

/-- What the loader works on once both parts of the memory manager are there. -/
structure AddressSpace where
  table : PageTable
  allocator : BootInfoFrameAllocator
  frames : Paging.Frames
  stores : List ByteStore

structure MemoryManager where
  mapper : Option PageTable
  frameAllocator : Option BootInfoFrameAllocator
  frames : Paging.Frames
  stores : List ByteStore

def pageOf (address : Nat) : Nat := address / pageSize

/-- The stores of consecutive bytes. -/
def logged (table : PageTable) : Nat → Bytes → List ByteStore
  | _,[] => []
  | address,byte::bytes => ⟨address,byte,table (pageOf address)⟩ :: logged table (address + 1) bytes

namespace ProgramHeader

def flags (ph : ProgramHeader) : PageTableFlags := ⟨ph.isWrite,!ph.isExecute⟩

end ProgramHeader

namespace AddressSpace

def manager (space : AddressSpace) : MemoryManager :=
  ⟨some space.table,some space.allocator,space.frames,space.stores⟩

/-- The loop over the pages of a segment. -/
def mapPages (crates : Crates) (flags : PageTableFlags) :
    List Nat → AddressSpace → Checked (Except Str Unit × AddressSpace)
  | [],space => .ok (.ok (),space)
  | page::pages,space =>
    if (space.table page).isSome then mapPages crates flags pages space
    else do
      let (frame,allocator) ← space.allocator.allocateFrame crates.toFrameCrate
      match frame with
      | none => return (.error (lit "Out of memory"),{space with allocator})
      | some frame =>
        match crates.mapTo page ⟨frame,flags⟩ space.table allocator with
        | (false,allocator) => return (.error (lit "Map failed"),{space with allocator})
        | (true,allocator) =>
          mapPages crates flags pages
            {space with table := Function.update space.table page (some ⟨frame,flags⟩), allocator}

def storeBytes (space : AddressSpace) (address : Nat) (bytes : Bytes) : AddressSpace :=
  {space with
    frames := Paging.storeBytes pageSize space.table address bytes space.frames
    stores := space.stores ++ logged space.table address bytes}

def copyData (data : Bytes) (ph : ProgramHeader) (space : AddressSpace) : Checked AddressSpace :=
  if 0 < ph.fileSize.toNat then do
    let dataEnd ← add 64 ph.offset.toNat ph.fileSize.toNat
    let src ← slice data ph.offset.toNat dataEnd
    return space.storeBytes ph.virtualAddr.toNat src
  else .ok space

def zeroBss (ph : ProgramHeader) (space : AddressSpace) : AddressSpace :=
  if ph.fileSize.toNat < ph.memSize.toNat then
    space.storeBytes (ph.virtualAddr.toNat + ph.fileSize.toNat)
      (List.replicate (ph.memSize.toNat - ph.fileSize.toNat) 0)
  else space

def loadSegment (crates : Crates) (data : Bytes) (ph : ProgramHeader) (space : AddressSpace) :
    Checked (Except Str Unit × AddressSpace) := do
  let start ← crates.virtAddr ph.virtualAddr.toNat
  let sum ← add 64 ph.virtualAddr.toNat ph.memSize.toNat
  let last ← sub sum 1
  let stop ← crates.virtAddr last
  let (mapped,space) ← mapPages crates ph.flags (crates.pageRange (pageOf start) (pageOf stop)) space
  match mapped with
  | .error message => return (.error message,space)
  | .ok () => do
    let space ← copyData data ph space
    return (.ok (),space.zeroBss ph)

/-- The loop over the program headers. -/
def loadSegments (crates : Crates) (data : Bytes) :
    List ProgramHeader → AddressSpace → Checked (Except Str Unit × AddressSpace)
  | [],space => .ok (.ok (),space)
  | ph::headers,space =>
    if ph.isLoad then do
      let (loaded,space) ← loadSegment crates data ph space
      match loaded with
      | .error message => return (.error message,space)
      | .ok () => loadSegments crates data headers space
    else loadSegments crates data headers space

end AddressSpace

def loadAndMapElf (crates : Crates) (data : Bytes) (mm : MemoryManager) : Checked (Except Str UInt64 × MemoryManager) :=
  match crates.parse data with
  | none => .ok (.error (lit "Failed to parse ELF"),mm)
  | some elf =>
    if !elf.isSixtyFour then .ok (.error (lit "Not 64-bit ELF"),mm)
    else if !elf.isX8664 then .ok (.error (lit "Not x86_64 ELF"),mm)
    else match mm.mapper with
      | none => .ok (.error (lit "Memory manager not initialized"),mm)
      | some table =>
        match mm.frameAllocator with
        | none => .ok (.error (lit "Frame allocator not initialized"),mm)
        | some allocator => do
          let (loaded,space) ← AddressSpace.loadSegments crates data elf.programHeaders
            ⟨table,allocator,mm.frames,mm.stores⟩
          return (loaded.map fun _ => elf.entryPoint,space.manager)

/-! One law for each step. -/

theorem allocateFrame_total {crate : FrameCrate} (laws : crate.Laws) (allocator : BootInfoFrameAllocator) :
    ∃ result, allocator.allocateFrame crate = .ok result := by
  have scanned : ∀ regions, ∃ result, BootInfoFrameAllocator.scan crate allocator.nextAddr regions = .ok result := by
    intro regions
    induction regions with
    | nil => exact ⟨_,rfl⟩
    | cons region regions ih =>
      rw [BootInfoFrameAllocator.scan]
      split
      next => exact ih
      next =>
        dsimp only
        generalize (if region.startAddr ≤ allocator.nextAddr then allocator.nextAddr else region.startAddr) = addr
        split
        next fits =>
          have small := region.physical
          rw [add,if_pos (by unfold pageSize; omega),ok_bind,laws.physical addr (by omega)]
          exact ⟨_,rfl⟩
        next => exact ih
  obtain ⟨⟨frame,nextAddr⟩,found⟩ := scanned allocator.memoryMap
  rw [BootInfoFrameAllocator.allocateFrame,found]
  exact ⟨_,rfl⟩

namespace AddressSpace

@[simp] theorem storeBytes_table (space : AddressSpace) (address : Nat) (bytes : Bytes) :
    (space.storeBytes address bytes).table = space.table := rfl

theorem storeBytes_nil (space : AddressSpace) (address : Nat) : space.storeBytes address [] = space := by
  rw [storeBytes,logged,List.append_nil,Paging.storeBytes]

/-- What mapping the pages of a segment does when it ends well. -/
structure Mapped (flags : PageTableFlags) (pages : List Nat) (first last : AddressSpace) : Prop where
  extended : Paging.Extends first.table last.table
  present : ∀ page ∈ pages, (last.table page).isSome
  added : ∀ page mapping, first.table page = none → last.table page = some mapping →
    page ∈ pages ∧ mapping.flags = flags

variable {crates : Crates} {flags : PageTableFlags} {pages : List Nat} {first last : AddressSpace}

theorem Mapped.refl (flags : PageTableFlags) (space : AddressSpace) : Mapped flags [] space space where
  extended := .refl _
  present := fun _ member => absurd member List.not_mem_nil
  added := by
    intro page mapping absent present
    rw [absent] at present
    cases present

theorem mapPages_total (laws : crates.toFrameCrate.Laws) (flags : PageTableFlags) (pages : List Nat) (space : AddressSpace) :
    ∃ result, mapPages crates flags pages space = .ok result := by
  induction pages generalizing space with
  | nil => exact ⟨_,rfl⟩
  | cons page pages ih =>
    rw [mapPages]
    split
    next => exact ih space
    next =>
      obtain ⟨⟨frame,allocator⟩,taken⟩ := allocateFrame_total laws space.allocator
      rw [taken,ok_bind]
      cases frame with
      | none => exact ⟨_,rfl⟩
      | some frame =>
        dsimp only
        split
        next => exact ⟨_,rfl⟩
        next => exact ih _

/-- Whatever the outcome, nothing is stored. -/
theorem mapPages_memory {answer : Except Str Unit} (ran : mapPages crates flags pages first = .ok (answer,last)) :
    last.frames = first.frames ∧ last.stores = first.stores := by
  induction pages generalizing first with
  | nil =>
    cases ran
    exact ⟨rfl,rfl⟩
  | cons page pages ih =>
    rw [mapPages] at ran
    split at ran
    next => exact ih ran
    next =>
      obtain ⟨⟨frame,allocator⟩,_,ran⟩ := bind_ok.mp ran
      cases frame with
      | none =>
        cases ran
        exact ⟨rfl,rfl⟩
      | some frame =>
        dsimp only at ran
        split at ran
        next =>
          cases ran
          exact ⟨rfl,rfl⟩
        next =>
          obtain ⟨frames,stores⟩ := ih ran
          exact ⟨frames,stores⟩

theorem Mapped.there {page : Nat} (there : (first.table page).isSome) (rest : Mapped flags pages first last) :
    Mapped flags (page::pages) first last where
  extended := rest.extended
  present := by
    intro other member
    rcases List.mem_cons.mp member with rfl | later
    · exact rest.extended.isSome there
    · exact rest.present other later
  added := by
    intro other mapping absent present
    obtain ⟨later,same⟩ := rest.added other mapping absent present
    exact ⟨List.mem_cons_of_mem _ later,same⟩

theorem Mapped.install {page frame : Nat} {allocator : BootInfoFrameAllocator} (free : first.table page = none)
    (rest : Mapped flags pages
      {first with table := Function.update first.table page (some ⟨frame,flags⟩), allocator} last) :
    Mapped flags (page::pages) first last where
  extended := (Paging.extends_update ⟨frame,flags⟩ free).trans rest.extended
  present := by
    intro other member
    rcases List.mem_cons.mp member with rfl | later
    · apply rest.extended.isSome
      dsimp only
      rw [Function.update_self]
      rfl
    · exact rest.present other later
  added := by
    intro other mapping missing present
    by_cases same : other = page
    · have installed := rest.extended page ⟨frame,flags⟩ (Function.update_self ..)
      rw [same,installed] at present
      cases present
      exact ⟨same ▸ List.mem_cons_self,rfl⟩
    · have absent : Function.update first.table page (some ⟨frame,flags⟩) other = none := by
        rw [Function.update_of_ne same,missing]
      obtain ⟨later,kind⟩ := rest.added other mapping absent present
      exact ⟨List.mem_cons_of_mem _ later,kind⟩

theorem mapPages_mapped (ran : mapPages crates flags pages first = .ok (.ok (),last)) :
    Mapped flags pages first last := by
  induction pages generalizing first with
  | nil =>
    cases ran
    exact .refl flags last
  | cons page pages ih =>
    rw [mapPages] at ran
    split at ran
    next there => exact (ih ran).there there
    next absent =>
      obtain ⟨⟨frame,allocator⟩,_,ran⟩ := bind_ok.mp ran
      cases frame with
      | none => cases ran
      | some frame =>
        dsimp only at ran
        split at ran
        next => cases ran
        next allocator _ => exact (ih ran).install (Option.not_isSome_iff_eq_none.mp absent)

end AddressSpace

theorem Crates.Laws.virtAddr_ok {crates : Crates} (laws : crates.Laws) {addr value : Nat}
    (made : crates.virtAddr addr = .ok value) : value = extended addr := by
  by_cases canonical : Canonical (extended addr)
  · rw [laws.canonical addr canonical] at made
    exact (Except.ok.inj made).symm
  · rw [laws.noncanonical addr canonical] at made
    cases made

theorem extended_canonical {addr : Nat} (canonical : Canonical addr) : extended addr = addr := by
  unfold Canonical at canonical
  exact if_neg (by omega)

theorem logged_append (table : PageTable) (address : Nat) (before after : Bytes) :
    logged table address (before ++ after) =
      logged table address before ++ logged table (address + before.length) after := by
  induction before generalizing address with
  | nil => rfl
  | cons byte before ih =>
    rw [List.cons_append,logged,logged,ih,List.cons_append,List.length_cons,Nat.add_assoc,Nat.add_comm 1]

theorem AddressSpace.storeBytes_append (space : AddressSpace) (address : Nat) (before after : Bytes) :
    (space.storeBytes address before).storeBytes (address + before.length) after =
      space.storeBytes address (before ++ after) := by
  simp only [storeBytes,Paging.storeBytes_append,logged_append,List.append_assoc]

namespace ProgramHeader

/-- The slice of the image that the loader takes lies inside it. -/
def FileInside (data : Bytes) (ph : ProgramHeader) : Prop :=
  0 < ph.fileSize.toNat →
    ph.offset.toNat + ph.fileSize.toNat < 2^64 ∧ ph.offset.toNat + ph.fileSize.toNat ≤ data.length

/-- The pages of a segment, from that of its first address to that of its last one. -/
def pages (ph : ProgramHeader) : List Nat :=
  pagesBetween (pageOf (extended ph.virtualAddr.toNat)) (pageOf (extended (ph.virtualAddr.toNat + ph.memSize.toNat - 1)))

/-- The pages that the crates make of the addresses that the loader computes. -/
structure Resolved (crates : Crates) (ph : ProgramHeader) (pages : List Nat) : Prop where
  positive : 0 < ph.virtualAddr.toNat + ph.memSize.toNat
  fits : ph.virtualAddr.toNat + ph.memSize.toNat < 2^64
  made : ∃ start stop, crates.virtAddr ph.virtualAddr.toNat = .ok start ∧
    crates.virtAddr (ph.virtualAddr.toNat + ph.memSize.toNat - 1) = .ok stop ∧
    pages = crates.pageRange (pageOf start) (pageOf stop)

/-- All the bytes that the loader stores for a segment, from its first address on. -/
def contents (data : Bytes) (ph : ProgramHeader) : Bytes :=
  (data.drop ph.offset.toNat).take ph.fileSize.toNat ++ List.replicate (ph.memSize.toNat - ph.fileSize.toNat) 0

variable {crates : Crates} {data : Bytes} {ph : ProgramHeader} {first last : AddressSpace}

theorem length_contents (inside : FileInside data ph) :
    (contents data ph).length = max ph.fileSize.toNat ph.memSize.toNat := by
  rw [contents,List.length_append,List.length_replicate,List.length_take,List.length_drop]
  rcases Nat.eq_zero_or_pos ph.fileSize.toNat with none | some
  · omega
  · have bound := (inside some).2
    omega

end ProgramHeader

namespace AddressSpace

variable {crates : Crates} {data : Bytes} {ph : ProgramHeader} {first last : AddressSpace}

theorem zeroBss_eq (ph : ProgramHeader) (space : AddressSpace) :
    space.zeroBss ph = space.storeBytes (ph.virtualAddr.toNat + ph.fileSize.toNat)
      (List.replicate (ph.memSize.toNat - ph.fileSize.toNat) 0) := by
  rw [zeroBss]
  split
  next => rfl
  next whole => rw [Nat.sub_eq_zero_of_le (Nat.not_lt.mp whole),List.replicate_zero,storeBytes_nil]

theorem copyData_ok {result : AddressSpace} :
    copyData data ph first = .ok result ↔ ph.FileInside data ∧
      result = first.storeBytes ph.virtualAddr.toNat ((data.drop ph.offset.toNat).take ph.fileSize.toNat) := by
  rw [copyData]
  split
  next some =>
    constructor
    · intro copied
      obtain ⟨dataEnd,summed,copied⟩ := bind_ok.mp copied
      obtain ⟨src,taken,copied⟩ := bind_ok.mp copied
      obtain ⟨small,rfl⟩ := add_eq_ok.mp summed
      obtain ⟨bounds,rfl⟩ := slice_eq_ok.mp taken
      cases copied
      rw [List.drop_take,Nat.add_sub_cancel_left]
      exact ⟨fun _ => ⟨small,bounds.2⟩,rfl⟩
    · intro copied
      obtain ⟨inside,same⟩ := copied
      obtain ⟨small,bound⟩ := inside some
      rw [add,if_pos small,ok_bind,slice_ok (Nat.le_add_right ..) bound,ok_bind,same,List.drop_take,
        Nat.add_sub_cancel_left]
      rfl
  next none =>
    have empty : ph.fileSize.toNat = 0 := Nat.eq_zero_of_not_pos none
    rw [empty,List.take_zero,storeBytes_nil,Except.ok.injEq]
    exact ⟨fun same => ⟨fun some => absurd some none,same.symm⟩,fun copied => copied.2.symm⟩

/-- The data and the zeros are one run of bytes. -/
theorem zeroBss_contents (inside : ph.FileInside data) (space : AddressSpace) :
    (space.storeBytes ph.virtualAddr.toNat ((data.drop ph.offset.toNat).take ph.fileSize.toNat)).zeroBss ph =
      space.storeBytes ph.virtualAddr.toNat (ph.contents data) := by
  have length : ((data.drop ph.offset.toNat).take ph.fileSize.toNat).length = ph.fileSize.toNat := by
    rw [List.length_take,List.length_drop]
    rcases Nat.eq_zero_or_pos ph.fileSize.toNat with none | some
    · omega
    · have bound := (inside some).2
      omega
  rw [zeroBss_eq,ProgramHeader.contents,← storeBytes_append,length]

/-- What loading a segment does when it ends well; `middle` is where its pages are mapped. -/
structure Loaded (crates : Crates) (data : Bytes) (ph : ProgramHeader) (first middle last : AddressSpace) : Prop where
  inside : ph.FileInside data
  mapped : mapPages crates ph.flags ph.pages first = .ok (.ok (),middle)
  copied : last = middle.storeBytes ph.virtualAddr.toNat (ph.contents data)

theorem loadSegment_resolved {pages : List Nat} (resolved : ph.Resolved crates pages) (space : AddressSpace) :
    loadSegment crates data ph space = do
      let (mapped,space) ← mapPages crates ph.flags pages space
      match mapped with
      | .error message => return (.error message,space)
      | .ok () => do
        let space ← copyData data ph space
        return (.ok (),space.zeroBss ph) := by
  obtain ⟨positive,fits,start,stop,started,stopped,rfl⟩ := resolved
  rw [loadSegment,started,ok_bind,add,if_pos fits,ok_bind,sub,if_pos (Nat.one_le_of_lt positive),ok_bind,stopped,ok_bind]

theorem resolved_of_ok {space : AddressSpace} {result : Except Str Unit × AddressSpace}
    (ran : loadSegment crates data ph space = .ok result) : ∃ pages, ph.Resolved crates pages := by
  obtain ⟨start,started,ran⟩ := bind_ok.mp ran
  obtain ⟨sum,summed,ran⟩ := bind_ok.mp ran
  obtain ⟨last,below,ran⟩ := bind_ok.mp ran
  obtain ⟨stop,stopped,_⟩ := bind_ok.mp ran
  obtain ⟨fits,rfl⟩ := add_eq_ok.mp summed
  obtain ⟨positive,rfl⟩ := sub_eq_ok.mp below
  exact ⟨_,positive,fits,start,stop,started,stopped,rfl⟩

/-- A segment that is loaded is loaded on its pages. -/
theorem loadSegment_pages (laws : crates.Laws) {space : AddressSpace} {result : Except Str Unit × AddressSpace}
    (ran : loadSegment crates data ph space = .ok result) :
    (do
      let (mapped,space) ← mapPages crates ph.flags ph.pages space
      match mapped with
      | .error message => return (.error message,space)
      | .ok () => do
        let space ← copyData data ph space
        return (.ok (),space.zeroBss ph) : Checked _) = .ok result := by
  obtain ⟨pages,resolved⟩ := resolved_of_ok ran
  rw [loadSegment_resolved resolved] at ran
  obtain ⟨_,_,start,stop,started,stopped,same⟩ := resolved
  rw [laws.between,laws.virtAddr_ok started,laws.virtAddr_ok stopped] at same
  rw [same] at ran
  exact ran

theorem loadSegment_loaded (laws : crates.Laws) (ran : loadSegment crates data ph first = .ok (.ok (),last)) :
    ∃ middle, Loaded crates data ph first middle last := by
  obtain ⟨⟨mapped,middle⟩,there,ran⟩ := bind_ok.mp (loadSegment_pages laws ran)
  cases mapped with
  | error message => cases ran
  | ok _ =>
    obtain ⟨space,copied,ran⟩ := bind_ok.mp ran
    obtain ⟨inside,same⟩ := copyData_ok.mp copied
    cases ran
    rw [same,zeroBss_contents inside]
    exact ⟨middle,inside,there,rfl⟩

/-- A run over the program headers that ends well. -/
inductive Loads (crates : Crates) (data : Bytes) : List ProgramHeader → AddressSpace → AddressSpace → Prop where
  | done (space : AddressSpace) : Loads crates data [] space space
  | load {ph : ProgramHeader} {headers : List ProgramHeader} {first middle next last : AddressSpace}
      (isLoad : ph.isLoad = true) (loaded : Loaded crates data ph first middle next)
      (rest : Loads crates data headers next last) : Loads crates data (ph::headers) first last
  | skip {ph : ProgramHeader} {headers : List ProgramHeader} {first last : AddressSpace}
      (skipped : ¬ph.isLoad = true) (rest : Loads crates data headers first last) :
      Loads crates data (ph::headers) first last

theorem loadSegments_loads (laws : crates.Laws) {headers : List ProgramHeader}
    (ran : loadSegments crates data headers first = .ok (.ok (),last)) : Loads crates data headers first last := by
  induction headers generalizing first with
  | nil =>
    cases ran
    exact .done last
  | cons ph headers ih =>
    rw [loadSegments] at ran
    split at ran
    next isLoad =>
      obtain ⟨⟨answer,next⟩,step,ran⟩ := bind_ok.mp ran
      cases answer with
      | error message => cases ran
      | ok _ =>
        obtain ⟨middle,loaded⟩ := loadSegment_loaded laws step
        exact .load isLoad loaded (ih ran)
    next skipped => exact .skip skipped (ih ran)

theorem loadSegment_total (laws : crates.toFrameCrate.Laws) {pages : List Nat} (resolved : ph.Resolved crates pages)
    (inside : ph.FileInside data) (space : AddressSpace) : ∃ result, loadSegment crates data ph space = .ok result := by
  obtain ⟨⟨mapped,middle⟩,there⟩ := mapPages_total laws ph.flags pages space
  rw [loadSegment_resolved resolved,there,ok_bind]
  cases mapped with
  | error message => exact ⟨_,rfl⟩
  | ok _ =>
    dsimp only
    rw [copyData_ok.mpr ⟨inside,rfl⟩]
    exact ⟨_,rfl⟩

end AddressSpace

theorem loadAndMapElf_manager {crates : Crates} {data : Bytes} {elf : ElfFile} (parsed : crates.parse data = some elf)
    (wide : elf.isSixtyFour = true) (machine : elf.isX8664 = true) (space : AddressSpace) :
    loadAndMapElf crates data space.manager = do
      let (loaded,space) ← AddressSpace.loadSegments crates data elf.programHeaders space
      return (loaded.map fun _ => elf.entryPoint,space.manager) := by
  rw [loadAndMapElf,parsed]
  simp only [wide,machine,Bool.not_true,Bool.false_eq_true,if_false]
  rfl

theorem loadAndMapElf_ok {crates : Crates} {data : Bytes} {mm mm' : MemoryManager} {entry : UInt64}
    (ran : loadAndMapElf crates data mm = .ok (.ok entry,mm')) :
    ∃ elf space last, crates.parse data = some elf ∧ mm = space.manager ∧ mm' = last.manager ∧ entry = elf.entryPoint ∧
      AddressSpace.loadSegments crates data elf.programHeaders space = .ok (.ok (),last) := by
  obtain ⟨mapper,frameAllocator,frames,stores⟩ := mm
  rw [loadAndMapElf] at ran
  split at ran
  next => cases ran
  next elf parsed =>
    split at ran
    next => cases ran
    next =>
      split at ran
      next => cases ran
      next =>
        rcases mapper with _ | table
        · cases ran
        · rcases frameAllocator with _ | allocator
          · cases ran
          · obtain ⟨⟨loaded,last⟩,loading,ran⟩ := bind_ok.mp ran
            cases loaded with
            | error message => cases ran
            | ok _ =>
              cases ran
              exact ⟨elf,⟨table,allocator,frames,stores⟩,last,parsed,rfl,rfl,rfl,loading⟩

/-! An instance of the crates: the ELF64 layout, and a page table that needs no frames of its own. -/

def field (data : Bytes) (start size : Nat) : Nat := LittleEndian.decode ((data.drop start).take size)

def readHeader (data : Bytes) (start : Nat) : ProgramHeader where
  isLoad := field data start 4 == 1
  isExecute := (field data (start + 4) 4).testBit 0
  isWrite := (field data (start + 4) 4).testBit 1
  offset := UInt64.ofNat (field data (start + 8) 8)
  virtualAddr := UInt64.ofNat (field data (start + 16) 8)
  fileSize := UInt64.ofNat (field data (start + 32) 8)
  memSize := UInt64.ofNat (field data (start + 40) 8)

def readElf (data : Bytes) : Option ElfFile :=
  if data.take 4 = [127,69,76,70] ∧ 64 ≤ data.length then
    some {
      isSixtyFour := field data 4 1 == 2
      isX8664 := field data 18 2 == 62
      entryPoint := UInt64.ofNat (field data 24 8)
      programHeaders := (List.range (field data 56 2)).map fun i =>
        readHeader data (field data 32 8 + i * field data 54 2) }
  else none

def plainCrates : Crates where
  toFrameCrate := plainFrames
  parse := readElf
  virtAddr := fun addr => if Canonical (extended addr) then .ok (extended addr) else .error .panic
  pageRange := pagesBetween
  mapTo := fun _ _ _ allocator => (true,allocator)

theorem plainCrates_laws : plainCrates.Laws where
  toLaws := plainFrames_laws
  canonical := fun _ canonical => if_pos canonical
  noncanonical := fun _ outside => if_neg outside
  between := fun _ _ => rfl
  allocates := fun _ _ _ _ => ⟨0,[],rfl⟩

/-- The bytes of a program header of type `PT_LOAD`. -/
def loadHeader (flags offset virtualAddr fileSize memSize : Nat) : Bytes :=
  LittleEndian.encode 4 1 ++ LittleEndian.encode 4 flags ++
    ([offset,virtualAddr,virtualAddr,fileSize,memSize,pageSize].flatMap (LittleEndian.encode 8))

/-- An executable for `x86_64`: the file header, the program headers and what follows them. -/
def elfImage (entry : Nat) (headers : List Bytes) (rest : Bytes) : Bytes :=
  [127,69,76,70,2,1,1,0] ++ List.replicate 8 0 ++ LittleEndian.encode 2 2 ++ LittleEndian.encode 2 62 ++
    LittleEndian.encode 4 1 ++ [entry,64,0].flatMap (LittleEndian.encode 8) ++ LittleEndian.encode 4 0 ++
    [64,56,headers.length,64,0,0].flatMap (LittleEndian.encode 2) ++ headers.flatten ++ rest

/-- One page of a user program is mapped and some frames are left. -/
def userSpace : AddressSpace where
  table := fun page => if page = 1280 then some ⟨2097152,⟨true,false⟩⟩ else none
  allocator := .init [⟨4096,16384,.usable,by decide⟩]
  frames := fun _ _ => 0
  stores := []

end PolarOs.Elf
