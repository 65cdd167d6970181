import PolarOs.Kernel.ElfImage
import PolarOs.Kernel.ElfStores
import PolarOs.Library.Transition

/-! The memory of the system from `kernel_main` on: `init_heap` maps the heap with the first frames, and
`exec` maps images with the frames that are left, for as long as the system runs. The page table and the
allocator are values here, so images and tasks are taken to keep off the pages where they lie. -/
namespace PolarOs.Elf
open Library Library.Checked BootInfoFrameAllocator

def heapStart : Nat := 0x444444440000

def heapSize : Nat := 512 * 1024

def heapFlags : PageTableFlags := ⟨true,false⟩

inductive MapToError where
  | frameAllocationFailed
  | refused

/-- The loop of `init_heap` over the pages. -/
def mapHeap (crates : Crates) : List Nat → AddressSpace → Checked (Except MapToError Unit × AddressSpace)
  | [],space => .ok (.ok (),space)
  | page::pages,space => do
    let (frame,allocator) ← space.allocator.allocateFrame crates.toFrameCrate
    match frame with
    | none => return (.error .frameAllocationFailed,{space with allocator})
    | some frame =>
      match crates.mapTo page ⟨frame,heapFlags⟩ space.table allocator with
      | (false,allocator) => return (.error .refused,{space with allocator})
      | (true,allocator) =>
        mapHeap crates pages {space with table := Function.update space.table page (some ⟨frame,heapFlags⟩), allocator}

def initHeap (crates : Crates) (space : AddressSpace) : Checked (Except MapToError Unit × AddressSpace) := do
  let start ← crates.virtAddr heapStart
  let stop ← crates.virtAddr (start + heapSize)
  let stop ← crates.virtAddr (stop - 1)
  mapHeap crates (crates.pageRange (pageOf start) (pageOf stop)) space

/-- What `kernel_main` does to the memory, from the page table that the bootloader leaves. -/
def kernelMain (crates : Crates) (table : PageTable) (memoryMap : List MemoryRegion) (frames : Paging.Frames) :
    Checked MemoryManager := do
  let (mapped,space) ← initHeap crates ⟨table,.init memoryMap,frames,[]⟩
  match mapped with
  | .error _ => .error .panic
  | .ok () => return space.manager

/-- No byte of the segment is stored to a page that is mapped in the table. -/
def ProgramHeader.KeepsOff (table : PageTable) (ph : ProgramHeader) : Prop :=
  ∀ i < max ph.fileSize.toNat ph.memSize.toNat, table (pageOf (ph.virtualAddr.toNat + i)) = none

inductive MemoryAction where
  | exec (data : Bytes)
  /-- Whatever the tasks write. -/
  | written (frames : Paging.Frames)

/-- `exec` goes on with whatever the loader answers. The segments keep off the pages of the kernel. -/
inductive MemoryStep (crates : Crates) (kernel : PageTable) : MemoryManager → MemoryAction → MemoryManager → Prop
  | exec {data : Bytes} {mm next : MemoryManager} {answer : Except Str UInt64}
      (off : ∀ elf, crates.parse data = some elf → ∀ ph ∈ elf.segments, ph.KeepsOff kernel)
      (ran : loadAndMapElf crates data mm = .ok (answer,next)) : MemoryStep crates kernel mm (.exec data) next
  | written (mm : MemoryManager) (frames : Paging.Frames) : MemoryStep crates kernel mm (.written frames) {mm with frames}

/-- `map_to` refuses a page that is mapped already. -/
def Crates.Refuses (crates : Crates) : Prop :=
  ∀ page mapping table allocator, (table page).isSome → (crates.mapTo page mapping table allocator).1 = false

variable {crates : Crates} {memoryMap : List MemoryRegion} {base : PageTable} {data : Bytes}

/-! Who owns the frames. -/

theorem allocateFrames_ready {crate : FrameCrate} (laws : crate.Laws) (sorted : SortedRegions memoryMap) {count : Nat}
    {frames : List (Option Nat)} {allocator next : BootInfoFrameAllocator} (ready : Ready memoryMap allocator)
    (ran : allocateFrames crate count allocator = .ok (frames,next)) :
    Ready memoryMap next ∧ ∀ frame ∈ next.remaining, frame ∈ allocator.remaining := by
  induction count generalizing allocator frames with
  | zero =>
    cases ran
    exact ⟨ready,fun _ member => member⟩
  | succ count ih =>
    obtain ⟨middle,first,kept,tail⟩ := allocateFrame_spec laws sorted ready
    rw [allocateFrames,first,ok_bind] at ran
    obtain ⟨⟨late,last⟩,rest,done⟩ := bind_ok.mp ran
    cases done
    obtain ⟨reached,fewer⟩ := ih kept rest
    refine ⟨reached,fun frame member => ?_⟩
    have left := fewer frame member
    rw [tail] at left
    exact List.mem_of_mem_tail left

namespace AddressSpace

/-- The pages that have been mapped since `base` each have a usable frame of their own, and only to them
has anything been stored. -/
structure Owned (base : PageTable) (memoryMap : List MemoryRegion) (space : AddressSpace) : Prop where
  ready : Ready memoryMap space.allocator
  extended : Paging.Extends base space.table
  usable : ∀ page mapping, base page = none → space.table page = some mapping →
    mapping.frame ∈ usableFrames memoryMap ∧ mapping.frame ∉ space.allocator.remaining
  distinct : ∀ page other mapping mapping', base page = none → base other = none → space.table page = some mapping →
    space.table other = some mapping' → mapping.frame = mapping'.frame → page = other
  stored : ∀ store ∈ space.stores, base (pageOf store.address) = none ∧
    ∀ mapping, store.mapping = some mapping → space.table (pageOf store.address) = some mapping

variable {space next : AddressSpace} {flags : PageTableFlags} {pages : List Nat}

theorem Owned.start (base : PageTable) (memoryMap : List MemoryRegion) (frames : Paging.Frames) :
    Owned base memoryMap ⟨base,.init memoryMap,frames,[]⟩ where
  ready := ⟨rfl,Nat.dvd_zero _⟩
  extended := .refl base
  usable := by
    intro page mapping absent present
    cases absent.symm.trans present
  distinct := by
    intro page _ mapping _ absent _ present
    cases absent.symm.trans present
  stored := fun _ none => absurd none List.not_mem_nil

/-- The allocator goes on without the table. -/
theorem Owned.spent (owned : Owned base memoryMap space) {allocator : BootInfoFrameAllocator}
    (ready : Ready memoryMap allocator) (fewer : ∀ frame ∈ allocator.remaining, frame ∈ space.allocator.remaining) :
    Owned base memoryMap {space with allocator} where
  ready
  extended := owned.extended
  usable := by
    intro page mapping absent present
    obtain ⟨usable,taken⟩ := owned.usable page mapping absent present
    exact ⟨usable,fun member => taken (fewer _ member)⟩
  distinct := owned.distinct
  stored := owned.stored

/-- A frame is taken, then `map_to` takes some for itself. -/
structure Taken (memoryMap : List MemoryRegion) (before : BootInfoFrameAllocator) (frame : Nat)
    (after : BootInfoFrameAllocator) : Prop where
  ready : Ready memoryMap after
  fewer : ∀ other ∈ after.remaining, other ∈ before.remaining
  usable : frame ∈ usableFrames memoryMap
  fresh : frame ∈ before.remaining
  gone : frame ∉ after.remaining

theorem Owned.taken (sorted : SortedRegions memoryMap) (laws : crates.Laws) (owned : Owned base memoryMap space)
    {frame : Nat} {allocator : BootInfoFrameAllocator}
    (ran : space.allocator.allocateFrame crates.toFrameCrate = .ok (some frame,allocator)) (page : Nat) (flags : PageTableFlags) :
    Taken memoryMap space.allocator frame (crates.mapTo page ⟨frame,flags⟩ space.table allocator).2 := by
  obtain ⟨middle,first,kept,tail⟩ := allocateFrame_spec laws.toLaws sorted owned.ready
  rw [first] at ran
  obtain ⟨head,rfl⟩ := Prod.mk.inj (Except.ok.inj ran)
  obtain ⟨count,frames,more⟩ := laws.allocates page ⟨frame,flags⟩ space.table middle
  obtain ⟨ready,fewer⟩ := allocateFrames_ready laws.toLaws sorted kept more
  have fresh : frame ∈ space.allocator.remaining := List.mem_of_mem_head? head
  have ascending : space.allocator.remaining.Pairwise (· < ·) := by
    rw [remaining,owned.ready.map]
    exact sorted.frames.filter _
  have split : space.allocator.remaining = frame::space.allocator.remaining.tail := (List.cons_head?_tail head).symm
  have usable : frame ∈ usableFrames memoryMap := by
    rw [remaining,owned.ready.map] at fresh
    exact (List.mem_filter.mp fresh).1
  refine ⟨ready,fun other member => ?_,usable,fresh,fun member => ?_⟩
  · exact List.mem_of_mem_tail (tail ▸ fewer other member)
  · have later := fewer frame member
    rw [tail] at later
    rw [split] at ascending
    exact Nat.lt_irrefl _ ((List.pairwise_cons.mp ascending).1 frame later)

theorem Owned.installed (owned : Owned base memoryMap space) {frame page : Nat} {allocator : BootInfoFrameAllocator}
    (absent : space.table page = none) (taken : Taken memoryMap space.allocator frame allocator) :
    Owned base memoryMap {space with table := Function.update space.table page (some ⟨frame,flags⟩), allocator} := by
  have unused : ∀ other mapping, base other = none → space.table other = some mapping → mapping.frame ≠ frame := by
    rintro other mapping missing found rfl
    exact (owned.usable other mapping missing found).2 taken.fresh
  refine ⟨taken.ready,owned.extended.trans (Paging.extends_update _ absent),?_,?_,?_⟩
  · intro other mapping missing found
    dsimp only at found ⊢
    by_cases here : other = page
    · rw [here,Function.update_self] at found
      cases found
      exact ⟨taken.usable,taken.gone⟩
    · rw [Function.update_of_ne here] at found
      obtain ⟨usable,out⟩ := owned.usable other mapping missing found
      exact ⟨usable,fun member => out (taken.fewer _ member)⟩
  · intro first second left right firstMissing secondMissing firstFound secondFound same
    dsimp only at firstFound secondFound
    by_cases here : first = page
    · by_cases there : second = page
      · rw [here,there]
      · rw [here,Function.update_self] at firstFound
        rw [Function.update_of_ne there] at secondFound
        cases firstFound
        exact absurd same.symm (unused second right secondMissing secondFound)
    · rw [Function.update_of_ne here] at firstFound
      by_cases there : second = page
      · rw [there,Function.update_self] at secondFound
        cases secondFound
        exact absurd same (unused first left firstMissing firstFound)
      · rw [Function.update_of_ne there] at secondFound
        exact owned.distinct first second left right firstMissing secondMissing firstFound secondFound same
  · intro store member
    obtain ⟨off,kept⟩ := owned.stored store member
    exact ⟨off,fun mapping met => Paging.extends_update _ absent _ _ (kept mapping met)⟩

/-- A segment off the old pages is stored. -/
theorem Owned.storeBytes (owned : Owned base memoryMap space) {ph : ProgramHeader} (off : ph.KeepsOff base)
    (inside : ph.FileInside data) : Owned base memoryMap (space.storeBytes ph.virtualAddr.toNat (ph.contents data)) where
  ready := owned.ready
  extended := owned.extended
  usable := owned.usable
  distinct := owned.distinct
  stored := by
    intro store member
    rcases List.mem_append.mp member with before | now
    · exact owned.stored store before
    · obtain ⟨i,byte,found,rfl⟩ := mem_logged.mp now
      obtain ⟨bound,_⟩ := List.getElem?_eq_some_iff.mp found
      rw [ph.length_contents inside] at bound
      exact ⟨off i bound,fun mapping met => met⟩

theorem Owned.mapPages (sorted : SortedRegions memoryMap) (laws : crates.Laws) (owned : Owned base memoryMap space)
    {answer : Except Str Unit} (ran : mapPages crates flags pages space = .ok (answer,next)) :
    Owned base memoryMap next := by
  induction pages generalizing space with
  | nil =>
    cases ran
    exact owned
  | cons page pages ih =>
    rw [AddressSpace.mapPages] at ran
    split at ran
    next => exact ih owned ran
    next absent =>
      obtain ⟨⟨frame,allocator⟩,taken,ran⟩ := bind_ok.mp ran
      cases frame with
      | none =>
        obtain ⟨reached,first,ready,tail⟩ := allocateFrame_spec laws.toLaws sorted owned.ready
        obtain ⟨_,rfl⟩ := Prod.mk.inj (Except.ok.inj (first.symm.trans taken))
        cases ran
        exact owned.spent ready fun frame member => List.mem_of_mem_tail (tail ▸ member)
      | some frame =>
        have spent := owned.taken sorted laws taken page flags
        dsimp only at ran
        split at ran
        next left refused =>
          rw [refused] at spent
          cases ran
          exact owned.spent spent.ready spent.fewer
        next left installed =>
          rw [installed] at spent
          exact ih (owned.installed (Option.not_isSome_iff_eq_none.mp absent) spent) ran

theorem Owned.loadSegments (sorted : SortedRegions memoryMap) (laws : crates.Laws) {headers : List ProgramHeader}
    (off : ∀ ph ∈ headers, ph.isLoad = true → ph.KeepsOff base) (owned : Owned base memoryMap space)
    {answer : Except Str Unit} (ran : loadSegments crates data headers space = .ok (answer,next)) :
    Owned base memoryMap next := by
  induction headers generalizing space with
  | nil =>
    cases ran
    exact owned
  | cons ph headers ih =>
    have rest := fun other member => off other (List.mem_cons_of_mem _ member)
    rw [AddressSpace.loadSegments] at ran
    split at ran
    next isLoad =>
      obtain ⟨⟨outcome,middle⟩,loading,ran⟩ := bind_ok.mp ran
      have kept : Owned base memoryMap middle := by
        obtain ⟨⟨mapped,reached⟩,mapping,loading⟩ := bind_ok.mp (loadSegment_pages laws loading)
        have own := owned.mapPages sorted laws mapping
        cases mapped with
        | error message =>
          cases loading
          exact own
        | ok _ =>
          obtain ⟨copied,copying,done⟩ := bind_ok.mp loading
          obtain ⟨inside,same⟩ := copyData_ok.mp copying
          cases done
          rw [same,zeroBss_contents inside]
          exact own.storeBytes (off ph List.mem_cons_self isLoad) inside
      cases outcome with
      | error message =>
        cases ran
        exact kept
      | ok _ => exact ih rest kept ran
    next => exact ih rest owned ran

/-- The heap gets the pages it asks for, with frames of its own. -/
theorem Owned.mapHeap (sorted : SortedRegions memoryMap) (laws : crates.Laws) (refuses : crates.Refuses)
    (owned : Owned base memoryMap space) (ran : mapHeap crates pages space = .ok (.ok (),next)) :
    Owned base memoryMap next ∧ next.stores = space.stores ∧ Paging.Extends space.table next.table ∧
      ∀ page ∈ pages, space.table page = none ∧ ∃ frame, next.table page = some ⟨frame,heapFlags⟩ := by
  induction pages generalizing space with
  | nil =>
    cases ran
    exact ⟨owned,rfl,.refl _,fun page none => absurd none List.not_mem_nil⟩
  | cons page pages ih =>
    rw [Elf.mapHeap] at ran
    obtain ⟨⟨frame,allocator⟩,taken,ran⟩ := bind_ok.mp ran
    cases frame with
    | none => cases ran
    | some frame =>
      have spent := owned.taken sorted laws taken page heapFlags
      have fresh := refuses page ⟨frame,heapFlags⟩ space.table allocator
      dsimp only at ran
      split at ran
      next => cases ran
      next left installed =>
        rw [installed] at spent fresh
        have absent : space.table page = none := Option.not_isSome_iff_eq_none.mp fun there => Bool.noConfusion (fresh there)
        obtain ⟨kept,silent,extended,mapped⟩ := ih (owned.installed absent spent) ran
        refine ⟨kept,silent,(Paging.extends_update _ absent).trans extended,fun other member => ?_⟩
        rcases List.mem_cons.mp member with rfl | later
        · exact ⟨absent,frame,extended _ _ (Function.update_self ..)⟩
        · obtain ⟨missing,found⟩ := mapped other later
          refine ⟨?_,found⟩
          by_cases here : other = page
          · rw [here]
            exact absent
          · dsimp only at missing
            rwa [Function.update_of_ne here] at missing

end AddressSpace

/-! Runs of the system. -/

def heapPages : List Nat := pagesBetween (pageOf heapStart) (pageOf (heapStart + heapSize - 1))

/-- Between two commands. -/
def MemoryManager.Owned (base : PageTable) (memoryMap : List MemoryRegion) (mm : MemoryManager) : Prop :=
  ∃ space : AddressSpace, mm = space.manager ∧ space.Owned base memoryMap

theorem MemoryManager.Owned.step (sorted : SortedRegions memoryMap) (laws : crates.Laws) {kernel : PageTable}
    (before : Paging.Extends base kernel) {mm next : MemoryManager} {action : MemoryAction}
    (owned : mm.Owned base memoryMap) (step : MemoryStep crates kernel mm action next) : next.Owned base memoryMap := by
  obtain ⟨space,rfl,kept⟩ := owned
  cases step with
  | written _ frames => exact ⟨{space with frames},rfl,⟨kept.ready,kept.extended,kept.usable,kept.distinct,kept.stored⟩⟩
  | exec off ran =>
    rw [loadAndMapElf] at ran
    split at ran
    next =>
      cases ran
      exact ⟨space,rfl,kept⟩
    next elf parsed =>
      have clear : ∀ ph ∈ elf.programHeaders, ph.isLoad = true → ph.KeepsOff base := by
        intro ph member isLoad i bound
        have missing := off elf parsed ph (List.mem_filter.mpr ⟨member,isLoad⟩) i bound
        by_contra there
        have found := before.isSome (Option.isSome_iff_ne_none.mpr there)
        rw [missing] at found
        cases found
      split at ran
      next =>
        cases ran
        exact ⟨space,rfl,kept⟩
      next =>
        split at ran
        next =>
          cases ran
          exact ⟨space,rfl,kept⟩
        next =>
          obtain ⟨⟨loaded,reached⟩,loading,done⟩ := bind_ok.mp ran
          cases done
          exact ⟨reached,rfl,kept.loadSegments sorted laws clear loading⟩

theorem MemoryManager.Owned.run (sorted : SortedRegions memoryMap) (laws : crates.Laws) {kernel : PageTable}
    (before : Paging.Extends base kernel) {mm last : MemoryManager} {actions : List MemoryAction}
    (owned : mm.Owned base memoryMap) (run : Run (MemoryStep crates kernel) mm actions last) :
    last.Owned base memoryMap :=
  run.keeps (fun _ _ _ owned step => owned.step sorted laws before step) owned

theorem kernelMain_owned (sorted : SortedRegions memoryMap) (laws : crates.Laws) (refuses : crates.Refuses)
    {frames : Paging.Frames} {mm : MemoryManager} (booted : kernelMain crates base memoryMap frames = .ok mm) :
    ∃ space : AddressSpace, mm = space.manager ∧ space.Owned base memoryMap ∧ space.stores = [] ∧
      ∀ page ∈ heapPages, base page = none ∧ ∃ frame, space.table page = some ⟨frame,heapFlags⟩ := by
  obtain ⟨⟨mapped,space⟩,made,done⟩ := bind_ok.mp booted
  cases mapped with
  | error error => cases done
  | ok _ =>
    cases done
    have address : ∀ addr, addr < 2^47 → crates.virtAddr addr = .ok addr := by
      intro addr low
      have same : extended addr = addr := extended_canonical (Or.inl low)
      have made := laws.canonical addr (by rw [same]; exact Or.inl low)
      rwa [same] at made
    rw [initHeap,address _ (by decide),ok_bind,address _ (by decide),ok_bind,address _ (by decide),ok_bind,
      laws.between] at made
    obtain ⟨owned,silent,_,mapped⟩ := (AddressSpace.Owned.start base memoryMap frames).mapHeap sorted laws refuses made
    exact ⟨space,rfl,owned,silent,mapped⟩

theorem AddressSpace.Owned.rebase {space : AddressSpace} (owned : space.Owned base memoryMap) (silent : space.stores = []) :
    space.Owned space.table memoryMap where
  ready := owned.ready
  extended := .refl _
  usable := by
    intro page mapping absent present
    cases absent.symm.trans present
  distinct := by
    intro page _ mapping _ absent _ present
    cases absent.symm.trans present
  stored := by
    rw [silent]
    exact fun _ none => absurd none List.not_mem_nil

/-- After any images, good or bad, whose segments keep off the pages that were mapped at the boot: each page mapped
since the bootloader has a usable frame that no other such page has, the pages of the bootloader and of the heap are
mapped as they were, the whole heap is mapped, and what was stored went to pages mapped since the boot. -/
theorem frames_mapped_once (sorted : SortedRegions memoryMap) (laws : crates.Laws) (refuses : crates.Refuses)
    {frames : Paging.Frames} {mm last : MemoryManager} {heap : PageTable} {actions : List MemoryAction}
    (booted : kernelMain crates base memoryMap frames = .ok mm) (mapper : mm.mapper = some heap)
    (run : Run (MemoryStep crates heap) mm actions last) :
    ∃ table, last.mapper = some table ∧ Paging.Extends base table ∧ Paging.Extends heap table ∧
      (∀ page mapping, base page = none → table page = some mapping → mapping.frame ∈ usableFrames memoryMap) ∧
      (∀ page other mapping mapping', base page = none → base other = none → table page = some mapping →
        table other = some mapping' → mapping.frame = mapping'.frame → page = other) ∧
      (∀ page ∈ heapPages, base page = none ∧ ∃ frame, table page = some ⟨frame,heapFlags⟩) ∧
      ∀ store ∈ last.stores, heap (pageOf store.address) = none ∧
        ∀ mapping, store.mapping = some mapping → table (pageOf store.address) = some mapping := by
  obtain ⟨first,rfl,owned,silent,mapped⟩ := kernelMain_owned sorted laws refuses booted
  cases mapper
  obtain ⟨space,rfl,kept⟩ := MemoryManager.Owned.run sorted laws owned.extended ⟨first,rfl,owned⟩ run
  obtain ⟨other,same,since⟩ := MemoryManager.Owned.run sorted laws (.refl _) ⟨first,rfl,owned.rebase silent⟩ run
  have table : space.table = other.table := Option.some.inj (congrArg MemoryManager.mapper same)
  have stores : space.stores = other.stores := congrArg MemoryManager.stores same
  have extended : Paging.Extends first.table space.table := table ▸ since.extended
  refine ⟨space.table,rfl,kept.extended,extended,?_,kept.distinct,?_,?_⟩
  · exact fun page mapping absent present => (kept.usable page mapping absent present).1
  · exact fun page member => ⟨(mapped page member).1,(mapped page member).2.imp fun frame found => extended _ _ found⟩
  · rw [table]
    exact fun store member => since.stored store (stores ▸ member)

/-- `map_to` as long as no page table has to be made. -/
def carefulCrates : Crates := {plainCrates with mapTo := fun page _ table allocator => ((table page).isNone,allocator)}

theorem carefulCrates_laws : carefulCrates.Laws where
  toLaws := plainFrames_laws
  canonical := plainCrates_laws.canonical
  noncanonical := plainCrates_laws.noncanonical
  between := plainCrates_laws.between
  allocates := fun _ _ _ _ => ⟨0,[],rfl⟩

theorem carefulCrates_parse : carefulCrates.parse = plainCrates.parse := rfl

theorem frames_mapped_once_two :
    let memoryMap : List MemoryRegion := [⟨1048576,1581056,.usable,by decide⟩]
    ∃ mm heap last table, kernelMain carefulCrates (fun _ => none) memoryMap (fun _ _ => 0) = .ok mm ∧
      mm.mapper = some heap ∧ Run (MemoryStep carefulCrates heap) mm [.exec twoSegments] last ∧
      last.mapper = some table ∧ ∀ page ∈ heapPages, ∃ frame, table page = some ⟨frame,heapFlags⟩ := by
  intro memoryMap
  have sorted : SortedRegions memoryMap := ⟨by simp [memoryMap,pageSize],by simp [memoryMap]⟩
  have refuses : carefulCrates.Refuses := by
    intro page mapping table allocator there
    rw [carefulCrates]
    exact Option.isNone_eq_false_iff.mpr there
  have made : (do
      let mm ← kernelMain carefulCrates (fun _ => none) memoryMap fun _ _ => 0
      let loaded ← loadAndMapElf carefulCrates twoSegments mm
      return (loaded.1,mm.mapper.map fun table => (table 1024,table 1025)) : Checked _) =
        .ok (.ok 4194304,some (none,none)) := by
    decide +kernel
  obtain ⟨mm,booted,made⟩ := bind_ok.mp made
  obtain ⟨⟨answer,last⟩,ran,shown⟩ := bind_ok.mp made
  obtain ⟨heap,mapper,missing⟩ := Option.map_eq_some_iff.mp (congrArg Prod.snd (Except.ok.inj shown))
  have off : ∀ elf, carefulCrates.parse twoSegments = some elf → ∀ ph ∈ elf.segments, ph.KeepsOff heap := by
    intro elf parsed ph member i bound
    rw [carefulCrates_parse,parse_twoSegments] at parsed
    cases parsed
    have free : heap 1024 = none ∧ heap 1025 = none := Prod.mk.inj missing
    have page : pageOf (ph.virtualAddr.toNat + i) = 1024 ∨ pageOf (ph.virtualAddr.toNat + i) = 1025 := by
      rcases List.mem_pair.mp (List.mem_of_mem_filter member) with rfl | rfl
      · change i < 3 at bound
        change (4194304 + i) / 4096 = 1024 ∨ (4194304 + i) / 4096 = 1025
        omega
      · change i < 5000 at bound
        change (4194307 + i) / 4096 = 1024 ∨ (4194307 + i) / 4096 = 1025
        omega
    rcases page with same | same <;> rw [same]
    · exact free.1
    · exact free.2
  have run : Run (MemoryStep carefulCrates heap) mm [.exec twoSegments] last := .cons (.exec off ran) (.nil _)
  obtain ⟨table,mapped,_,_,_,_,pages,_⟩ := frames_mapped_once sorted carefulCrates_laws refuses booted mapper run
  exact ⟨mm,heap,last,table,booted,mapper,run,mapped,fun page member => (pages page member).2⟩

end PolarOs.Elf
