import PolarOs.Kernel.Elf

/-! Which images the ELF loader answers. The fields of a program header go unchecked into
address arithmetic and into a slice of the image, so it is the headers that decide. Here
`VirtAddr::new` takes canonical addresses only. -/
namespace PolarOs.Elf
open Library Library.Checked

variable {crates : Crates} {data : Bytes}

/-- `VirtAddr::new` panics on an address that is not canonical. -/
structure Crates.Strict (crates : Crates) : Prop extends crates.toFrameCrate.Laws where
  canonical : ∀ addr, Canonical addr → crates.virtAddr addr = .ok addr
  noncanonical : ∀ addr, ¬Canonical addr → crates.virtAddr addr = .error .panic

/-- The addresses that the loader computes are addresses. -/
structure ProgramHeader.Addressable (ph : ProgramHeader) : Prop where
  start : Canonical ph.virtualAddr.toNat
  positive : 0 < ph.virtualAddr.toNat + ph.memSize.toNat
  fits : ph.virtualAddr.toNat + ph.memSize.toNat < 2^64
  stop : Canonical (ph.virtualAddr.toNat + ph.memSize.toNat - 1)

/-- The fields of a program header can be used as they are. -/
def ProgramHeader.Sound (data : Bytes) (ph : ProgramHeader) : Prop := ph.Addressable ∧ ph.FileInside data

theorem Crates.Strict.virtAddr_ok (strict : crates.Strict) {addr value : Nat}
    (made : crates.virtAddr addr = .ok value) : Canonical addr := by
  by_contra outside
  rw [strict.noncanonical addr outside] at made
  cases made

theorem addressable_iff (strict : crates.Strict) {ph : ProgramHeader} :
    (∃ pages, ph.Resolved crates pages) ↔ ph.Addressable := by
  constructor
  · intro some
    obtain ⟨pages,positive,fits,start,stop,started,stopped,_⟩ := some
    exact ⟨strict.virtAddr_ok started,positive,fits,strict.virtAddr_ok stopped⟩
  · intro addressable
    obtain ⟨start,positive,fits,stop⟩ := addressable
    exact ⟨_,positive,fits,_,_,strict.canonical _ start,strict.canonical _ stop,rfl⟩

namespace AddressSpace

theorem loadSegments_total (strict : crates.Strict) {headers : List ProgramHeader}
    (sound : ∀ ph ∈ headers, ph.isLoad = true → ph.Sound data) (space : AddressSpace) :
    ∃ result, loadSegments crates data headers space = .ok result := by
  induction headers generalizing space with
  | nil => exact ⟨_,rfl⟩
  | cons ph headers ih =>
    have later := ih fun other member => sound other (List.mem_cons_of_mem _ member)
    rw [loadSegments]
    split
    next load =>
      obtain ⟨fits,inside⟩ := sound ph List.mem_cons_self load
      obtain ⟨pages,resolved⟩ := (addressable_iff strict).mpr fits
      obtain ⟨⟨loaded,middle⟩,ran⟩ := loadSegment_total strict.toLaws resolved inside space
      rw [ran,ok_bind]
      cases loaded with
      | error message => exact ⟨_,rfl⟩
      | ok _ => exact later middle
    next => exact later space

theorem mapPages_full (crates : Crates) (flags : PageTableFlags) (pages : List Nat) {space : AddressSpace}
    (full : ∀ page, (space.table page).isSome) : mapPages crates flags pages space = .ok (.ok (),space) := by
  induction pages with
  | nil => rfl
  | cons page pages ih => rw [mapPages,if_pos (full page),ih]

/-- Where every page is mapped no error is returned, so nothing hides a bad header. -/
theorem loadSegment_full (strict : crates.Strict) {ph : ProgramHeader} {space last : AddressSpace}
    {loaded : Except Str Unit} (full : ∀ page, (space.table page).isSome)
    (ran : loadSegment crates data ph space = .ok (loaded,last)) :
    ph.Sound data ∧ loaded = .ok () ∧ last.table = space.table := by
  obtain ⟨pages,resolved⟩ := resolved_of_ok ran
  rw [loadSegment_resolved resolved,mapPages_full crates ph.flags pages full,ok_bind] at ran
  obtain ⟨middle,copied,ran⟩ := bind_ok.mp ran
  obtain ⟨inside,same⟩ := copyData_ok.mp copied
  cases ran
  rw [same,zeroBss_contents inside,storeBytes_table]
  exact ⟨⟨(addressable_iff strict).mp ⟨pages,resolved⟩,inside⟩,rfl,rfl⟩

theorem loadSegments_full (strict : crates.Strict) {headers : List ProgramHeader} {space : AddressSpace}
    {result : Except Str Unit × AddressSpace} (full : ∀ page, (space.table page).isSome)
    (ran : loadSegments crates data headers space = .ok result) :
    ∀ ph ∈ headers, ph.isLoad = true → ph.Sound data := by
  induction headers generalizing space with
  | nil => exact fun ph member => absurd member List.not_mem_nil
  | cons ph headers ih =>
    intro other member load
    rw [loadSegments] at ran
    split at ran
    next =>
      obtain ⟨⟨loaded,middle⟩,step,ran⟩ := bind_ok.mp ran
      obtain ⟨sound,rfl,same⟩ := loadSegment_full strict full step
      rcases List.mem_cons.mp member with rfl | later
      · exact sound
      · exact ih (fun page => same ▸ full page) ran other later load
    next skipped =>
      rcases List.mem_cons.mp member with rfl | later
      · exact absurd load skipped
      · exact ih full ran other later load

end AddressSpace

/-- The loader answers, whatever the memory manager holds, exactly when every segment to load
has addresses that are addresses and file contents that lie in the file. Its stores are taken to
succeed: where one lies on a page that is missing or read-only, the processor faults. -/
theorem loader_answers_sound_images {elf : ElfFile} (strict : crates.Strict) (parsed : crates.parse data = some elf)
    (wide : elf.isSixtyFour = true) (machine : elf.isX8664 = true) :
    (∀ mm, ∃ result, loadAndMapElf crates data mm = .ok result) ↔
      ∀ ph ∈ elf.programHeaders, ph.isLoad = true → ph.Sound data := by
  constructor
  · intro answers
    let space : AddressSpace := ⟨fun page => some ⟨page,⟨true,false⟩⟩,.init [],fun _ _ => 0,[]⟩
    obtain ⟨result,ran⟩ := answers space.manager
    rw [loadAndMapElf_manager parsed wide machine] at ran
    obtain ⟨loaded,ran,_⟩ := bind_ok.mp ran
    exact AddressSpace.loadSegments_full strict (fun _ => rfl) ran
  · intro sound mm
    obtain ⟨mapper,frameAllocator,frames,stores⟩ := mm
    rcases mapper with _ | table
    · rw [loadAndMapElf,parsed]
      simp [wide,machine]
    · rcases frameAllocator with _ | allocator
      · rw [loadAndMapElf,parsed]
        simp [wide,machine]
      · obtain ⟨result,ran⟩ := AddressSpace.loadSegments_total strict sound ⟨table,allocator,frames,stores⟩
        have answer := loadAndMapElf_manager parsed wide machine ⟨table,allocator,frames,stores⟩
        rw [ran] at answer
        exact ⟨_,answer⟩

def returningHeader : ProgramHeader := ⟨true,true,false,120,4194304,1,1⟩

/-- One segment of one byte, the `ret` that follows the headers. -/
def returning : Bytes := elfImage 4194304 [loadHeader 5 120 4194304 1 1] [195]

/-- The same image without its last byte. -/
def returningCut : Bytes := returning.take 120

theorem parse_returning : plainCrates.parse returning = some ⟨true,true,4194304,[returningHeader]⟩ := by decide +kernel

/-- The crates with a strict `VirtAddr::new`. -/
def strictCrates : Crates :=
  {plainCrates with virtAddr := fun addr => if Canonical addr then .ok addr else .error .panic}

theorem strictCrates_strict : strictCrates.Strict where
  toLaws := plainFrames_laws
  canonical := fun _ canonical => if_pos canonical
  noncanonical := fun _ outside => if_neg outside

theorem strictCrates_parse : strictCrates.parse = plainCrates.parse := rfl

theorem parse_returningCut : strictCrates.parse returningCut = some ⟨true,true,4194304,[returningHeader]⟩ := by
  decide +kernel

theorem loader_answers_returning : ∃ result, loadAndMapElf strictCrates returning userSpace.manager = .ok result := by
  have parsed := (congrFun strictCrates_parse returning).trans parse_returning
  refine (loader_answers_sound_images strictCrates_strict parsed rfl rfl).mpr ?_ userSpace.manager
  intro ph member _
  cases List.mem_singleton.mp member
  exact ⟨⟨by decide,by decide,by decide,by decide⟩,fun _ => by decide⟩

theorem cut_image_panics : strictCrates.parse returningCut = some ⟨true,true,4194304,[returningHeader]⟩ ∧
    loadAndMapElf strictCrates returningCut userSpace.manager = .error .panic := by
  have stopped : (loadAndMapElf strictCrates returningCut userSpace.manager).map Prod.fst = .error .panic := by
    decide +kernel
  exact ⟨parse_returningCut,map_eq_error.mp stopped⟩

end PolarOs.Elf
