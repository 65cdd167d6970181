import PolarOs.Kernel.ElfImage
import PolarOs.Kernel.ElfStores

/-! The access that loaded segments end up with. The first segment on a page decides it: a page
that is mapped already is left as it is, whatever a later segment asks for. -/
namespace PolarOs.Elf
open Library Library.Checked

/-- Every page of the segment has the access that the segment asks for. -/
def Accessible (table : PageTable) (ph : ProgramHeader) : Prop :=
  ∀ page ∈ ph.pages, ∃ mapping, table page = some mapping ∧
    (ph.isWrite = true → mapping.flags.writable = true) ∧ (ph.isExecute = true → mapping.flags.noExecute = false)

/-- On each page of a segment the first segment asks for no less. -/
def FirstAllows (headers : List ProgramHeader) : Prop :=
  ∀ ph ∈ headers, ph.isLoad = true → ∀ page ∈ ph.pages, ∀ first, firstOn headers page = some first →
    (ph.isWrite = true → first.isWrite = true) ∧ (ph.isExecute = true → first.isExecute = true)

variable {crates : Crates} {data : Bytes} {headers : List ProgramHeader} {ph : ProgramHeader}

theorem firstOn_isSome (member : ph ∈ headers) (load : ph.isLoad = true) {page : Nat} (on : page ∈ ph.pages) :
    (firstOn headers page).isSome := by
  rw [firstOn,List.find?_isSome]
  exact ⟨ph,member,by rw [load,decide_eq_true on]; rfl⟩

namespace AddressSpace

variable {first last : AddressSpace}

/-- A page that was free gets the access of the first segment on it. -/
theorem Loads.first_access (loads : Loads crates data headers first last) (member : ph ∈ headers)
    (load : ph.isLoad = true) {page : Nat} (on : page ∈ ph.pages) (free : first.table page = none) :
    ∃ mapping head, last.table page = some mapping ∧ firstOn headers page = some head ∧ mapping.flags = head.flags := by
  obtain ⟨head,found⟩ := Option.isSome_iff_exists.mp (firstOn_isSome member load on)
  have access := loads.access page
  rw [accessOf,free,found,Option.map_none,Option.none_or,Option.map_some] at access
  obtain ⟨mapping,mapped,same⟩ := Option.map_eq_some_iff.mp access
  exact ⟨mapping,head,mapped,found,same⟩

theorem Loads.accessible_iff (loads : Loads crates data headers first last)
    (free : ∀ ph ∈ headers, ph.isLoad = true → ∀ page ∈ ph.pages, first.table page = none) :
    (∀ ph ∈ headers, ph.isLoad = true → Accessible last.table ph) ↔ FirstAllows headers := by
  constructor
  · intro accessible ph member load page on head found
    obtain ⟨mapping,other,mapped,again,same⟩ := loads.first_access member load on (free ph member load page on)
    rw [found] at again
    cases again
    obtain ⟨mapping',mapped',writes,executes⟩ := accessible ph member load page on
    rw [mapped] at mapped'
    cases mapped'
    rw [same] at writes executes
    refine ⟨writes,fun execute => ?_⟩
    have allowed := executes execute
    rwa [ProgramHeader.flags,Bool.not_eq_false'] at allowed
  · intro allows ph member load page on
    obtain ⟨mapping,head,mapped,found,same⟩ := loads.first_access member load on (free ph member load page on)
    obtain ⟨writes,executes⟩ := allows ph member load page on head found
    refine ⟨mapping,mapped,?_⟩
    rw [same]
    refine ⟨writes,fun execute => ?_⟩
    rw [ProgramHeader.flags,executes execute]
    rfl

end AddressSpace

/-- The segments of a program, on pages that were all free, get the access that they ask for
exactly when the first segment on each page asks for all that the later ones do. -/
theorem access_as_asked_iff_first_allows {elf : ElfFile} {mm mm' : MemoryManager} {entry : UInt64} {table : PageTable}
    (laws : crates.Laws) (parsed : crates.parse data = some elf) (mapper : mm.mapper = some table)
    (free : ∀ ph ∈ elf.programHeaders, ph.isLoad = true → ∀ page ∈ ph.pages, table page = none)
    (ran : loadAndMapElf crates data mm = .ok (.ok entry,mm')) :
    ∃ table', mm'.mapper = some table' ∧
      ((∀ ph ∈ elf.programHeaders, ph.isLoad = true → Accessible table' ph) ↔ FirstAllows elf.programHeaders) := by
  obtain ⟨elf',first,last,parsed',rfl,rfl,_,loading⟩ := loadAndMapElf_ok ran
  rw [parsed] at parsed'
  cases parsed'
  cases mapper
  exact ⟨last.table,rfl,(AddressSpace.loadSegments_loads laws loading).accessible_iff free⟩

theorem access_as_asked_iff_first_allows_two : ∃ mm' table',
    loadAndMapElf plainCrates twoSegments userSpace.manager = .ok (.ok 4194304,mm') ∧ mm'.mapper = some table' ∧
    ((∀ ph ∈ twoHeaders, ph.isLoad = true → Accessible table' ph) ↔ FirstAllows twoHeaders) := by
  have free : ∀ ph ∈ twoHeaders, ph.isLoad = true → ∀ page ∈ ph.pages, userSpace.table page = none := by decide
  obtain ⟨mm',ran⟩ := twoSegments_loaded
  obtain ⟨table',found,exactly⟩ := access_as_asked_iff_first_allows plainCrates_laws parse_twoSegments rfl free ran
  exact ⟨mm',table',ran,found,exactly⟩

/-- The code starts on the page on which the data end. -/
def dataThenCode : Bytes := elfImage 4194306
  [loadHeader 6 176 4194304 2 2,loadHeader 5 178 4194306 1 1] [1,2,195]

def dataThenCodeHeaders : List ProgramHeader :=
  [⟨true,false,true,176,4194304,2,2⟩,⟨true,true,false,178,4194306,1,1⟩]

/-- The page stays without execute access. -/
theorem code_after_data_not_executable :
    plainCrates.parse dataThenCode = some ⟨true,true,4194306,dataThenCodeHeaders⟩ ∧
    (∀ ph ∈ dataThenCodeHeaders, ph.isLoad = true → ∀ page ∈ ph.pages, userSpace.table page = none) ∧
    ∃ mm' table', loadAndMapElf plainCrates dataThenCode userSpace.manager = .ok (.ok 4194306,mm') ∧
      mm'.mapper = some table' ∧ ¬∀ ph ∈ dataThenCodeHeaders, ph.isLoad = true → Accessible table' ph := by
  refine ⟨by decide +kernel,by decide,?_⟩
  have answered : (loadAndMapElf plainCrates dataThenCode userSpace.manager).map
      (fun result => (result.1,result.2.mapper.map fun table => (table 1024).map (·.flags))) =
      .ok (.ok 4194306,some (some ⟨true,true⟩)) := by decide +kernel
  obtain ⟨⟨answer,mm'⟩,ran,shown⟩ := map_eq_ok.mp answered
  obtain ⟨rfl,kept⟩ := Prod.mk.inj shown
  obtain ⟨table',found,flags⟩ := Option.map_eq_some_iff.mp kept
  refine ⟨mm',table',ran,found,fun accessible => ?_⟩
  obtain ⟨mapping,mapped,_,executes⟩ := accessible ⟨true,true,false,178,4194306,1,1⟩ (by decide) rfl 1024 (by decide)
  rw [mapped,Option.map_some,Option.some_inj] at flags
  have refused := executes rfl
  rw [flags] at refused
  cases refused

end PolarOs.Elf
