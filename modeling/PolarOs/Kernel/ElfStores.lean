import PolarOs.Kernel.ElfSafety

/-! Where the ELF loader stores. It copies through the mapping that it makes for the program, and
the access of a page comes from the page table before or from the first segment on the page. -/
namespace PolarOs.Elf
open Library Library.Checked

/-- The first segment that has a byte on the page. -/
def firstOn (headers : List ProgramHeader) (page : Nat) : Option ProgramHeader :=
  headers.find? fun ph => ph.isLoad && decide (page ∈ ph.pages)

def accessOf (table : PageTable) (headers : List ProgramHeader) (page : Nat) : Option PageTableFlags :=
  ((table page).map (·.flags)).or ((firstOn headers page).map ProgramHeader.flags)

/-- The page of each byte of the segment is writable, by the page table or by the first segment on it. -/
def GrantedTo (ph : ProgramHeader) (table : PageTable) (headers : List ProgramHeader) : Prop :=
  ∀ i < max ph.fileSize.toNat ph.memSize.toNat, ∃ flags,
    accessOf table headers (pageOf (ph.virtualAddr.toNat + i)) = some flags ∧ flags.writable = true

/-- For each segment only those before it and itself count. -/
def Granted (table : PageTable) (headers : List ProgramHeader) : Prop :=
  ∀ before ph after, headers = before ++ ph::after → ph.isLoad = true → GrantedTo ph table (before ++ [ph])

def ByteStore.Writable (store : ByteStore) : Prop :=
  ∃ mapping, store.mapping = some mapping ∧ mapping.flags.writable = true

variable {crates : Crates} {data : Bytes} {headers : List ProgramHeader} {ph : ProgramHeader}

theorem accessOf_nil (table : PageTable) (page : Nat) : accessOf table [] page = (table page).map (·.flags) := by
  rw [accessOf,firstOn,List.find?_nil,Option.map_none,Option.or_none]

theorem firstOn_cons (page : Nat) : firstOn (ph::headers) page =
    if ph.isLoad = true ∧ page ∈ ph.pages then some ph else firstOn headers page := by
  rw [firstOn,List.find?_cons]
  split
  next yes =>
    rw [Bool.and_eq_true,decide_eq_true_eq] at yes
    rw [if_pos yes]
  next no =>
    rw [← Bool.not_eq_true,Bool.and_eq_true,decide_eq_true_eq] at no
    rw [if_neg no]
    rfl

theorem mem_logged {table : PageTable} {address : Nat} {bytes : Bytes} {store : ByteStore} :
    store ∈ logged table address bytes ↔
      ∃ i byte, bytes[i]? = some byte ∧ store = ⟨address + i,byte,table (pageOf (address + i))⟩ := by
  induction bytes generalizing address with
  | nil => simp [logged]
  | cons byte bytes ih =>
    rw [logged,List.mem_cons,ih]
    constructor
    · rintro (same | ⟨i,later,found,same⟩)
      · exact ⟨0,byte,rfl,same⟩
      · refine ⟨i + 1,later,found,?_⟩
        rw [same,Nat.add_assoc,Nat.add_comm 1]
    · rintro ⟨i,later,found,same⟩
      cases i with
      | zero =>
        cases found
        exact Or.inl same
      | succ i =>
        refine Or.inr ⟨i,later,found,?_⟩
        rw [same,Nat.add_assoc,Nat.add_comm 1]

namespace AddressSpace

variable {flags : PageTableFlags} {pages : List Nat} {first middle last : AddressSpace}

theorem Mapped.access (mapped : Mapped flags pages first last) (page : Nat) :
    (last.table page).map (·.flags) =
      ((first.table page).map (·.flags)).or (if page ∈ pages then some flags else none) := by
  cases before : first.table page with
  | some mapping => rw [mapped.extended page mapping before,Option.map_some,Option.some_or]
  | none =>
    rw [Option.map_none,Option.none_or]
    split
    next member =>
      obtain ⟨mapping,found⟩ := Option.isSome_iff_exists.mp (mapped.present page member)
      rw [found,Option.map_some,(mapped.added page mapping before found).2]
    next outside =>
      cases after : last.table page with
      | none => rfl
      | some mapping => exact absurd (mapped.added page mapping before after).1 outside

/-- A segment decides the access of its pages that were not mapped before. -/
theorem Loaded.access (loaded : Loaded crates data ph first middle last) (load : ph.isLoad = true)
    (headers : List ProgramHeader) (page : Nat) :
    accessOf last.table headers page = accessOf first.table (ph::headers) page := by
  rw [accessOf,accessOf,loaded.copied,storeBytes_table,(mapPages_mapped loaded.mapped).access,firstOn_cons,
    Option.or_assoc]
  congr 1
  by_cases member : page ∈ ph.pages
  · rw [if_pos member,if_pos ⟨load,member⟩,Option.map_some,Option.some_or]
  · rw [if_neg member,if_neg (fun both => member both.2),Option.none_or]

theorem accessOf_skipped (table : PageTable) (skipped : ¬ph.isLoad = true) (headers : List ProgramHeader) (page : Nat) :
    accessOf table (ph::headers) page = accessOf table headers page := by
  rw [accessOf,firstOn_cons,if_neg (fun both => skipped both.1),accessOf]

theorem Loads.access (loads : Loads crates data headers first last) (page : Nat) :
    (last.table page).map (·.flags) = accessOf first.table headers page := by
  induction loads with
  | done space => rw [accessOf_nil]
  | load isLoad loaded rest ih => rw [ih,loaded.access isLoad]
  | skip skipped rest ih => rw [ih,accessOf_skipped _ skipped]

/-- The stores of one segment are through the access that its pages have by then. -/
theorem Loaded.writable (loaded : Loaded crates data ph first middle last) (load : ph.isLoad = true) :
    (∀ store ∈ logged middle.table ph.virtualAddr.toNat (ph.contents data), store.Writable) ↔
      GrantedTo ph first.table [ph] := by
  have access : ∀ page, (middle.table page).map (·.flags) = accessOf first.table [ph] page := by
    intro page
    rw [← loaded.access load,accessOf_nil,loaded.copied,storeBytes_table]
  constructor
  · intro writable i bound
    rw [← ph.length_contents loaded.inside] at bound
    obtain ⟨mapping,found,allowed⟩ := writable _ (mem_logged.mpr ⟨i,_,List.getElem?_eq_getElem bound,rfl⟩)
    dsimp only at found
    refine ⟨mapping.flags,?_,allowed⟩
    rw [← access,found,Option.map_some]
  · intro granted store member
    obtain ⟨i,byte,found,rfl⟩ := mem_logged.mp member
    obtain ⟨bound,_⟩ := List.getElem?_eq_some_iff.mp found
    rw [ph.length_contents loaded.inside] at bound
    obtain ⟨flags,given,allowed⟩ := granted i bound
    rw [← access] at given
    obtain ⟨mapping,there,rfl⟩ := Option.map_eq_some_iff.mp given
    exact ⟨mapping,there,allowed⟩

theorem granted_cons {table next : PageTable}
    (moved : ∀ headers page, accessOf next headers page = accessOf table (ph::headers) page) :
    Granted table (ph::headers) ↔ (ph.isLoad = true → GrantedTo ph table [ph]) ∧ Granted next headers := by
  constructor
  · intro granted
    refine ⟨granted [] ph headers rfl,?_⟩
    rintro before other after rfl load i bound
    rw [moved]
    exact granted (ph::before) other after rfl load i bound
  · rintro ⟨here,rest⟩ before other after split load i bound
    cases before with
    | nil =>
      cases split
      exact here load i bound
    | cons head before =>
      cases split
      rw [List.cons_append,← moved]
      exact rest before other after rfl load i bound

theorem Loads.writable (loads : Loads crates data headers first last) :
    ∃ added, last.stores = first.stores ++ added ∧ ((∀ store ∈ added, store.Writable) ↔ Granted first.table headers) := by
  induction loads with
  | done space =>
    refine ⟨[],(List.append_nil _).symm,?_⟩
    exact iff_of_true (fun _ member => absurd member List.not_mem_nil) (fun before ph after split => by
      cases before <;> cases split)
  | @load ph headers first middle next last isLoad loaded rest ih =>
    obtain ⟨added,more,exactly⟩ := ih
    refine ⟨logged middle.table ph.virtualAddr.toNat (ph.contents data) ++ added,?_,?_⟩
    · rw [more,loaded.copied,storeBytes,(mapPages_memory loaded.mapped).2,List.append_assoc]
    · rw [granted_cons (loaded.access isLoad),← exactly,List.forall_mem_append,imp_iff_right isLoad,
        ← loaded.writable isLoad]
  | skip skipped rest ih =>
    obtain ⟨added,more,exactly⟩ := ih
    refine ⟨added,more,?_⟩
    rw [exactly,granted_cons fun headers page => (accessOf_skipped _ skipped headers page).symm]
    exact (and_iff_right fun load => absurd load skipped).symm

theorem loadSegment_refused (laws : crates.Laws) {message : Str}
    (ran : loadSegment crates data ph first = .ok (.error message,last)) : last.stores = first.stores := by
  obtain ⟨⟨answer,middle⟩,mapping,ran⟩ := bind_ok.mp (loadSegment_pages laws ran)
  cases answer with
  | error message =>
    cases ran
    exact (mapPages_memory mapping).2
  | ok _ =>
    obtain ⟨copied,_,ran⟩ := bind_ok.mp ran
    cases ran

/-- A segment that is refused stores nothing, so all stores are those of the segments before it. -/
theorem loadSegments_reached (laws : crates.Laws) {answer : Except Str Unit}
    (ran : loadSegments crates data headers first = .ok (answer,last)) :
    ∃ loaded reached, loaded <+: headers ∧ (answer = .ok () → loaded = headers) ∧
      loadSegments crates data loaded first = .ok (.ok (),reached) ∧ last.stores = reached.stores := by
  induction headers generalizing first with
  | nil => exact ⟨[],first,List.prefix_rfl,fun _ => rfl,rfl,by cases ran; rfl⟩
  | cons ph headers ih =>
    rw [loadSegments] at ran
    split at ran
    next load =>
      obtain ⟨⟨outcome,next⟩,step,ran⟩ := bind_ok.mp ran
      cases outcome with
      | error message =>
        cases ran
        exact ⟨[],first,List.nil_prefix,fun well => (by cases well),rfl,loadSegment_refused laws step⟩
      | ok _ =>
        obtain ⟨loaded,reached,before,whole,again,same⟩ := ih ran
        refine ⟨ph::loaded,reached,(List.prefix_cons_inj ph).mpr before,fun well => congrArg _ (whole well),?_,same⟩
        rw [loadSegments,if_pos load,step,ok_bind]
        exact again
    next skipped =>
      obtain ⟨loaded,reached,before,whole,again,same⟩ := ih ran
      refine ⟨ph::loaded,reached,(List.prefix_cons_inj ph).mpr before,fun well => congrArg _ (whole well),?_,same⟩
      rw [loadSegments,if_neg skipped]
      exact again

end AddressSpace

theorem loadAndMapElf_reached {elf : ElfFile} (laws : crates.Laws) (parsed : crates.parse data = some elf)
    {space : AddressSpace} {answer : Except Str UInt64} {mm' : MemoryManager}
    (ran : loadAndMapElf crates data space.manager = .ok (answer,mm')) :
    ∃ loaded reached, loaded <+: elf.programHeaders ∧ (∀ entry, answer = .ok entry → loaded = elf.programHeaders) ∧
      AddressSpace.loadSegments crates data loaded space = .ok (.ok (),reached) ∧ mm'.stores = reached.stores := by
  by_cases supported : elf.isSixtyFour = true ∧ elf.isX8664 = true
  · rw [loadAndMapElf_manager parsed supported.1 supported.2] at ran
    obtain ⟨⟨outcome,last⟩,loading,ran⟩ := bind_ok.mp ran
    cases ran
    obtain ⟨loaded,reached,before,whole,again,same⟩ := AddressSpace.loadSegments_reached laws loading
    refine ⟨loaded,reached,before,?_,again,same⟩
    intro entry well
    cases outcome with
    | error message => cases well
    | ok _ => exact whole rfl
  · rw [loadAndMapElf,parsed] at ran
    dsimp only at ran
    split at ran
    next =>
      cases ran
      exact ⟨[],space,List.nil_prefix,fun entry well => (by cases well),rfl,rfl⟩
    next wide =>
      split at ran
      next =>
        cases ran
        exact ⟨[],space,List.nil_prefix,fun entry well => (by cases well),rfl,rfl⟩
      next machine =>
        rw [Bool.not_eq_true',Bool.not_eq_false] at wide machine
        exact absurd ⟨wide,machine⟩ supported

/-- As far as the loader gets through the segments, all its stores are to writable pages exactly
when each byte is granted. It makes no other stores, however it returns. -/
theorem stores_writable_where_granted {elf : ElfFile} (laws : crates.Laws) (parsed : crates.parse data = some elf)
    (space : AddressSpace) :
    (∀ loaded reached, AddressSpace.loadSegments crates data loaded space = .ok (.ok (),reached) →
      ∃ added, reached.stores = space.stores ++ added ∧
        ((∀ store ∈ added, store.Writable) ↔ Granted space.table loaded)) ∧
    ∀ answer mm', loadAndMapElf crates data space.manager = .ok (answer,mm') →
      ∃ loaded reached, loaded <+: elf.programHeaders ∧ (∀ entry, answer = .ok entry → loaded = elf.programHeaders) ∧
        AddressSpace.loadSegments crates data loaded space = .ok (.ok (),reached) ∧ mm'.stores = reached.stores :=
  ⟨fun _ _ ran => (AddressSpace.loadSegments_loads laws ran).writable,
    fun _ _ ran => loadAndMapElf_reached laws parsed ran⟩

/-- The only segment is readable and executable; its byte is stored through its own mapping. -/
theorem returning_loaded : ∃ mm', loadAndMapElf plainCrates returning userSpace.manager = .ok (.ok 4194304,mm') ∧
    mm'.stores.map (fun store => store.mapping.map (·.flags)) = [some ⟨false,false⟩] := by
  have answered : (loadAndMapElf plainCrates returning userSpace.manager).map
      (fun result => (result.1,result.2.stores.map fun store => store.mapping.map (·.flags))) =
      .ok (.ok 4194304,[some ⟨false,false⟩]) := by decide +kernel
  obtain ⟨⟨answer,mm'⟩,ran,shown⟩ := map_eq_ok.mp answered
  obtain ⟨rfl,kinds⟩ := Prod.mk.inj shown
  exact ⟨mm',ran,kinds⟩

theorem stores_writable_where_granted_returning :
    ∃ reached added, AddressSpace.loadSegments plainCrates returning [returningHeader] userSpace = .ok (.ok (),reached) ∧
      reached.stores = userSpace.stores ++ added ∧
      ((∀ store ∈ added, store.Writable) ↔ Granted userSpace.table [returningHeader]) := by
  obtain ⟨mm',ran,_⟩ := returning_loaded
  obtain ⟨loads,ends⟩ := stores_writable_where_granted plainCrates_laws parse_returning userSpace
  obtain ⟨loaded,reached,_,whole,again,_⟩ := ends _ _ ran
  cases whole 4194304 rfl
  obtain ⟨added,more,exactly⟩ := loads _ _ again
  exact ⟨reached,added,again,more,exactly⟩

theorem text_segment_stored_read_only : ∃ mm',
    loadAndMapElf plainCrates returning userSpace.manager = .ok (.ok 4194304,mm') ∧
    ∃ store ∈ mm'.stores, ¬store.Writable := by
  obtain ⟨mm',ran,kinds⟩ := returning_loaded
  obtain ⟨store,more,stores,kind,_⟩ := List.map_eq_cons_iff.mp kinds
  refine ⟨mm',ran,store,stores ▸ List.mem_cons_self,?_⟩
  rintro ⟨mapping,found,allowed⟩
  rw [found,Option.map_some,Option.some_inj] at kind
  rw [kind] at allowed
  cases allowed

end PolarOs.Elf
