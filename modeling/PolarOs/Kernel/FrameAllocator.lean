import PolarOs.Library.Checked
import PolarOs.Library.Ascending
import Mathlib.Data.List.Pairwise

/-! The physical frame allocator (`kernel/memory/frame_allocator.rs`) over the memory map
the bootloader hands to the kernel. Frames are named by their start addresses; the functions of
`x86_64` that make them are parameters. -/
namespace PolarOs
open Library Library.Checked Library.Ascending

def pageSize : Nat := 4096

/-- The kernel tells usable regions apart from all others. -/
inductive MemoryRegionType where
  | usable
  | other (kind : Nat)
deriving DecidableEq

/-- A range of physical addresses, which have at most 52 bits. -/
structure MemoryRegion where
  startAddr : Nat
  endAddr : Nat
  regionType : MemoryRegionType
  physical : endAddr ≤ 2^52

/-- `PhysAddr::new` and `PhysFrame::containing_address`. -/
structure FrameCrate where
  physAddr : Nat → Checked Nat
  containingAddress : Nat → Nat

/-- Physical addresses have at most 52 bits; a frame is named by the first address in it. -/
structure FrameCrate.Laws (crate : FrameCrate) : Prop where
  physical : ∀ addr, addr < 2^52 → crate.physAddr addr = .ok addr
  aligned : ∀ addr, pageSize ∣ addr → crate.containingAddress addr = addr

structure BootInfoFrameAllocator where
  memoryMap : List MemoryRegion
  nextAddr : Nat

namespace BootInfoFrameAllocator

def init (memoryMap : List MemoryRegion) : BootInfoFrameAllocator := ⟨memoryMap,0⟩

/-- The loop over the regions: the frame and the next address. -/
def scan (crate : FrameCrate) (nextAddr : Nat) : List MemoryRegion → Checked (Option Nat × Nat)
  | [] => .ok (none,nextAddr)
  | region::regions =>
    if region.regionType ≠ .usable then scan crate nextAddr regions
    else
      let addr := if region.startAddr ≤ nextAddr then nextAddr else region.startAddr
      if addr < region.endAddr then do
        let next ← add 64 addr pageSize
        let phys ← crate.physAddr addr
        return (some (crate.containingAddress phys),next)
      else scan crate nextAddr regions

def allocateFrame (crate : FrameCrate) (allocator : BootInfoFrameAllocator) :
    Checked (Option Nat × BootInfoFrameAllocator) := do
  let (frame,nextAddr) ← scan crate allocator.nextAddr allocator.memoryMap
  return (frame,{allocator with nextAddr})

def allocateFrames (crate : FrameCrate) : Nat → BootInfoFrameAllocator → Checked (List (Option Nat) × BootInfoFrameAllocator)
  | 0,allocator => .ok ([],allocator)
  | count + 1,allocator => do
    let (frame,allocator) ← allocator.allocateFrame crate
    let (frames,allocator) ← allocateFrames crate count allocator
    return (frame::frames,allocator)

end BootInfoFrameAllocator

def MemoryRegion.frames (region : MemoryRegion) : List Nat :=
  if region.regionType = .usable then
    (List.range ((region.endAddr - region.startAddr) / pageSize)).map fun i => region.startAddr + pageSize * i
  else []

def usableFrames (memoryMap : List MemoryRegion) : List Nat := memoryMap.flatMap MemoryRegion.frames

/-- The regions are aligned to pages; those that hold an address are disjoint and ascend. -/
structure SortedRegions (memoryMap : List MemoryRegion) : Prop where
  aligned : ∀ region ∈ memoryMap, pageSize ∣ region.startAddr ∧ pageSize ∣ region.endAddr
  ascending : memoryMap.Pairwise fun first second =>
    first.startAddr < first.endAddr → second.startAddr < second.endAddr → first.endAddr ≤ second.startAddr

theorem mem_frames {region : MemoryRegion} (start : pageSize ∣ region.startAddr)
    (stop : pageSize ∣ region.endAddr) (frame : Nat) :
    frame ∈ region.frames ↔
      region.regionType = .usable ∧ pageSize ∣ frame ∧ region.startAddr ≤ frame ∧ frame < region.endAddr := by
  unfold MemoryRegion.frames pageSize at *
  split
  next usable =>
    rw [and_iff_right usable,List.mem_map]
    constructor
    · intro member
      obtain ⟨i,bound,place⟩ := member
      have inside := List.mem_range.mp bound
      omega
    · intro place
      exact ⟨(frame - region.startAddr) / 4096,by rw [List.mem_range]; omega,by omega⟩
  next other => simp [other]

theorem frames_ascend (region : MemoryRegion) : region.frames.Pairwise (· < ·) := by
  unfold MemoryRegion.frames pageSize
  split
  next =>
    rw [List.pairwise_map]
    apply List.pairwise_lt_range.imp
    intro i j below
    omega
  next => exact List.Pairwise.nil

theorem mem_usableFrames {memoryMap : List MemoryRegion} (sorted : SortedRegions memoryMap) (frame : Nat) :
    frame ∈ usableFrames memoryMap ↔
      pageSize ∣ frame ∧ ∃ region ∈ memoryMap,
        region.regionType = .usable ∧ region.startAddr ≤ frame ∧ frame < region.endAddr := by
  unfold usableFrames
  rw [List.mem_flatMap]
  constructor
  · intro member
    obtain ⟨region,listed,inside⟩ := member
    obtain ⟨start,stop⟩ := sorted.aligned region listed
    obtain ⟨usable,whole,range⟩ := (mem_frames start stop _).mp inside
    exact ⟨whole,region,listed,usable,range⟩
  · intro member
    obtain ⟨whole,region,listed,usable,range⟩ := member
    obtain ⟨start,stop⟩ := sorted.aligned region listed
    exact ⟨region,listed,(mem_frames start stop _).mpr ⟨usable,whole,range⟩⟩

namespace SortedRegions

theorem head {region : MemoryRegion} {regions : List MemoryRegion} (sorted : SortedRegions (region::regions)) :
    pageSize ∣ region.startAddr ∧ pageSize ∣ region.endAddr :=
  sorted.aligned region List.mem_cons_self

theorem tail {region : MemoryRegion} {regions : List MemoryRegion} (sorted : SortedRegions (region::regions)) :
    SortedRegions regions :=
  ⟨fun other member => sorted.aligned other (List.mem_cons_of_mem _ member),(List.pairwise_cons.mp sorted.ascending).2⟩

/-- The frames of the later regions lie above a region that holds an address. -/
theorem later {region : MemoryRegion} {regions : List MemoryRegion} {frame : Nat}
    (sorted : SortedRegions (region::regions)) (held : region.startAddr < region.endAddr)
    (member : frame ∈ usableFrames regions) : region.endAddr ≤ frame := by
  obtain ⟨_,other,listed,_,start,stop⟩ := (mem_usableFrames sorted.tail _).mp member
  have apart := (List.pairwise_cons.mp sorted.ascending).1 other listed held (Nat.lt_of_le_of_lt start stop)
  exact Nat.le_trans apart start

theorem frames {memoryMap : List MemoryRegion} (sorted : SortedRegions memoryMap) :
    (usableFrames memoryMap).Pairwise (· < ·) := by
  induction memoryMap with
  | nil => exact List.Pairwise.nil
  | cons region regions ih =>
    apply List.pairwise_append.mpr
    refine ⟨frames_ascend region,ih sorted.tail,?_⟩
    intro early inside late member
    obtain ⟨_,_,start,stop⟩ := (mem_frames sorted.head.1 sorted.head.2 _).mp inside
    exact Nat.lt_of_lt_of_le stop (sorted.later (Nat.lt_of_le_of_lt start stop) member)

end SortedRegions

namespace BootInfoFrameAllocator

variable {crate : FrameCrate}

/-- One search hands out the least usable frame from the next address on, and steps over it. -/
theorem scan_spec (laws : crate.Laws) {nextAddr : Nat} {regions : List MemoryRegion} (sorted : SortedRegions regions)
    (aligned : pageSize ∣ nextAddr) :
    (scan crate nextAddr regions = .ok (none,nextAddr) ∧ ∀ frame ∈ usableFrames regions, frame < nextAddr) ∨
      ∃ frame, scan crate nextAddr regions = .ok (some frame,frame + pageSize) ∧
        Least (usableFrames regions) nextAddr frame := by
  induction regions with
  | nil => exact Or.inl ⟨rfl,by simp [usableFrames]⟩
  | cons region regions ih =>
    have both : usableFrames (region::regions) = region.frames ++ usableFrames regions := rfl
    have inside := mem_frames sorted.head.1 sorted.head.2
    rw [scan,both]
    by_cases usable : region.regionType = .usable
    swap
    · rw [if_pos usable]
      have none : region.frames = [] := if_neg usable
      rw [none,List.nil_append]
      exact ih sorted.tail
    rw [if_neg (not_not_intro usable)]
    generalize chosen : (if region.startAddr ≤ nextAddr then nextAddr else region.startAddr) = addr
    have place : nextAddr ≤ addr ∧ region.startAddr ≤ addr ∧ (addr = nextAddr ∨ addr = region.startAddr) := by
      split at chosen <;> omega
    by_cases fits : addr < region.endAddr
    · right
      have whole : pageSize ∣ addr := by
        cases place.2.2 with
        | inl same => exact same ▸ aligned
        | inr same => exact same ▸ sorted.head.1
      have small := region.physical
      refine ⟨addr,?_,?_⟩
      · rw [if_pos fits,add,if_pos (by unfold pageSize; omega),ok_bind,laws.physical addr (by omega),ok_bind,
          laws.aligned addr whole]
        rfl
      · refine ⟨List.mem_append_left _ ((inside addr).mpr ⟨usable,whole,place.2.1,fits⟩),place.1,?_⟩
        intro other member above
        cases List.mem_append.mp member with
        | inl early =>
          obtain ⟨_,_,start,_⟩ := (inside other).mp early
          omega
        | inr late =>
          have later := sorted.later (by omega) late
          omega
    · rw [if_neg fits]
      have passed : ∀ frame ∈ region.frames, frame < nextAddr := by
        intro frame member
        obtain ⟨_,_,start,stop⟩ := (inside frame).mp member
        omega
      cases ih sorted.tail with
      | inl exhausted =>
        refine Or.inl ⟨exhausted.1,?_⟩
        intro frame member
        exact (List.mem_append.mp member).elim (passed frame) (exhausted.2 frame)
      | inr found =>
        obtain ⟨frame,result,least⟩ := found
        refine Or.inr ⟨frame,result,List.mem_append_right _ least.mem,least.above,?_⟩
        intro other member above
        cases List.mem_append.mp member with
        | inl early => exact absurd above (Nat.not_le_of_lt (passed other early))
        | inr late => exact least.least other late above

def remaining (allocator : BootInfoFrameAllocator) : List Nat :=
  (usableFrames allocator.memoryMap).filter fun frame => allocator.nextAddr ≤ frame

/-- Between calls the next address is a page boundary, over a map that never changes. -/
structure Ready (memoryMap : List MemoryRegion) (allocator : BootInfoFrameAllocator) : Prop where
  map : allocator.memoryMap = memoryMap
  aligned : pageSize ∣ allocator.nextAddr

theorem allocateFrame_spec (laws : crate.Laws) {memoryMap : List MemoryRegion} {allocator : BootInfoFrameAllocator}
    (sorted : SortedRegions memoryMap) (ready : Ready memoryMap allocator) :
    ∃ next, allocator.allocateFrame crate = .ok (allocator.remaining.head?,next) ∧ Ready memoryMap next ∧
      next.remaining = allocator.remaining.tail := by
  obtain ⟨map,nextAddr⟩ := allocator
  obtain ⟨rfl,aligned⟩ := ready
  cases scan_spec laws sorted aligned with
  | inl exhausted =>
    have empty : remaining ⟨map,nextAddr⟩ = [] := filter_exhausted exhausted.2
    refine ⟨⟨map,nextAddr⟩,?_,⟨rfl,aligned⟩,by rw [empty]; rfl⟩
    rw [allocateFrame,exhausted.1,empty]
    rfl
  | inr found =>
    obtain ⟨frame,result,least⟩ := found
    have whole := fun other member => ((mem_usableFrames sorted other).mp member).1
    have first : remaining ⟨map,nextAddr⟩ = frame :: remaining ⟨map,frame + pageSize⟩ := by
      unfold remaining
      rw [filter_least sorted.frames least]
      congr 1
      apply List.filter_congr
      intro other member
      have step := whole other member
      have start := whole frame least.mem
      rw [decide_eq_decide]
      change frame < other ↔ frame + pageSize ≤ other
      unfold pageSize at *
      omega
    have boundary : pageSize ∣ frame + pageSize := Nat.dvd_add (whole frame least.mem) (Nat.dvd_refl _)
    refine ⟨⟨map,frame + pageSize⟩,?_,⟨rfl,boundary⟩,by rw [first]; rfl⟩
    rw [allocateFrame,result,first]
    rfl

theorem allocateFrames_spec (laws : crate.Laws) {memoryMap : List MemoryRegion} (sorted : SortedRegions memoryMap)
    (count : Nat) {allocator : BootInfoFrameAllocator} (ready : Ready memoryMap allocator) :
    ∃ next, allocateFrames crate count allocator =
      .ok ((List.range count).map fun i => allocator.remaining[i]?,next) := by
  induction count generalizing allocator with
  | zero => exact ⟨allocator,rfl⟩
  | succ count ih =>
    obtain ⟨next,first,kept,tail⟩ := allocateFrame_spec laws sorted ready
    obtain ⟨last,rest⟩ := ih kept
    refine ⟨last,?_⟩
    rw [allocateFrames,first,ok_bind]
    simp only [rest,ok_bind,tail,List.range_succ_eq_map,List.map_cons,List.map_map]
    congr 3
    · exact List.head?_eq_getElem?
    · apply List.map_congr_left
      intro i _
      exact List.getElem?_tail

end BootInfoFrameAllocator

def MemoryRegion.Apart (first second : MemoryRegion) : Prop :=
  first.startAddr < first.endAddr → second.startAddr < second.endAddr →
    first.endAddr ≤ second.startAddr ∨ second.endAddr ≤ first.startAddr

instance : Std.Symm MemoryRegion.Apart := ⟨fun _ _ apart start stop => (apart stop start).symm⟩

theorem SortedRegions.apart {memoryMap : List MemoryRegion} (sorted : SortedRegions memoryMap)
    {first second : MemoryRegion} (left : first ∈ memoryMap) (right : second ∈ memoryMap)
    (different : first ≠ second) : first.Apart second := by
  have pairs : memoryMap.Pairwise MemoryRegion.Apart := by
    apply sorted.ascending.imp
    intro early late below start stop
    exact Or.inl (below start stop)
  exact pairs.forall left right different

/-- Successive calls on a fresh allocator hand out the frames of the usable regions in
ascending order, each once, and nothing after them. -/
theorem frames_handed_out_once {crate : FrameCrate} (laws : crate.Laws) {memoryMap : List MemoryRegion}
    (sorted : SortedRegions memoryMap) :
    (∀ count, ∃ next, BootInfoFrameAllocator.allocateFrames crate count (.init memoryMap) =
      .ok ((List.range count).map fun i => (usableFrames memoryMap)[i]?,next)) ∧
    (usableFrames memoryMap).Pairwise (· < ·) ∧
    (∀ frame, frame ∈ usableFrames memoryMap ↔
      pageSize ∣ frame ∧ ∃ region ∈ memoryMap,
        region.regionType = .usable ∧ region.startAddr ≤ frame ∧ frame < region.endAddr) ∧
    ∀ frame ∈ usableFrames memoryMap, ∀ region ∈ memoryMap,
      region.regionType ≠ .usable → ¬(region.startAddr ≤ frame ∧ frame < region.endAddr) := by
  refine ⟨?_,sorted.frames,mem_usableFrames sorted,?_⟩
  · intro count
    have ready : BootInfoFrameAllocator.Ready memoryMap (.init memoryMap) := ⟨rfl,Nat.dvd_zero _⟩
    have all : (BootInfoFrameAllocator.init memoryMap).remaining = usableFrames memoryMap :=
      List.filter_eq_self.mpr (fun _ _ => decide_eq_true (Nat.zero_le _))
    rw [← all]
    exact BootInfoFrameAllocator.allocateFrames_spec laws sorted count ready
  · intro frame member other listed reserved range
    obtain ⟨_,region,inside,usable,start,stop⟩ := (mem_usableFrames sorted _).mp member
    have different : region ≠ other := by
      intro same
      exact reserved (same ▸ usable)
    have apart := sorted.apart inside listed different
      (Nat.lt_of_le_of_lt start stop) (Nat.lt_of_le_of_lt range.1 range.2)
    omega

def plainFrames : FrameCrate where
  physAddr := fun addr => if addr < 2^52 then .ok addr else .error .panic
  containingAddress := fun addr => addr - addr % pageSize

theorem plainFrames_laws : plainFrames.Laws where
  physical := fun _ small => if_pos small
  aligned := fun addr whole => by
    change addr - addr % pageSize = addr
    rw [Nat.mod_eq_zero_of_dvd whole,Nat.sub_zero]

/-- A usable region of two frames, an empty one and a reserved one that touches it. -/
theorem frames_handed_out_once_three :
    let memoryMap : List MemoryRegion :=
      [⟨4096,12288,.usable,by decide⟩,⟨12288,12288,.usable,by decide⟩,⟨12288,16384,.other 0,by decide⟩]
    SortedRegions memoryMap ∧
      ∃ next, BootInfoFrameAllocator.allocateFrames plainFrames 3 (.init memoryMap) =
        .ok ([some 4096,some 8192,none],next) := by
  have sorted : SortedRegions
      [⟨4096,12288,.usable,by decide⟩,⟨12288,12288,.usable,by decide⟩,⟨12288,16384,.other 0,by decide⟩] :=
    ⟨by simp [pageSize],by simp⟩
  exact ⟨sorted,(frames_handed_out_once plainFrames_laws sorted).1 3⟩

end PolarOs
