import Mathlib.Logic.Function.Basic

/-! Byte memory behind a page table. As long as no frame is mapped twice, storing through one
address changes what is read through that address and through no other. -/
namespace Library.Paging

variable {ρ : Type}

/-- What a page is mapped to, with its access rights. -/
structure Mapping (ρ : Type) where
  frame : Nat
  flags : ρ
deriving DecidableEq

abbrev Table (ρ : Type) := Nat → Option (Mapping ρ)

/-- The bytes of every frame. -/
abbrev Frames := Nat → Nat → UInt8

def read (size : Nat) (table : Table ρ) (frames : Frames) (address : Nat) : Option UInt8 :=
  (table (address / size)).map fun mapping => frames mapping.frame (address % size)

/-- A store to a page that is not mapped reaches no frame. -/
def store (size : Nat) (table : Table ρ) (address : Nat) (byte : UInt8) (frames : Frames) : Frames :=
  match table (address / size) with
  | some mapping =>
    Function.update frames mapping.frame (Function.update (frames mapping.frame) (address % size) byte)
  | none => frames

def storeBytes (size : Nat) (table : Table ρ) : Nat → List UInt8 → Frames → Frames
  | _,[],frames => frames
  | address,byte::bytes,frames => storeBytes size table (address + 1) bytes (store size table address byte frames)

theorem storeBytes_append (size : Nat) (table : Table ρ) (address : Nat) (before after : List UInt8) (frames : Frames) :
    storeBytes size table address (before ++ after) frames =
      storeBytes size table (address + before.length) after (storeBytes size table address before frames) := by
  induction before generalizing address frames with
  | nil => rfl
  | cons byte before ih =>
    rw [List.cons_append,storeBytes,storeBytes,ih,List.length_cons,Nat.add_assoc,Nat.add_comm 1]

def Distinct (table : Table ρ) : Prop :=
  ∀ page other mapping mapping', table page = some mapping → table other = some mapping' →
    mapping.frame = mapping'.frame → page = other

def Extends (first second : Table ρ) : Prop :=
  ∀ page mapping, first page = some mapping → second page = some mapping

variable {size : Nat} {table : Table ρ} {frames : Frames}

theorem Extends.refl (table : Table ρ) : Extends table table := fun _ _ found => found

theorem Extends.trans {first second third : Table ρ} (left : Extends first second) (right : Extends second third) :
    Extends first third := fun page mapping found => right page mapping (left page mapping found)

theorem Extends.isSome {first second : Table ρ} (extended : Extends first second) {page : Nat}
    (mapped : (first page).isSome) : (second page).isSome := by
  obtain ⟨mapping,found⟩ := Option.isSome_iff_exists.mp mapped
  rw [extended page mapping found]
  rfl

/-- What was readable stays as it was when pages are added. -/
theorem read_extends {first second : Table ρ} (extended : Extends first second) {address : Nat}
    (mapped : (first (address / size)).isSome) : read size second frames address = read size first frames address := by
  obtain ⟨mapping,found⟩ := Option.isSome_iff_exists.mp mapped
  rw [read,read,found,extended _ _ found]

theorem extends_update {page : Nat} (mapping : Mapping ρ) (absent : table page = none) :
    Extends table (Function.update table page (some mapping)) := by
  intro other old found
  have apart : other ≠ page := by
    rintro rfl
    rw [absent] at found
    cases found
  rw [Function.update_of_ne apart,found]

theorem distinct_update (distinct : Distinct table) {page : Nat} {mapping : Mapping ρ}
    (fresh : ∀ other old, table other = some old → old.frame ≠ mapping.frame) :
    Distinct (Function.update table page (some mapping)) := by
  intro first second left right leftFound rightFound same
  by_cases here : first = page
  · by_cases there : second = page
    · rw [here,there]
    · rw [here,Function.update_self] at leftFound
      rw [Function.update_of_ne there] at rightFound
      cases leftFound
      exact absurd same.symm (fresh second right rightFound)
  · rw [Function.update_of_ne here] at leftFound
    by_cases there : second = page
    · rw [there,Function.update_self] at rightFound
      cases rightFound
      exact absurd same (fresh first left leftFound)
    · rw [Function.update_of_ne there] at rightFound
      exact distinct first second left right leftFound rightFound same

theorem read_store_self {address : Nat} (mapped : (table (address / size)).isSome) (byte : UInt8) :
    read size table (store size table address byte frames) address = some byte := by
  obtain ⟨mapping,found⟩ := Option.isSome_iff_exists.mp mapped
  rw [read,store,found,Option.map_some]
  dsimp only
  rw [Function.update_self,Function.update_self]

theorem read_store_other (distinct : Distinct table) {address other : Nat} (byte : UInt8) (apart : other ≠ address) :
    read size table (store size table address byte frames) other = read size table frames other := by
  rw [store]
  split
  next mapping found =>
    rw [read,read]
    cases there : table (other / size) with
    | none => rfl
    | some mapping' =>
      rw [Option.map_some,Option.map_some,Option.some_inj]
      by_cases same : mapping'.frame = mapping.frame
      · have page := distinct _ _ _ _ there found same
        have place : other % size ≠ address % size := by
          intro offset
          apply apart
          rw [← Nat.div_add_mod other size,page,offset,Nat.div_add_mod]
        rw [same,Function.update_self,Function.update_of_ne place]
      · rw [Function.update_of_ne same]
  next => rfl

theorem read_storeBytes_outside (distinct : Distinct table) {address other : Nat} (bytes : List UInt8)
    (outside : other < address ∨ address + bytes.length ≤ other) :
    read size table (storeBytes size table address bytes frames) other = read size table frames other := by
  induction bytes generalizing address frames with
  | nil => rfl
  | cons byte bytes ih =>
    rw [List.length_cons] at outside
    rw [storeBytes,ih (by omega),read_store_other distinct byte (by omega)]

theorem read_storeBytes_inside (distinct : Distinct table) {address : Nat} {bytes : List UInt8}
    (mapped : ∀ i < bytes.length, (table ((address + i) / size)).isSome) {i : Nat} (bound : i < bytes.length) :
    read size table (storeBytes size table address bytes frames) (address + i) = bytes[i]? := by
  induction bytes generalizing address frames i with
  | nil => cases bound
  | cons byte bytes ih =>
    rw [storeBytes]
    cases i with
    | zero =>
      change read size table _ address = some byte
      rw [read_storeBytes_outside distinct bytes (Or.inl (Nat.lt_add_one address))]
      exact read_store_self (mapped 0 bound) byte
    | succ i =>
      have later : ∀ j < bytes.length, (table ((address + 1 + j) / size)).isSome := by
        intro j below
        rw [Nat.add_assoc,Nat.add_comm 1 j]
        exact mapped (j + 1) (Nat.succ_lt_succ below)
      have place : address + (i + 1) = address + 1 + i := by omega
      rw [place,ih later (Nat.lt_of_succ_lt_succ bound),List.getElem?_cons_succ]

end Library.Paging
