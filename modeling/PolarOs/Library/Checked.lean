import Mathlib.Algebra.Group.Nat.Defs

/-! Computations that may stop in a fault: an operation whose guard failed, or a
recursion whose fuel was too small. Indexing, slicing and fixed-width arithmetic
fault instead of returning a default, so a total result means that no guard failed. -/
namespace Library.Checked

inductive Fault where
  | panic
  | fuel
deriving DecidableEq, Repr

abbrev Checked := Except Fault

def index {α : Type} (items : List α) (i : Nat) : Checked α :=
  match items[i]? with
  | some item => .ok item
  | none => .error .panic

def store {α : Type} (items : List α) (i : Nat) (item : α) : Checked (List α) :=
  if i < items.length then .ok (items.set i item) else .error .panic

def slice {α : Type} (items : List α) (start stop : Nat) : Checked (List α) :=
  if start ≤ stop ∧ stop ≤ items.length then .ok ((items.take stop).drop start)
  else .error .panic

def add (bits a b : Nat) : Checked Nat :=
  if a + b < 2^bits then .ok (a + b) else .error .panic

def sub (a b : Nat) : Checked Nat :=
  if b ≤ a then .ok (a - b) else .error .panic

def mul (bits a b : Nat) : Checked Nat :=
  if a * b < 2^bits then .ok (a * b) else .error .panic

theorem bind_ok {α β : Type} {first : Checked α} {next : α → Checked β} {result : β} :
    (first >>= next) = .ok result ↔ ∃ value, first = .ok value ∧ next value = .ok result := by
  cases first with
  | error fault => simp [bind,Except.bind]
  | ok value => simp [bind,Except.bind]

@[simp] theorem ok_bind {α β : Type} (value : α) (next : α → Checked β) :
    ((.ok value : Checked α) >>= next) = next value := rfl

/-- A computation that returns has the properties of what it returns. -/
theorem exists_ok_iff {α : Type} {computation : Checked α} {value : α} (ran : computation = .ok value) (property : α → Prop) :
    (∃ result, computation = .ok result ∧ property result) ↔ property value := by
  simp [ran]

/-- So a property of what it returns can be decided by running it. -/
instance {α : Type} (computation : Checked α) (property : α → Prop) [DecidablePred property] :
    Decidable (∃ result, computation = .ok result ∧ property result) :=
  match computation with
  | .ok value => decidable_of_iff (property value) (exists_ok_iff rfl property).symm
  | .error _ => .isFalse (by simp)

theorem map_of_bind {α β γ : Type} (first : Checked α) (next : α → Checked β) (f : β → γ) :
    (first >>= next).map f = first >>= fun value => (next value).map f := by
  cases first <;> rfl

theorem add_eq_ok {bits a b result : Nat} : add bits a b = .ok result ↔ a + b < 2^bits ∧ result = a + b := by
  rw [add]
  split
  next fits => simp [fits,eq_comm]
  next large => simp [large]

theorem sub_eq_ok {a b result : Nat} : sub a b = .ok result ↔ b ≤ a ∧ result = a - b := by
  rw [sub]
  split
  next below => simp [below,eq_comm]
  next above => simp [above]

theorem mul_eq_ok {bits a b result : Nat} : mul bits a b = .ok result ↔ a * b < 2^bits ∧ result = a * b := by
  rw [mul]
  split
  next fits => simp [fits,eq_comm]
  next large => simp [large]

theorem map_eq_ok {α β : Type} {first : Checked α} {f : α → β} {result : β} :
    first.map f = .ok result ↔ ∃ value, first = .ok value ∧ f value = result := by
  cases first with
  | error fault => simp [Except.map]
  | ok value => simp [Except.map]

theorem map_eq_error {α β : Type} {first : Checked α} {f : α → β} {fault : Fault} :
    first.map f = .error fault ↔ first = .error fault := by
  cases first with
  | error other => simp [Except.map]
  | ok value => simp [Except.map]

theorem slice_eq_ok {α : Type} {items result : List α} {start stop : Nat} :
    slice items start stop = .ok result ↔
      (start ≤ stop ∧ stop ≤ items.length) ∧ result = (items.take stop).drop start := by
  rw [slice]
  split
  next bounds => simp [bounds,eq_comm]
  next outside => simp [outside]

theorem index_ok {α : Type} {items : List α} {i : Nat} {item : α} :
    index items i = .ok item ↔ items[i]? = some item := by
  unfold index
  cases items[i]? <;> simp

theorem index_lt {α : Type} {items : List α} {i : Nat} (bound : i < items.length) :
    index items i = .ok items[i] := by
  simp [index,bound]

theorem store_lt {α : Type} {items : List α} {i : Nat} {item : α} (bound : i < items.length) :
    store items i item = .ok (items.set i item) := if_pos bound

theorem slice_ok {α : Type} {items : List α} {start stop : Nat}
    (ordered : start ≤ stop) (bound : stop ≤ items.length) :
    slice items start stop = .ok ((items.take stop).drop start) :=
  slice_eq_ok.mpr ⟨⟨ordered,bound⟩,rfl⟩

end Library.Checked
