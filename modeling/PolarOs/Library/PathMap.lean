import Mathlib.Data.Set.Finite.Basic
import Mathlib.Logic.Function.Basic

/-! File trees as finite maps from absolute paths to nodes. The parent of a present
path is a directory; a change at one path keeps that shape when the parent is a
directory and nothing hangs below the path. -/
namespace Library

inductive Node (α : Type) where
  | dir
  | file (data : α)
deriving DecidableEq

structure PathMap (κ α : Type) where
  node : List κ → Option (Node α)
  root : node [] = some .dir
  parent : ∀ path name, node (path ++ [name]) ≠ none → node path = some .dir
  finite : {path | node path ≠ none}.Finite

namespace PathMap

variable {κ α : Type}

@[ext] theorem ext {first second : PathMap κ α} (same : ∀ path, first.node path = second.node path) :
    first = second := by
  cases first
  cases second
  congr
  exact funext same

def Childless (tree : PathMap κ α) (path : List κ) : Prop :=
  ∀ name, tree.node (path ++ [name]) = none

variable [DecidableEq κ]

/-- One path set to a new node, or to absent. -/
def set (tree : PathMap κ α) (path : List κ) (name : κ) (value : Option (Node α))
    (inDirectory : tree.node path = some .dir)
    (leaf : tree.Childless (path ++ [name]) ∨ value = some .dir) : PathMap κ α where
  node := Function.update tree.node (path ++ [name]) value
  root := by
    rw [Function.update_of_ne (by simp)]
    exact tree.root
  parent := by
    intro above last present
    by_cases here : above ++ [last] = path ++ [name]
    · obtain ⟨rfl,_⟩ := List.append_inj' here rfl
      rw [Function.update_of_ne (by simp)]
      exact inDirectory
    · rw [Function.update_of_ne here] at present
      by_cases changed : above = path ++ [name]
      · subst changed
        rcases leaf with childless | directory
        · exact absurd (childless last) present
        · rw [Function.update_self,directory]
      · rw [Function.update_of_ne changed]
        exact tree.parent above last present
  finite := by
    refine (tree.finite.insert (path ++ [name])).subset ?_
    intro other present
    by_cases here : other = path ++ [name]
    · exact Or.inl here
    · rw [Set.mem_ofPred_eq,Function.update_of_ne here] at present
      exact Or.inr present

@[simp] theorem set_node (tree : PathMap κ α) (path : List κ) (name : κ) (value : Option (Node α))
    (inDirectory : tree.node path = some .dir)
    (leaf : tree.Childless (path ++ [name]) ∨ value = some .dir) :
    (tree.set path name value inDirectory leaf).node =
      Function.update tree.node (path ++ [name]) value := rfl

omit [DecidableEq κ] in
theorem childless_of_not_dir (tree : PathMap κ α) {path : List κ}
    (plain : tree.node path ≠ some .dir) : tree.Childless path := by
  intro name
  by_contra present
  exact plain (tree.parent path name present)

inductive Removal where
  | removed
  | notFound
  | notEmpty
deriving DecidableEq

open Classical in
noncomputable def write (tree : PathMap κ α) (path : List κ) (name : κ) (data : α) : Bool × PathMap κ α :=
  if allowed : tree.node path = some .dir ∧ tree.node (path ++ [name]) ≠ some .dir then
    (true,tree.set path name (some (.file data)) allowed.1 (Or.inl (tree.childless_of_not_dir allowed.2)))
  else (false,tree)

open Classical in
/-- A new file or directory, allowed only where nothing is yet. -/
noncomputable def make (tree : PathMap κ α) (path : List κ) (name : κ) (value : Node α) : Bool × PathMap κ α :=
  if allowed : tree.node path = some .dir ∧ tree.node (path ++ [name]) = none then
    (true,tree.set path name (some value) allowed.1
      (Or.inl (tree.childless_of_not_dir (by rw [allowed.2]; exact nofun))))
  else (false,tree)

open Classical in
noncomputable def remove (tree : PathMap κ α) (path : List κ) (name : κ) : Removal × PathMap κ α :=
  if present : tree.node (path ++ [name]) ≠ none then
    if childless : tree.Childless (path ++ [name]) then
      (.removed,tree.set path name none (tree.parent path name present) (Or.inl childless))
    else (.notEmpty,tree)
  else (.notFound,tree)

omit [DecidableEq κ] in
/-- The directory above a directory is one; the root is above itself. -/
theorem dir_above (tree : PathMap κ α) {path : List κ} (directory : tree.node path = some .dir) :
    tree.node path.dropLast = some .dir := by
  rcases List.eq_nil_or_concat path with rfl | ⟨above,name,rfl⟩
  · exact tree.root
  · rw [List.concat_eq_append] at directory ⊢
    rw [List.dropLast_concat]
    apply tree.parent above name
    rw [directory]
    exact nofun

theorem set_keeps (tree : PathMap κ α) {path other : List κ} {name : κ} {value : Option (Node α)}
    {inDirectory : tree.node path = some .dir}
    {leaf : tree.Childless (path ++ [name]) ∨ value = some .dir} (apart : other ≠ path ++ [name]) :
    (tree.set path name value inDirectory leaf).node other = tree.node other := by
  rw [set_node,Function.update_of_ne apart]

theorem write_free (tree : PathMap κ α) {path : List κ} {name : κ} (data : α) (inDirectory : tree.node path = some .dir)
    (free : tree.node (path ++ [name]) ≠ some .dir) :
    (tree.write path name data).1 = true ∧
      (tree.write path name data).2.node = Function.update tree.node (path ++ [name]) (some (.file data)) := by
  rw [write,dif_pos ⟨inDirectory,free⟩]
  exact ⟨rfl,rfl⟩

theorem write_taken (tree : PathMap κ α) {path : List κ} {name : κ} (data : α)
    (taken : tree.node (path ++ [name]) = some .dir) : tree.write path name data = (false,tree) := by
  rw [write,dif_neg fun allowed => allowed.2 taken]

theorem remove_file (tree : PathMap κ α) {path : List κ} {name : κ} {data : α}
    (file : tree.node (path ++ [name]) = some (.file data)) :
    (tree.remove path name).2.node = Function.update tree.node (path ++ [name]) none := by
  have present : tree.node (path ++ [name]) ≠ none := by
    rw [file]
    exact Option.some_ne_none _
  have childless : tree.Childless (path ++ [name]) := by
    refine tree.childless_of_not_dir ?_
    rw [file]
    intro same
    cases same
  rw [remove,dif_pos present,dif_pos childless]
  rfl

theorem write_keeps_dir (tree : PathMap κ α) (path : List κ) (name : κ) (data : α) {other : List κ}
    (directory : tree.node other = some .dir) : (tree.write path name data).2.node other = some .dir := by
  unfold write
  split
  next allowed =>
    -- a write is refused where a directory stands
    have apart : other ≠ path ++ [name] := by
      intro equal
      subst equal
      exact allowed.2 directory
    rw [set_keeps tree apart,directory]
  next => exact directory

theorem make_keeps_dir (tree : PathMap κ α) (path : List κ) (name : κ) (value : Node α) {other : List κ}
    (directory : tree.node other = some .dir) : (tree.make path name value).2.node other = some .dir := by
  unfold make
  split
  next allowed =>
    have apart : other ≠ path ++ [name] := by
      intro equal
      subst equal
      rw [allowed.2] at directory
      exact nomatch directory
    rw [set_keeps tree apart,directory]
  next => exact directory

theorem remove_keeps (tree : PathMap κ α) (path : List κ) (name : κ) {other : List κ}
    (apart : other ≠ path ++ [name]) : (tree.remove path name).2.node other = tree.node other := by
  unfold remove
  split
  next =>
    split
    next => rw [set_keeps tree apart]
    next => rfl
  next => rfl

theorem remove_keeps_dir (tree : PathMap κ α) (path : List κ) (name : κ) {other : List κ}
    (apart : other ≠ path ++ [name]) (directory : tree.node other = some .dir) :
    (tree.remove path name).2.node other = some .dir :=
  (tree.remove_keeps path name apart).trans directory

end PathMap

end Library
