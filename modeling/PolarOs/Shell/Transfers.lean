import PolarOs.Fs.Refinement
import PolarOs.Shell.Commands

/-! `cp` and `mv` on the tree of files. Both write before anything is removed, so that a
refused write leaves the source where it is. -/
namespace PolarOs
open Library

variable {fs written : RamFs} {cwd : List Str} {src dst name : Str} {data : Bytes}

/-- One path has become a file with these bytes, and all others are as they were. -/
structure Copied (before after : PathMap Str Bytes) (target : List Str) (data : Bytes) : Prop where
  arrived : after.node target = some (.file data)
  others : ∀ path, path ≠ target → after.node path = before.node path

structure Moved (before after : PathMap Str Bytes) (source target : List Str) (data : Bytes) : Prop where
  arrived : after.node target = some (.file data)
  gone : after.node source = none
  others : ∀ path, path ≠ target → path ≠ source → after.node path = before.node path

theorem write_copies (inDirectory : fs.tree.node cwd = some .dir) (free : fs.tree.node (cwd ++ [name]) ≠ some .dir)
    (data : Bytes) : ∃ written, fs.write cwd name data = (true,written) ∧
      Copied fs.tree written.tree (cwd ++ [name]) data := by
  obtain ⟨accepted,node⟩ := fs.tree.write_free data inDirectory free
  obtain ⟨answer,tree⟩ := fs.write_refines cwd name data
  refine ⟨(fs.write cwd name data).2,Prod.ext (answer.trans accepted) rfl,⟨?_,?_⟩⟩
  · rw [tree,node,Function.update_self]
  · intro path other
    rw [tree,node,Function.update_of_ne other]

theorem write_refused (taken : fs.tree.node (cwd ++ [name]) = some .dir) (data : Bytes) :
    fs.write cwd name data = (false,fs) := by
  obtain ⟨answer,tree⟩ := fs.write_refines cwd name data
  rw [fs.tree.write_taken data taken] at answer tree
  exact Prod.ext answer (RamFs.tree_injective tree)

theorem Copied.remove {before : PathMap Str Bytes} (copied : Copied before written.tree (cwd ++ [dst]) data)
    (source : before.node (cwd ++ [src]) = some (.file data)) (apart : src ≠ dst) :
    Moved before (written.remove cwd src).2.tree (cwd ++ [src]) (cwd ++ [dst]) data := by
  have paths : cwd ++ [src] ≠ cwd ++ [dst] := fun same => apart (List.singleton_inj.mp (List.append_cancel_left same))
  have kept : written.tree.node (cwd ++ [src]) = some (.file data) := (copied.others _ paths).trans source
  have node := written.tree.remove_file kept
  rw [← (written.remove_refines cwd src).2] at node
  refine ⟨?arrived,?gone,?others⟩
  case arrived => rw [node,Function.update_of_ne paths.symm,copied.arrived]
  case gone => rw [node,Function.update_self]
  case others =>
    intro path other different
    rw [node,Function.update_of_ne different,copied.others path other]

theorem cmdCp_arguments (word : ' ' ∉ src) (trimmed : Str.trim dst = dst) :
    (cmdCp fs (src ++ ' ' :: dst) cwd).2 =
      match fs.read cwd src with
      | none => fs
      | some data => (fs.write cwd dst data).2 := by
  rw [cmdCp,Str.splitOnce_append word]
  dsimp only
  rw [trimmed]
  cases fs.read cwd src with
  | none => rfl
  | some data =>
    dsimp only
    split
    next written same => rw [same]
    next written same => rw [same]

theorem cmdMv_arguments (word : ' ' ∉ src) (trimmed : Str.trim dst = dst) :
    (cmdMv fs (src ++ ' ' :: dst) cwd).2 =
      if src = dst then fs
      else match fs.read cwd src with
        | none => fs
        | some data => if (fs.write cwd dst data).1 then ((fs.write cwd dst data).2.remove cwd src).2
          else (fs.write cwd dst data).2 := by
  rw [cmdMv,Str.splitOnce_append word]
  dsimp only
  rw [trimmed]
  split
  next => rfl
  next =>
    cases fs.read cwd src with
    | none => rfl
    | some data =>
      dsimp only
      split
      next written same => rw [same,if_pos rfl]
      next written same => rw [same,if_neg Bool.false_ne_true]

/-- What the two commands do to the tree. -/
theorem transfer_loses_nothing (fs : RamFs) (cwd : List Str) {src dst : Str} (word : ' ' ∉ src)
    (trimmed : Str.trim dst = dst) :
    ((∀ data, fs.tree.node (cwd ++ [src]) ≠ some (.file data)) ∨ fs.tree.node (cwd ++ [dst]) = some .dir →
      (cmdCp fs (src ++ ' ' :: dst) cwd).2 = fs ∧ (cmdMv fs (src ++ ' ' :: dst) cwd).2 = fs) ∧
    (∀ data, fs.tree.node (cwd ++ [src]) = some (.file data) → fs.tree.node (cwd ++ [dst]) ≠ some .dir →
      Copied fs.tree (cmdCp fs (src ++ ' ' :: dst) cwd).2.tree (cwd ++ [dst]) data ∧
      (src ≠ dst →
        Moved fs.tree (cmdMv fs (src ++ ' ' :: dst) cwd).2.tree (cwd ++ [src]) (cwd ++ [dst]) data)) ∧
    (src = dst → (cmdMv fs (src ++ ' ' :: dst) cwd).2 = fs) := by
  rw [cmdCp_arguments word trimmed,cmdMv_arguments word trimmed]
  refine ⟨?refused,?accepted,fun same => if_pos same⟩
  case refused =>
    intro refused
    cases found : fs.read cwd src with
    | none => exact ⟨rfl,ite_self _⟩
    | some data =>
      rcases refused with missing | taken
      · exact absurd ((fs.read_refines cwd src data).mp found) (missing data)
      · dsimp only
        rw [write_refused taken data]
        exact ⟨rfl,ite_self _⟩
  case accepted =>
    intro data source free
    have found := (fs.read_refines cwd src data).mpr source
    have inDirectory : fs.tree.node cwd = some .dir := by
      refine fs.tree.parent cwd src ?_
      rw [source]
      exact Option.some_ne_none _
    obtain ⟨written,accepted,copied⟩ := write_copies inDirectory free data
    rw [found]
    dsimp only
    rw [accepted]
    refine ⟨copied,?_⟩
    intro apart
    rw [if_neg apart,if_pos rfl]
    exact copied.remove source apart

theorem moved_to_new_name :
    Moved (RamFs.new.write [] (lit "a") [1]).2.tree
      (cmdMv (RamFs.new.write [] (lit "a") [1]).2 (lit "a" ++ ' ' :: lit "b c") []).2.tree
      [lit "a"] [lit "b c"] [1] := by
  have source : (RamFs.new.write [] (lit "a") [1]).2.tree.node ([] ++ [lit "a"]) = some (.file [1]) :=
    (RamFs.read_refines ..).mp rfl
  have free : (RamFs.new.write [] (lit "a") [1]).2.tree.node ([] ++ [lit "b c"]) ≠ some .dir :=
    fun directory => absurd ((RamFs.isDir_refines ..).mpr directory) (by decide)
  exact ((transfer_loses_nothing _ [] (by decide) (by decide)).2.1 [1] source free).2 (by decide)

end PolarOs
