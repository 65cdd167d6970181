import PolarOs.Library.Checked
import PolarOs.Library.Recent
import PolarOs.Text

/-! The command history of the shell (`CommandHistory` in `shell/mod.rs`): its newest entries
and a cursor that the arrow keys move over them. -/
namespace PolarOs
open Library Library.Checked

def historyMax : Nat := 16

structure CommandHistory where
  entries : List Str
  cursor : Nat
deriving DecidableEq

namespace CommandHistory

def new : CommandHistory := ⟨[],0⟩

def push (history : CommandHistory) (cmd : Str) : CommandHistory :=
  if history.entries.getLast? = some cmd then {history with cursor := history.entries.length}
  else
    let entries := if historyMax ≤ history.entries.length then history.entries.drop 1 else history.entries
    ⟨entries ++ [cmd],(entries ++ [cmd]).length⟩

/-- The arrow up; the entry is looked up where the cursor is then. -/
def up (history : CommandHistory) : Checked (Option Str × CommandHistory) :=
  if history.entries.isEmpty then .ok (none,history)
  else do
    let cursor := if 0 < history.cursor then history.cursor - 1 else history.cursor
    let entry ← index history.entries cursor
    return (some entry,{history with cursor})

def down (history : CommandHistory) : Checked (Option Str × CommandHistory) :=
  if history.entries.length ≤ history.cursor then .ok (none,history)
  else do
    let history := {history with cursor := history.cursor + 1}
    if history.cursor < history.entries.length then
      let entry ← index history.entries history.cursor
      return (some entry,history)
    return (none,history)

inductive Call where
  | push (cmd : Str)
  | up
  | down

def Call.pushed : Call → List Str
  | .push cmd => [cmd]
  | .up | .down => []

def call (history : CommandHistory) : Call → Checked (Option Str × CommandHistory)
  | .push cmd => .ok (none,history.push cmd)
  | .up => history.up
  | .down => history.down

def run : List Call → CommandHistory → Checked CommandHistory
  | [],history => .ok history
  | next::calls,history => do
    let (_,history) ← history.call next
    run calls history

variable {history next : CommandHistory} {commands : List Str} {cmd : Str}

/-! Both arrows find the entry at the cursor that they leave, and none behind the last one. -/

theorem up_ok (bounded : history.cursor ≤ history.entries.length) :
    history.up = .ok (history.entries[history.cursor - 1]?,{history with cursor := history.cursor - 1}) := by
  rw [up]
  split
  next empty =>
    rw [List.isEmpty_iff] at empty
    have start : history.cursor = 0 := by simpa [empty] using bounded
    cases history
    simp_all
  next present =>
    have some : 0 < history.entries.length := List.length_pos_iff.mpr (mt List.isEmpty_iff.mpr present)
    have moved : (if 0 < history.cursor then history.cursor - 1 else history.cursor) = history.cursor - 1 := by
      split <;> omega
    have inside : history.cursor - 1 < history.entries.length := by omega
    simp [moved,index_lt inside,inside,pure,Except.pure]

theorem down_ok (bounded : history.cursor ≤ history.entries.length) :
    history.down = .ok (history.entries[history.cursor + 1]?,
      {history with cursor := min (history.cursor + 1) history.entries.length}) := by
  rw [down]
  split
  next behind =>
    have last : min (history.cursor + 1) history.entries.length = history.cursor := by omega
    have none : history.entries[history.cursor + 1]? = none := List.getElem?_eq_none (by omega)
    rw [none,last]
  next before =>
    have next : min (history.cursor + 1) history.entries.length = history.cursor + 1 := by omega
    dsimp only
    split
    next inside => simp [index_lt inside,inside,next,pure,Except.pure]
    next outside => simp [next,outside,pure,Except.pure]

/-- The entries and the cursor after these commands were pushed. -/
structure Keeps (history : CommandHistory) (commands : List Str) : Prop where
  entries : history.entries = (commands.destutter (· ≠ ·)).rtake historyMax
  bounded : history.cursor ≤ history.entries.length

/-- Dropping the oldest entry makes room for one. -/
theorem entries_push (full : history.entries.length ≤ historyMax) :
    (if historyMax ≤ history.entries.length then history.entries.drop 1 else history.entries) ++ [cmd] =
      (history.entries ++ [cmd]).rtake historyMax := by
  split
  next full' =>
    have one : (history.entries ++ [cmd]).length - historyMax = 1 := by
      rw [List.length_append,List.length_singleton]
      omega
    have some : 1 ≤ history.entries.length := Nat.le_trans (by decide) full'
    rw [List.rtake,one,List.drop_append_of_le_length some]
  next room =>
    refine (Recent.rtake_of_length_le ?_).symm
    rw [List.length_append,List.length_singleton]
    omega

theorem push_keeps (held : history.Keeps commands) (cmd : Str) : (history.push cmd).Keeps (commands ++ [cmd]) := by
  have newest : history.entries.getLast? = commands.getLast? := by
    rw [held.entries,Recent.getLast?_rtake (by decide),Recent.getLast?_destutter]
  have full : history.entries.length ≤ historyMax := by
    rw [held.entries,Recent.length_rtake]
    exact Nat.min_le_left _ _
  rw [push,newest]
  split
  next repeated =>
    refine ⟨?_,Nat.le_refl _⟩
    rw [Recent.destutter_concat,if_pos repeated]
    exact held.entries
  next other =>
    refine ⟨?_,Nat.le_refl _⟩
    rw [Recent.destutter_concat,if_neg other]
    dsimp only
    rw [entries_push full,held.entries,Recent.rtake_rtake_append]

theorem call_keeps (held : history.Keeps commands) (call : Call) :
    ∃ answer next, history.call call = .ok (answer,next) ∧ next.Keeps (commands ++ call.pushed) := by
  cases call with
  | push cmd => exact ⟨_,_,rfl,push_keeps held cmd⟩
  | up =>
    refine ⟨_,_,up_ok held.bounded,?_⟩
    rw [Call.pushed,List.append_nil]
    exact ⟨held.entries,Nat.le_trans (Nat.sub_le _ _) held.bounded⟩
  | down =>
    refine ⟨_,_,down_ok held.bounded,?_⟩
    rw [Call.pushed,List.append_nil]
    exact ⟨held.entries,Nat.min_le_right _ _⟩

theorem run_keeps (held : history.Keeps commands) (calls : List Call) :
    ∃ next, run calls history = .ok next ∧ next.Keeps (commands ++ calls.flatMap Call.pushed) := by
  induction calls generalizing history commands with
  | nil => exact ⟨history,rfl,by simpa using held⟩
  | cons call calls ih =>
    obtain ⟨answer,middle,called,kept⟩ := call_keeps held call
    obtain ⟨next,ran,last⟩ := ih kept
    refine ⟨next,?_,?_⟩
    · rw [run,called]
      exact ran
    · rw [List.flatMap_cons,← List.append_assoc]
      exact last

theorem run_ups (bounded : history.cursor ≤ history.entries.length) (k : Nat) :
    run (List.replicate k .up) history = .ok {history with cursor := history.cursor - k} := by
  induction k generalizing history with
  | zero => rfl
  | succ k ih =>
    have moved := @ih {history with cursor := history.cursor - 1} (Nat.le_trans (Nat.sub_le _ _) bounded)
    rw [List.replicate_succ,run,call,up_ok bounded,ok_bind]
    dsimp only
    rw [moved,Nat.sub_sub,Nat.add_comm 1]

theorem push_newest (history : CommandHistory) (cmd : Str) :
    (history.push cmd).entries ≠ [] ∧ (history.push cmd).cursor = (history.push cmd).entries.length := by
  rw [push]
  split
  next repeated =>
    refine ⟨?_,rfl⟩
    intro empty
    rw [empty] at repeated
    cases repeated
  next => exact ⟨by simp,rfl⟩

/-- From behind the newest entry back to the oldest. -/
theorem ups_from_end (present : history.entries ≠ []) (newest : history.cursor = history.entries.length) (k : Nat) :
    ∃ before entry after, run (List.replicate k .up) history = .ok before ∧ before.up = .ok (some entry,after) ∧
      history.entries.reverse[min k (history.entries.length - 1)]? = some entry := by
  have long : 0 < history.entries.length := List.length_pos_iff.mpr present
  have inside : history.cursor - k - 1 < history.entries.length := by omega
  have place : history.entries.length - 1 - min k (history.entries.length - 1) = history.cursor - k - 1 := by omega
  have moved := @up_ok {history with cursor := history.cursor - k} (Nat.le_trans (Nat.sub_le _ _) newest.le)
  rw [List.getElem?_eq_getElem inside] at moved
  refine ⟨_,_,_,run_ups newest.le k,moved,?_⟩
  rw [List.getElem?_reverse (by omega),place,List.getElem?_eq_getElem inside]

/-- Any calls, then what the arrows give. -/
theorem calls_keep_newest (calls : List Call) :
    ∃ history, run calls new = .ok history ∧
      history.entries = ((calls.flatMap Call.pushed).destutter (· ≠ ·)).rtake historyMax ∧
      history.cursor ≤ history.entries.length ∧
      (∀ cmd k, ∃ before entry after,
        run (.push cmd :: List.replicate k .up) history = .ok before ∧ before.up = .ok (some entry,after) ∧
        (history.push cmd).entries.reverse[min k ((history.push cmd).entries.length - 1)]? = some entry) ∧
      (0 < history.cursor → ∃ entry before after,
        history.up = .ok (some entry,before) ∧ before.cursor + 1 = history.cursor ∧
        before.down = .ok (history.entries[history.cursor]?,after)) := by
  have start : new.Keeps [] := ⟨rfl,Nat.le_refl _⟩
  obtain ⟨history,ran,kept⟩ := run_keeps start calls
  refine ⟨history,ran,kept.entries,kept.bounded,?ups,?down⟩
  case ups =>
    intro cmd k
    obtain ⟨present,newest⟩ := push_newest history cmd
    exact ups_from_end present newest k
  case down =>
    intro moved
    have bounded := kept.bounded
    have inside : history.cursor - 1 < history.entries.length := by omega
    have back := @down_ok {history with cursor := history.cursor - 1} (Nat.le_trans (Nat.sub_le _ _) bounded)
    dsimp only at back
    rw [Nat.sub_add_cancel moved] at back
    have first := up_ok bounded
    rw [List.getElem?_eq_getElem inside] at first
    exact ⟨_,_,_,first,Nat.sub_add_cancel moved,back⟩

end CommandHistory

end PolarOs
