import Mathlib.Data.Bool.Basic
import Mathlib.Data.List.Rotate
import Mathlib.Algebra.Group.Nat.Even

/-! Edges of a two-valued signal: each one turns the level that the ones before have left. -/
namespace Library.Alternating

variable {level : Bool} {first rest : List Bool}

/-- The level after the edges. -/
def after (level : Bool) (edges : List Bool) : Bool := edges.getLast?.getD level

def Alternates (level : Bool) : List Bool → Prop
  | [] => True
  | edge::edges => edge = !level ∧ Alternates edge edges

theorem after_cons (edge : Bool) (edges : List Bool) : after level (edge::edges) = after edge edges := by
  rw [after,after,List.getLast?_cons,Option.getD_some]

theorem after_append : after level (first ++ rest) = after (after level first) rest := by
  induction first generalizing level with
  | nil => rfl
  | cons edge first ih => rw [List.cons_append,after_cons,after_cons,ih]

theorem Alternates.append (turns : Alternates level first) (goesOn : Alternates (after level first) rest) :
    Alternates level (first ++ rest) := by
  induction first generalizing level with
  | nil => exact goesOn
  | cons edge first ih =>
    rw [after_cons] at goesOn
    exact ⟨turns.1,ih turns.2 goesOn⟩

/-- From one level to another with at most one edge. -/
theorem change_alternates (level next : Bool) :
    Alternates level (if next = level then [] else [next]) ∧
      after level (if next = level then [] else [next]) = next := by
  cases level <;> cases next <;> exact ⟨by simp [Alternates],rfl⟩

/-- How often a signal changes that comes after this level. -/
def changes (level : Bool) : List Bool → Nat
  | [] => 0
  | next::signal => (if level ≠ next then 1 else 0) + changes next signal

theorem even_changes_iff (level : Bool) (signal : List Bool) : Even (changes level signal) ↔ after level signal = level := by
  induction signal generalizing level with
  | nil => simp [changes,after]
  | cons next signal ih =>
    rw [changes,after_cons]
    split
    next turned =>
      rw [Nat.add_comm,Nat.even_add_one,ih]
      cases level <;> cases next <;> simp_all
    next same =>
      rw [Nat.zero_add,ih,not_not.mp same]

theorem countP_zip (first : Bool) (signal : List Bool) (last : Bool) :
    ((first::signal).zip (signal ++ [last])).countP (fun pair => pair.1 ≠ pair.2) = changes first (signal ++ [last]) := by
  induction signal generalizing first with
  | nil => simp [changes,List.countP_cons]
  | cons next signal ih =>
    rw [List.cons_append,List.zip_cons_cons,List.countP_cons,ih,changes,Nat.add_comm]
    simp

/-- Around a circle a signal changes an even number of times. -/
theorem even_cycle (signal : List Bool) :
    Even ((signal.zip (signal.rotate 1)).countP fun pair => pair.1 ≠ pair.2) := by
  cases signal with
  | nil => exact ⟨0,rfl⟩
  | cons first signal =>
    rw [List.rotate_cons_succ,List.rotate_zero,countP_zip,even_changes_iff]
    simp [after]

end Library.Alternating
