import Mathlib.Algebra.Order.Ring.Int
import Mathlib.Logic.Function.Iterate
import Mathlib.Tactic.Linarith
import Mathlib.Tactic.Ring

/-! A walk from the corner of a rectangle to the opposite one, steered by an error term as in
Bresenham's algorithm. The longer side advances in every step, the shorter one when the error
allows, and both arrive together. -/
namespace Library.LineWalk

variable {across down : Int} {n : Nat} {point : Int × Int}

/-- How far the next point is off the diagonal, scaled by the sides. -/
def error (across down : Int) (point : Int × Int) : Int := (point.2 + 1) * across - (point.1 + 1) * down

def next (across down : Int) (point : Int × Int) : Int × Int :=
  (if -down ≤ 2 * error across down point then point.1 + 1 else point.1,
    if 2 * error across down point ≤ across then point.2 + 1 else point.2)

def walk (across down : Int) (n : Nat) : Int × Int := (next across down)^[n] (0,0)

theorem walk_succ (across down : Int) (n : Nat) : walk across down (n + 1) = next across down (walk across down n) :=
  Function.iterate_succ_apply' ..

/-- The error after a step, as it is updated in place. -/
theorem error_next (across down : Int) (point : Int × Int) : error across down (next across down point) =
    error across down point - (if -down ≤ 2 * error across down point then down else 0) +
      if 2 * error across down point ≤ across then across else 0 := by
  rw [next]
  split_ifs <;> simp only [error] <;> ring

/-- After n steps. The longer side has advanced n times, and the error is within its bounds. -/
structure OnWalk (across down : Int) (n : Nat) (point : Int × Int) : Prop where
  column : 0 ≤ point.1 ∧ point.1 ≤ n
  row : 0 ≤ point.2 ∧ point.2 ≤ n
  flat : down ≤ across →
    point.1 = n ∧ -down ≤ 2 * error across down point ∧ 2 * error across down point ≤ 3 * across - 2 * down
  steep : across < down →
    point.2 = n ∧ 2 * across - 3 * down ≤ 2 * error across down point ∧ 2 * error across down point ≤ across

theorem onWalk_zero (right : 0 ≤ across) (low : 0 ≤ down) : OnWalk across down 0 (0,0) := by
  have start : error across down (0,0) = across - down := by simp [error]
  refine ⟨by simp,by simp,?_,?_⟩ <;> rw [start] <;> intro longer
  · exact ⟨rfl,by omega,by omega⟩
  · exact ⟨rfl,by omega,by omega⟩

theorem onWalk_next (right : 0 ≤ across) (low : 0 ≤ down) (on : OnWalk across down n point) :
    OnWalk across down (n + 1) (next across down point) := by
  have column := on.column
  have row := on.row
  have moved := error_next across down point
  refine ⟨?column,?row,?flat,?steep⟩
  case column =>
    dsimp only [next]
    split <;> omega
  case row =>
    dsimp only [next]
    split <;> omega
  case flat =>
    intro flat
    obtain ⟨taken,least,most⟩ := on.flat flat
    rw [if_pos least] at moved
    rw [moved,next,if_pos least]
    refine ⟨by omega,?_,?_⟩ <;> split <;> omega
  case steep =>
    intro steep
    obtain ⟨taken,least,most⟩ := on.steep steep
    rw [if_pos most] at moved
    rw [moved,next,if_pos most]
    refine ⟨by omega,?_,?_⟩ <;> split <;> omega

theorem onWalk (right : 0 ≤ across) (low : 0 ≤ down) (n : Nat) : OnWalk across down n (walk across down n) := by
  induction n with
  | zero => exact onWalk_zero right low
  | succ n ih =>
    rw [walk_succ]
    exact onWalk_next right low ih

/-- The error, doubled, stays within three sides. -/
theorem OnWalk.error_bounds (on : OnWalk across down n point) (right : 0 ≤ across) (low : 0 ≤ down) :
    -3 * down ≤ 2 * error across down point ∧ 2 * error across down point ≤ 3 * across := by
  rcases le_or_gt down across with flat | steep
  · obtain ⟨_,least,most⟩ := on.flat flat
    omega
  · obtain ⟨_,least,most⟩ := on.steep steep
    omega

/-- Until the longer side is through, the walk stays within the rectangle. -/
theorem OnWalk.inside (on : OnWalk across down n point) (right : 0 ≤ across) (low : 0 ≤ down)
    (within : n ≤ max across down) : point.1 ≤ across ∧ point.2 ≤ down := by
  have row := on.row
  have column := on.column
  rcases le_or_gt down across with flat | steep
  · obtain ⟨taken,_,most⟩ := on.flat flat
    refine ⟨by omega,?_⟩
    rcases eq_or_lt_of_le right with none | some
    · omega
    · have reached : point.1 * down ≤ across * down := mul_le_mul_of_nonneg_right (by omega) low
      have near : 2 * (point.2 + 1) * across ≤ (2 * down + 3) * across := by
        rw [error] at most
        linarith
      have := le_of_mul_le_mul_right near some
      omega
  · obtain ⟨taken,least,_⟩ := on.steep steep
    refine ⟨?_,by omega⟩
    have some : 0 < down := by omega
    have reached : point.2 * across ≤ down * across := mul_le_mul_of_nonneg_right (by omega) right
    have near : 2 * (point.1 + 1) * down ≤ (2 * across + 3) * down := by
      rw [error] at least
      linarith
    have := le_of_mul_le_mul_right near some
    omega

/-- Both sides are through after as many steps as the longer one has. -/
theorem OnWalk.arrives (on : OnWalk across down n point) (right : 0 ≤ across) (low : 0 ≤ down) :
    point = (across,down) ↔ n = max across down := by
  constructor
  · rintro rfl
    rcases le_or_gt down across with flat | steep
    · rw [max_eq_left flat]
      exact (on.flat flat).1.symm
    · rw [max_eq_right steep.le]
      exact (on.steep steep).1.symm
  · intro through
    have row := on.row
    have column := on.column
    obtain ⟨acrossMost,downMost⟩ := on.inside right low through.le
    rcases le_or_gt down across with flat | steep
    · obtain ⟨taken,least,_⟩ := on.flat flat
      rw [max_eq_left flat] at through
      refine Prod.ext (taken.trans through) (le_antisymm downMost ?_)
      rcases eq_or_lt_of_le low with none | some
      · omega
      · have beyond : down * across < (point.2 + 1) * across := by
          rw [error,taken,through] at least
          linarith
        have := lt_of_mul_lt_mul_right beyond right
        dsimp only
        omega
    · obtain ⟨taken,_,most⟩ := on.steep steep
      rw [max_eq_right steep.le] at through
      refine Prod.ext (le_antisymm acrossMost ?_) (taken.trans through)
      rcases eq_or_lt_of_le right with none | some
      · omega
      · have beyond : across * down < (point.1 + 1) * down := by
          rw [error,taken,through] at most
          linarith
        have := lt_of_mul_lt_mul_right beyond low
        dsimp only
        omega

end Library.LineWalk
