import PolarOs.Library.Checked
import Mathlib.Algebra.Order.Ring.Int
import Mathlib.Algebra.Order.Group.Unbundled.Abs

/-! Checked arithmetic on signed sixteen-bit integers: a result outside the range
faults, and a result inside it is the result over the integers. -/
namespace Library.Signed
open Library.Checked

def checked (value : Int) : Checked Int16 :=
  if -2^15 ≤ value ∧ value < 2^15 then .ok (Int16.ofInt value) else .error .panic

def add (a b : Int16) : Checked Int16 := checked (a.toInt + b.toInt)

def sub (a b : Int16) : Checked Int16 := checked (a.toInt - b.toInt)

def mul (a b : Int16) : Checked Int16 := checked (a.toInt * b.toInt)

def neg (a : Int16) : Checked Int16 := checked (-a.toInt)

def abs (a : Int16) : Checked Int16 := checked |a.toInt|

theorem checked_ok {value : Int} {result : Int16} : checked value = .ok result ↔ result.toInt = value := by
  unfold checked
  constructor
  · intro computed
    split at computed
    next range =>
      rw [← Except.ok.inj computed]
      exact Int16.toInt_ofInt_of_le range.1 range.2
    next => cases computed
  · intro same
    have range : -2^15 ≤ value ∧ value < 2^15 := by
      rw [← same]
      exact ⟨result.le_toInt,result.toInt_lt⟩
    rw [if_pos range,← same,Int16.ofInt_toInt]

theorem checked_in_range {value : Int} (low : -2^15 ≤ value) (high : value < 2^15) :
    ∃ result, checked value = .ok result ∧ result.toInt = value :=
  ⟨Int16.ofInt value,if_pos ⟨low,high⟩,Int16.toInt_ofInt_of_le low high⟩

theorem add_ok {a b result : Int16} : add a b = .ok result ↔ result.toInt = a.toInt + b.toInt := checked_ok

theorem sub_ok {a b result : Int16} : sub a b = .ok result ↔ result.toInt = a.toInt - b.toInt := checked_ok

theorem mul_ok {a b result : Int16} : mul a b = .ok result ↔ result.toInt = a.toInt * b.toInt := checked_ok

/-- A value computed with `i32`. -/
def fit32 (value : Int) : Checked Int := if -2^31 ≤ value ∧ value < 2^31 then .ok value else .error .panic

/-- The quotient of two `i32`, rounded towards zero. -/
def div32 (a b : Int) : Checked Int := if b = 0 then .error .panic else fit32 (a.tdiv b)

theorem fit32_ok {value : Int} (low : -2^31 ≤ value) (high : value < 2^31) : fit32 value = .ok value := if_pos ⟨low,high⟩

theorem max_eq (a b : Int16) : max a b = if a ≤ b then b else a := rfl

theorem min_eq (a b : Int16) : min a b = if a ≤ b then a else b := rfl

@[simp] theorem toInt_max (a b : Int16) : (max a b).toInt = max a.toInt b.toInt := by
  rw [max_eq]
  split
  next below =>
    have := Int16.le_iff_toInt_le.mp below
    omega
  next above =>
    have := mt Int16.le_iff_toInt_le.mpr above
    omega

@[simp] theorem toInt_min (a b : Int16) : (min a b).toInt = min a.toInt b.toInt := by
  rw [min_eq]
  split
  next below =>
    have := Int16.le_iff_toInt_le.mp below
    omega
  next above =>
    have := mt Int16.le_iff_toInt_le.mpr above
    omega

instance lawfulMin : Std.LawfulOrderLeftLeaningMin Int16 := .of_eq min_eq

instance lawfulMax : Std.LawfulOrderLeftLeaningMax Int16 where
  max_eq_left a b below := by
    rw [← Int16.toInt_inj,toInt_max]
    have := Int16.le_iff_toInt_le.mp below
    omega
  max_eq_right a b above := by
    rw [← Int16.toInt_inj,toInt_max]
    have := mt Int16.le_iff_toInt_le.mpr above
    omega

/-- A small unsigned number keeps its value in a cast. -/
theorem toInt16_eq (a : UInt16) : a.toInt16 = Int16.ofNat a.toNat := by
  rw [← UInt16.toInt16_ofNat',UInt16.ofNat_toNat]

theorem toInt_of_small {a : UInt16} (small : a.toNat < 2^15) : a.toInt16.toInt = a.toNat := by
  rw [toInt16_eq,Int16.toInt_ofNat_of_lt small]

/-- From 2^15 on the cast gives a negative number. -/
theorem toNat_toInt (a : UInt16) : a.toInt16.toInt.toNat = if a.toNat < 2^15 then a.toNat else 0 := by
  split
  next small => rw [toInt_of_small small,Int.toNat_natCast]
  next large =>
    have bound := a.toNat_lt
    have size : Int16.size = 2^16 := rfl
    rw [toInt16_eq,Int16.toInt_ofNat',size,Int.bmod_def]
    omega

end Library.Signed
