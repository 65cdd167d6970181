import Mathlib.Data.Char

/-! Reading hexadecimal digits in lower case. The digits of a number read back as the number, also
with zeros before them. -/
namespace Library.Hex

variable {digits : List Char} {c : Char} {n : Nat}

def digitValue (c : Char) : Option Nat :=
  if '0' ≤ c ∧ c ≤ '9' then some (c.toNat - 48)
  else if 'a' ≤ c ∧ c ≤ 'f' then some (c.toNat - 87)
  else none

def step (n : Nat) (c : Char) : Option Nat := (digitValue c).map (16 * n + ·)

/-- The number that the digits stand for. -/
def value (digits : List Char) : Option Nat := digits.foldlM step 0

def Digit (c : Char) : Prop := (digitValue c).isSome

theorem digitValue_digitChar (small : n < 16) : digitValue n.digitChar = some n := by
  have all : ∀ n < 16, digitValue n.digitChar = some n := by decide
  exact all n small

theorem value_concat (digits : List Char) (c : Char) : value (digits ++ [c]) = (value digits).bind (step · c) := by
  rw [value,List.foldlM_append]
  exact congrArg _ (funext fun n => bind_pure (step n c))

theorem value_toDigits (n : Nat) : value (Nat.toDigits 16 n) = some n := by
  induction n using Nat.strongRec with
  | ind n ih =>
    rcases Nat.lt_or_ge n 16 with small | large
    · rw [Nat.toDigits_of_lt_base small]
      simp [value,step,digitValue_digitChar small]
    · rw [Nat.toDigits_of_base_le (by decide) large,value_concat,ih _ (by omega),Option.bind_some,step,
        digitValue_digitChar (by omega),Option.map_some]
      exact congrArg some (Nat.div_add_mod n 16)

theorem value_zeros (k : Nat) (digits : List Char) : value (List.replicate k '0' ++ digits) = value digits := by
  induction k with
  | zero => rfl
  | succ k ih => exact ih

theorem digit_toDigits (n : Nat) : ∀ c ∈ Nat.toDigits 16 n, Digit c := by
  have digit (d : Nat) (small : d < 16) : Digit d.digitChar := by simp [Digit,digitValue_digitChar small]
  induction n using Nat.strongRec with
  | ind n ih =>
    rcases Nat.lt_or_ge n 16 with small | large
    · rw [Nat.toDigits_of_lt_base small]
      exact List.forall_mem_singleton.mpr (digit n small)
    · rw [Nat.toDigits_of_base_le (by decide) large]
      exact List.forall_mem_append.mpr ⟨ih _ (by omega),List.forall_mem_singleton.mpr (digit _ (by omega))⟩

theorem Digit.range (digit : Digit c) : 48 ≤ c.toNat ∧ c.toNat ≤ 57 ∨ 97 ≤ c.toNat ∧ c.toNat ≤ 102 := by
  unfold Digit digitValue at digit
  split at digit
  next small => exact Or.inl small
  next =>
    split at digit
    next large => exact Or.inr large
    next => cases digit

end Library.Hex
