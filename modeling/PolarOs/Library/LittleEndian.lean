import Mathlib.Tactic.Ring

/-! Little-endian words of a fixed number of bytes. Encoding truncates to the width;
decoding inverts it on numbers that fit. -/
namespace Library.LittleEndian

def encode : Nat → Nat → List UInt8
  | 0,_ => []
  | width+1,number => UInt8.ofNat number :: encode width (number / 256)

def decode : List UInt8 → Nat
  | [] => 0
  | byte::rest => byte.toNat + 256 * decode rest

@[simp] theorem length_encode (width number : Nat) : (encode width number).length = width := by
  induction width generalizing number with
  | zero => rfl
  | succ width ih => simp [encode,ih]

theorem decode_encode (width number : Nat) (fits : number < 256^width) :
    decode (encode width number) = number := by
  induction width generalizing number with
  | zero =>
    have zero : number = 0 := by simpa using fits
    simp [encode,decode,zero]
  | succ width ih =>
    have quotient : number / 256 < 256^width := by
      rw [Nat.div_lt_iff_lt_mul (by omega),← Nat.pow_succ]
      exact fits
    simp only [encode,decode,ih _ quotient,UInt8.toNat_ofNat']
    omega

theorem decode_lt (bytes : List UInt8) : decode bytes < 256^bytes.length := by
  induction bytes with
  | nil => exact Nat.one_pos
  | cons byte rest ih =>
    have small := byte.toNat_lt
    rw [decode,List.length_cons,Nat.pow_succ]
    omega

theorem encode_decode (bytes : List UInt8) : encode bytes.length (decode bytes) = bytes := by
  induction bytes with
  | nil => rfl
  | cons byte rest ih =>
    have small := byte.toNat_lt
    have quotient : decode (byte::rest) / 256 = decode rest := by
      rw [decode]
      omega
    have low : UInt8.ofNat (decode (byte::rest)) = byte := by
      rw [decode,← UInt8.toNat_inj,UInt8.toNat_ofNat']
      omega
    rw [List.length_cons,encode,quotient,low,ih]

end Library.LittleEndian
