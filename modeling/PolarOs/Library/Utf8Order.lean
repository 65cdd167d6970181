import PolarOs.Library.Utf8
import Mathlib.Data.Char
import Mathlib.Data.List.Lex
import Mathlib.Tactic.SplitIfs

/-! UTF-8 keeps the order of text: comparing bytes is comparing characters. -/
namespace Library.Utf8

/-- Two byte strings that first differ at a byte the first has smaller. -/
inductive Precedes : List UInt8 → List UInt8 → Prop
  | here {x y : UInt8} (less : x < y) (s t : List UInt8) : Precedes (x::s) (y::t)
  | later (x : UInt8) {s t : List UInt8} (rest : Precedes s t) : Precedes (x::s) (x::t)

theorem Precedes.append {s t : List UInt8} (first : Precedes s t) (u v : List UInt8) : s ++ u < t ++ v := by
  induction first with
  | here less s t => exact List.Lex.rel less
  | later x rest ih => exact List.Lex.cons ih

theorem precedes_cons {a b : Nat} {s t : List UInt8} (bound : b < 256) (most : a ≤ b)
    (rest : a = b → Precedes s t) : Precedes (UInt8.ofNat a::s) (UInt8.ofNat b::t) := by
  by_cases same : a = b
  · rw [same]
    exact .later _ (rest same)
  · apply Precedes.here
    rw [UInt8.lt_iff_toNat_lt,UInt8.toNat_ofNat',UInt8.toNat_ofNat']
    omega

theorem precedes_encodeChar {c d : Char} (less : c.toNat < d.toNat) :
    Precedes (String.utf8EncodeChar c) (String.utf8EncodeChar d) := by
  have top : d.toNat < 0x110000 := by
    have valid := d.valid
    simp only [UInt32.isValidChar, Nat.isValidChar] at valid
    change d.val.toNat < _
    omega
  unfold String.utf8EncodeChar
  change c.val.toNat < d.val.toNat at less
  change d.val.toNat < _ at top
  generalize c.val.toNat = v at *
  generalize d.val.toNat = w at *
  dsimp only
  split_ifs
  · exact precedes_cons (by omega) (by omega) (by omega)
  · exact precedes_cons (by omega) (by omega) (by omega)
  · exact precedes_cons (by omega) (by omega) (by omega)
  · exact precedes_cons (by omega) (by omega) (by omega)
  · omega
  · exact precedes_cons (by omega) (by omega) fun lead => precedes_cons (by omega) (by omega) (by omega)
  · exact precedes_cons (by omega) (by omega) (by omega)
  · exact precedes_cons (by omega) (by omega) (by omega)
  · omega
  · omega
  · exact precedes_cons (by omega) (by omega) fun lead => precedes_cons (by omega) (by omega) fun middle =>
      precedes_cons (by omega) (by omega) (by omega)
  · exact precedes_cons (by omega) (by omega) (by omega)
  · omega
  · omega
  · omega
  · exact precedes_cons (by omega) (by omega) fun lead => precedes_cons (by omega) (by omega) fun middle =>
      precedes_cons (by omega) (by omega) fun later => precedes_cons (by omega) (by omega) (by omega)

theorem encode_cons (c : Char) (text : List Char) : encode (c::text) = String.utf8EncodeChar c ++ encode text :=
  List.flatMap_cons

theorem encode_mono {first second : List Char} (less : first < second) : encode first < encode second := by
  induction less with
  | @nil c rest =>
    have present : 0 < (encode (c::rest)).length := by
      have size := Char.utf8Size_pos c
      rw [encode_cons,List.length_append,String.length_utf8EncodeChar]
      omega
    cases bytes : encode (c::rest) with
    | nil => simp [bytes] at present
    | cons byte bytes => exact List.Lex.nil
  | cons rest ih =>
    rw [encode_cons,encode_cons]
    exact List.append_left_lt ih
  | rel less =>
    rw [encode_cons,encode_cons]
    exact (precedes_encodeChar (UInt32.lt_iff_toNat_lt.mp less)).append _ _

/-- Text is ordered as its bytes are. -/
theorem encode_lt_iff {first second : List Char} : encode first < encode second ↔ first < second := by
  refine ⟨?_,encode_mono⟩
  intro less
  cases lt_trichotomy first second with
  | inl below => exact below
  | inr rest =>
    cases rest with
    | inl same => exact absurd (same ▸ less) (List.lt_irrefl _)
    | inr above => exact absurd less (List.lt_asymm (encode_mono above))

end Library.Utf8
