/-! UTF-8 text as a list of characters beside its bytes. Decoding accepts exactly
the encodings. -/
namespace Library.Utf8

def encode (text : List Char) : List UInt8 :=
  text.flatMap String.utf8EncodeChar

def decode (bytes : List UInt8) : Option (List Char) :=
  bytes.toByteArray.utf8Decode?.map Array.toList

theorem encode_toByteArray (text : List Char) : (encode text).toByteArray = text.utf8Encode := rfl

@[simp] theorem decode_encode (text : List Char) : decode (encode text) = some text := by
  simp [decode,encode_toByteArray,List.utf8Decode?_utf8Encode]

theorem encode_of_decode {bytes : List UInt8} {text : List Char} (decoded : decode bytes = some text) :
    encode text = bytes := by
  obtain ⟨chars,found,rfl⟩ := Option.map_eq_some_iff.mp decoded
  have present : bytes.toByteArray.utf8Decode?.isSome := by simp [found]
  have round := ByteArray.utf8Encode_get_utf8Decode? (h := present)
  simp only [found,Option.get_some,← encode_toByteArray] at round
  exact List.toByteArray_inj.mp round

theorem length_encode {text : List Char} (ascii : ∀ c ∈ text, c.utf8Size = 1) : (encode text).length = text.length := by
  induction text with
  | nil => rfl
  | cons c text ih =>
    rw [encode,List.flatMap_cons,List.length_append,String.length_utf8EncodeChar,ascii c List.mem_cons_self,List.length_cons,
      Nat.add_comm]
    exact congrArg (· + 1) (ih fun other member => ascii other (List.mem_cons_of_mem _ member))

theorem encode_append (first second : List Char) : encode (first ++ second) = encode first ++ encode second :=
  List.flatMap_append

/-- No character begins inside the bytes of another. -/
theorem encode_prefix_iff {first second : List Char} : encode first <+: encode second ↔ first <+: second := by
  constructor
  · rintro ⟨rest,joined⟩
    refine List.isPrefix_of_utf8Encode_append_eq_utf8Encode rest.toByteArray ?_
    rw [← encode_toByteArray,← encode_toByteArray,← joined,List.toByteArray_append]
  · rintro ⟨rest,rfl⟩
    rw [encode_append]
    exact List.prefix_append _ _

/-- A byte of ASCII stands for the character of its number. -/
theorem ascii_of_mem {c : Char} {byte : UInt8} (member : byte ∈ String.utf8EncodeChar c) (ascii : byte.toNat < 128) :
    byte.toNat = c.toNat := by
  have value (n : Nat) : (UInt8.ofNat n).toNat = n % 256 := UInt8.toNat_ofNat'
  unfold String.utf8EncodeChar at member
  change byte.toNat = c.val.toNat
  generalize c.val.toNat = v at *
  dsimp only at member
  split at member
  next =>
    rw [List.mem_singleton] at member
    rw [member,value]
    omega
  next =>
    split at member
    next =>
      simp only [List.mem_cons,List.not_mem_nil,or_false] at member
      rcases member with rfl | rfl <;> rw [value] at ascii <;> omega
    next =>
      split at member
      next =>
        simp only [List.mem_cons,List.not_mem_nil,or_false] at member
        rcases member with rfl | rfl | rfl <;> rw [value] at ascii <;> omega
      next =>
        simp only [List.mem_cons,List.not_mem_nil,or_false] at member
        rcases member with rfl | rfl | rfl | rfl <;> rw [value] at ascii <;> omega

theorem newline_of_mem {text : List Char} (member : 10 ∈ encode text) : '\n' ∈ text := by
  obtain ⟨c,inside,byte⟩ := List.mem_flatMap.mp member
  have same : '\n'.toNat = c.toNat := ascii_of_mem byte (by decide)
  rwa [Char.toNat_inj.mp same]

end Library.Utf8
