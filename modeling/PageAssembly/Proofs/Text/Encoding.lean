import PageAssembly.Text.Bytes

/-!
The characters of ASCII are encoded as single bytes, and no other character has such a byte in its
encoding. What is encoded is decoded again.
-/

namespace PageAssembly

theorem toNat_toUInt8 {c : Char} (low : c.toNat < 0x80) : c.toUInt8.toNat = c.toNat := by
  rw [Char.toUInt8, UInt32.toNat_toUInt8]
  exact Nat.mod_eq_of_lt (Nat.lt_trans low (by decide))

theorem toNat_ofByte (byte : UInt8) : (Char.ofNat byte.toNat).toNat = byte.toNat := by
  have valid : byte.toNat.isValidChar := Or.inl (Nat.lt_trans byte.toNat_lt (by decide))
  rw [Char.ofNat, dif_pos valid]
  rfl

theorem toUInt8_ofByte (byte : UInt8) : (Char.ofNat byte.toNat).toUInt8 = byte := by
  apply UInt8.toNat_inj.mp
  rw [Char.toUInt8, UInt32.toNat_toUInt8]
  change (Char.ofNat byte.toNat).toNat % 256 = byte.toNat
  rw [toNat_ofByte]
  exact Nat.mod_eq_of_lt byte.toNat_lt

namespace Text

theorem encodeString_append (left right : String) :
    encodeString (left ++ right) = encodeString left ++ encodeString right := by
  unfold encodeString encode
  rw [String.toList_append, List.flatMap_append]

theorem encodeString_ofList (text : List Char) : encodeString (String.ofList text) = encode text := by
  rw [encodeString, String.toList_ofList]

theorem encode_ascii {text : List Char} (low : ∀ c ∈ text, c.toNat < 0x80) :
    encode text = text.map Char.toUInt8 := by
  induction text with
  | nil => rfl
  | cons c text induction =>
      have rest := induction fun other member => low other (List.mem_cons_of_mem _ member)
      have single : c.utf8Size = 1 := by
        rw [Char.utf8Size_eq_one_iff, UInt32.le_iff_toNat_le]
        exact Nat.le_of_lt_succ (low c List.mem_cons_self)
      rw [encode] at rest ⊢
      rw [List.flatMap_cons, rest, String.utf8EncodeChar_eq_singleton single, List.map_cons]
      rfl

/-- A byte below 0x80 in the encoding of a character is the whole of it. -/
theorem utf8EncodeChar_low {c : Char} {byte : UInt8} (member : byte ∈ String.utf8EncodeChar c)
    (low : byte.toNat < 0x80) : c.toNat = byte.toNat := by
  have number : c.val.toNat = c.toNat := rfl
  simp only [String.utf8EncodeChar, number] at member
  split at member
  · rw [List.mem_singleton.mp member, UInt8.toNat_ofNat']
    omega
  · -- every byte of a longer encoding has its highest bit set
    obtain ⟨value, rfl, high, small⟩ :
        ∃ value, byte = UInt8.ofNat value ∧ 0x80 ≤ value ∧ value < 0x100 := by
      split at member
      · simp only [List.mem_cons, List.not_mem_nil, or_false] at member
        rcases member with same | same <;> exact ⟨_, same, by omega, by omega⟩
      · split at member
        · simp only [List.mem_cons, List.not_mem_nil, or_false] at member
          rcases member with same | same | same <;> exact ⟨_, same, by omega, by omega⟩
        · simp only [List.mem_cons, List.not_mem_nil, or_false] at member
          rcases member with same | same | same | same <;> exact ⟨_, same, by omega, by omega⟩
    rw [UInt8.toNat_ofNat', Nat.mod_eq_of_lt small] at low
    omega

theorem eq_of_mem_utf8EncodeChar {c sign : Char} (low : sign.toNat < 0x80)
    (member : sign.toUInt8 ∈ String.utf8EncodeChar c) : c = sign := by
  apply Char.toNat_inj.mp
  rw [← toNat_toUInt8 low]
  apply utf8EncodeChar_low member
  rwa [toNat_toUInt8 low]

theorem mem_of_mem_encode {c : Char} (low : c.toNat < 0x80) {text : List Char}
    (member : c.toUInt8 ∈ encode text) : c ∈ text := by
  obtain ⟨other, inside, byte⟩ := List.mem_flatMap.mp member
  rwa [← eq_of_mem_utf8EncodeChar low byte]

theorem encode_append (earlier later : List Char) :
    encode (earlier ++ later) = encode earlier ++ encode later :=
  List.flatMap_append

theorem encode_cons (c : Char) (text : List Char) :
    encode (c :: text) = String.utf8EncodeChar c ++ encode text :=
  List.flatMap_cons

theorem encode_cons_low {c : Char} (low : c.toNat < 0x80) (text : List Char) :
    encode (c :: text) = c.toUInt8 :: encode text := by
  rw [← List.singleton_append, encode_append, encode_ascii (List.forall_mem_singleton.mpr low)]
  rfl

theorem length_encode (text : List Char) : (encode text).length = byteSize text := by
  induction text with
  | nil => rfl
  | cons c text induction =>
      rw [encode_cons, List.length_append, String.length_utf8EncodeChar, induction, byteSize]

section

variable {mark : List Char} (low : ∀ c ∈ mark, c.toNat < 0x80)

include low

theorem prefix_of_prefix_encode {text : List Char} (begins : encode mark <+: encode text) :
    mark <+: text := by
  induction mark generalizing text with
  | nil => exact List.nil_prefix
  | cons m mark induction =>
      obtain ⟨first, others⟩ := List.forall_mem_cons.mp low
      rw [encode_cons_low first] at begins
      cases text with
      | nil => exact absurd begins (by simp [encode])
      | cons c text =>
          have head : m.toUInt8 ∈ String.utf8EncodeChar c := by
            obtain ⟨byte, bytes, encoded⟩ :=
              List.exists_cons_of_ne_nil (String.utf8EncodeChar_ne_nil (c := c))
            rw [encode_cons, encoded, List.cons_append, List.cons_prefix_cons] at begins
            rw [begins.1, encoded]
            exact List.mem_cons_self
          obtain rfl : c = m := eq_of_mem_utf8EncodeChar first head
          rw [encode_cons_low first, List.cons_prefix_cons] at begins
          exact List.cons_prefix_cons.mpr ⟨rfl, induction others begins.2⟩

/-- No character of another kind has bytes of the mark, so the mark starts between two characters.
-/
theorem infix_of_prefix_drop (nonempty : mark ≠ []) {text : List Char} {place : Nat}
    (begins : encode mark <+: (encode text).drop place) :
    ∃ earlier later, text = earlier ++ mark ++ later ∧ byteSize earlier = place := by
  obtain ⟨m, others, rfl⟩ := List.exists_cons_of_ne_nil nonempty
  have small := low m List.mem_cons_self
  induction text generalizing place with
  | nil =>
      rw [encode_cons_low small] at begins
      exact absurd begins (by simp [encode])
  | cons c text induction =>
      have size : (String.utf8EncodeChar c).length = c.utf8Size := String.length_utf8EncodeChar c
      rcases Nat.eq_zero_or_pos place with rfl | positive
      · obtain ⟨later, same⟩ := prefix_of_prefix_encode low begins
        exact ⟨[], later, same.symm, rfl⟩
      · by_cases within : place < c.utf8Size
        · -- the first byte of the mark is a whole character
          have byte : m.toUInt8 ∈ String.utf8EncodeChar c := by
            obtain ⟨head, tail, dropped⟩ :=
              List.exists_cons_of_length_pos (l := (String.utf8EncodeChar c).drop place)
                (by rw [List.length_drop]; omega)
            rw [encode_cons c text, List.drop_append_of_le_length (by omega), dropped,
              encode_cons_low small, List.cons_append, List.cons_prefix_cons] at begins
            rw [begins.1]
            exact List.mem_of_mem_drop (dropped ▸ List.mem_cons_self)
          obtain rfl : c = m := eq_of_mem_utf8EncodeChar small byte
          have single : c.utf8Size = 1 := by
            rw [Char.utf8Size_eq_one_iff, UInt32.le_iff_toNat_le]
            exact Nat.le_of_lt_succ small
          omega
        · rw [encode_cons c text, List.drop_append, List.drop_eq_nil_of_le (by omega),
            List.nil_append, size] at begins
          obtain ⟨earlier, later, same, sum⟩ := induction begins
          refine ⟨c :: earlier, later, by rw [same]; rfl, ?_⟩
          rw [byteSize, sum]
          omega

end

theorem decode?_encode (text : List Char) : decode? (encode text) = some (String.ofList text) := by
  have bytes : (⟨(encode text).toArray⟩ : ByteArray) = text.utf8Encode := by
    apply ByteArray.ext
    rw [List.utf8Encode, List.data_toByteArray, encode]
  have valid : (⟨(encode text).toArray⟩ : ByteArray).IsValidUTF8 := ⟨text, bytes⟩
  rw [decode?, String.fromUTF8?, dif_pos valid, Option.some_inj]
  exact String.toByteArray_inj.mp bytes

end Text

end PageAssembly
