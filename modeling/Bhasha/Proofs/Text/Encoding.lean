import Mathlib
import Bhasha.Number.Power

namespace Bhasha.Text

/-!
# The order of texts

Texts are ordered by their code points, the first one that differs deciding.  The
bytes of their encoding are ordered the same way: of two characters the one with the
smaller code point has the smaller byte at the first place where their bytes differ,
and neither encoding continues the other.
-/

/-- The code points of a text. -/
def codePoints (text : String) : List Nat := text.toList.map Char.toNat

/-- The bytes of a text in UTF-8. -/
def utf8Bytes (text : String) : List Nat := text.toByteArray.data.toList.map UInt8.toNat

/-- A code point in UTF-8: a byte that tells how many follow, and six bits in each of those. -/
inductive Encodes : Nat → List Nat → Prop where
  | one
      {point : Nat}
      (most : point < 2 ^ 7) :
      Encodes point [point]
  | two
      {point : Nat}
      (least : 2 ^ 7 ≤ point)
      (most : point < 2 ^ 11) :
      Encodes point [0xc0 + point / 2 ^ 6, 0x80 + point % 2 ^ 6]
  | three
      {point : Nat}
      (least : 2 ^ 11 ≤ point)
      (most : point < 2 ^ 16) :
      Encodes point
        [0xe0 + point / 2 ^ 12, 0x80 + point / 2 ^ 6 % 2 ^ 6, 0x80 + point % 2 ^ 6]
  | four
      {point : Nat}
      (least : 2 ^ 16 ≤ point)
      (most : point < 2 ^ 21) :
      Encodes point
        [0xf0 + point / 2 ^ 18, 0x80 + point / 2 ^ 12 % 2 ^ 6, 0x80 + point / 2 ^ 6 % 2 ^ 6,
          0x80 + point % 2 ^ 6]

/-- Every character has such an encoding. -/
theorem encodes_utf8EncodeChar (c : Char) :
    Encodes c.toNat ((String.utf8EncodeChar c).map UInt8.toNat) := by
  have most : c.val.toNat < 2 ^ 21 := by
    rcases c.valid with low | ⟨-, high⟩
    · exact Nat.lt_trans low (by decide)
    · exact Nat.lt_trans high (by decide)
  have point : c.toNat = c.val.toNat := rfl
  rw [point]
  unfold String.utf8EncodeChar
  dsimp only
  generalize c.val.toNat = point at most
  split
  case isTrue one =>
    have byte : point % 2 ^ 8 = point := by
      omega
    simp only [List.map_cons, List.map_nil, UInt8.toNat_ofNat', byte]
    exact .one (by omega)
  have last : (point % 0x40 + 0x80) % 2 ^ 8 = 0x80 + point % 2 ^ 6 := by
    omega
  split
  case isTrue two =>
    have first : (point / 64 % 0x20 + 0xc0) % 2 ^ 8 = 0xc0 + point / 2 ^ 6 := by
      omega
    simp only [List.map_cons, List.map_nil, UInt8.toNat_ofNat', first, last]
    exact .two (by omega) (by omega)
  have third : (point / 64 % 0x40 + 0x80) % 2 ^ 8 = 0x80 + point / 2 ^ 6 % 2 ^ 6 := by
    omega
  split
  case isTrue three =>
    have first : (point / 4096 % 0x10 + 0xe0) % 2 ^ 8 = 0xe0 + point / 2 ^ 12 := by
      omega
    simp only [List.map_cons, List.map_nil, UInt8.toNat_ofNat', first, third, last]
    exact .three (by omega) (by omega)
  case isFalse four =>
    have first : (point / 262144 % 0x08 + 0xf0) % 2 ^ 8 = 0xf0 + point / 2 ^ 18 := by
      omega
    have second : (point / 4096 % 0x40 + 0x80) % 2 ^ 8 = 0x80 + point / 2 ^ 12 % 2 ^ 6 := by
      omega
    simp only [List.map_cons, List.map_nil, UInt8.toNat_ofNat', first, second, third, last]
    exact .four (by omega) most

/-- The bytes of a smaller code point come first, whatever follows. -/
theorem Encodes.append_lt
    {point otherPoint : Nat} {bytes otherBytes : List Nat}
    (encodes : Encodes point bytes)
    (otherEncodes : Encodes otherPoint otherBytes)
    (less : point < otherPoint)
    (rest otherRest : List Nat) :
    bytes ++ rest < otherBytes ++ otherRest := by
  cases encodes with
  | one most =>
      cases otherEncodes <;>
        exact List.cons_lt_cons_iff.mpr (.inl (by omega))
  | two least most =>
      cases otherEncodes with
      | one otherMost =>
          omega
      | two otherLeast otherMost =>
          simp only [List.cons_append, List.cons_lt_cons_iff]
          omega
      | three | four =>
          exact List.cons_lt_cons_iff.mpr (.inl (by omega))
  | three least most =>
      cases otherEncodes with
      | one | two =>
          omega
      | three otherLeast otherMost =>
          simp only [List.cons_append, List.cons_lt_cons_iff]
          omega
      | four otherLeast otherMost =>
          exact List.cons_lt_cons_iff.mpr (.inl (by omega))
  | four least most =>
      cases otherEncodes with
      | one | two | three =>
          omega
      | four otherLeast otherMost =>
          simp only [List.cons_append, List.cons_lt_cons_iff]
          omega

/-- The code points of texts are ordered as the texts are. -/
theorem codePoints_strictMono : StrictMono codePoints := by
  intro first second less
  rw [String.lt_iff] at less
  unfold codePoints
  generalize first.toList = text, second.toList = otherText at less
  induction less with
  | nil =>
      exact List.nil_lt_cons _ _
  | rel less =>
      exact List.cons_lt_cons_iff.mpr (.inl less)
  | cons tail inductionHypothesis =>
      exact List.cons_lt_cons_iff.mpr (.inr ⟨rfl, inductionHypothesis⟩)

/-- The bytes of a text are those of its characters, one after the other. -/
theorem utf8Bytes_eq (text : String) :
    utf8Bytes text =
      text.toList.flatMap fun c => (String.utf8EncodeChar c).map UInt8.toNat := by
  rw [utf8Bytes, ← String.utf8Encode_toList, List.utf8Encode, List.data_toByteArray,
    List.map_flatMap]

/-- The bytes of texts are ordered as the texts are. -/
theorem utf8Bytes_strictMono : StrictMono utf8Bytes := by
  intro first second less
  rw [String.lt_iff] at less
  rw [utf8Bytes_eq, utf8Bytes_eq]
  generalize first.toList = text, second.toList = otherText at less
  induction less with
  | @nil c rest =>
      obtain ⟨byte, more, bytes⟩ :=
        List.exists_cons_of_ne_nil (@String.utf8EncodeChar_ne_nil c)
      rw [List.flatMap_nil, List.flatMap_cons, bytes]
      exact List.nil_lt_cons _ _
  | @rel c rest d otherRest less =>
      rw [List.flatMap_cons, List.flatMap_cons]
      exact (encodes_utf8EncodeChar c).append_lt (encodes_utf8EncodeChar d) less _ _
  | cons tail inductionHypothesis =>
      rw [List.flatMap_cons, List.flatMap_cons]
      exact List.append_left_lt inductionHypothesis

end Bhasha.Text
