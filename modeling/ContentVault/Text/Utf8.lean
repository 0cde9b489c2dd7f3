import ContentVault.Bytes

/-!
# Bytes as characters

A byte string that should be text may hold bytes that are no part of a well formed character. `Text.Utf8.decode` reads
all of it, such a byte as `none`, so that a reader can go on behind one in a place that does not matter to it.

Main statement: `decode_ofString`, the bytes of a text are read as its characters.
-/

namespace ContentVault.Text.Utf8

/-- The character that a byte string begins with, if it begins with a well formed one. -/
def first? (bs : Bytes) : Option Char := ByteArray.utf8DecodeChar? ⟨(bs.take 4).toArray⟩ 0

/-- The characters of a byte string put after those in `done`, which has the last one first. -/
def decodeFrom (done : List (Option Char)) : Bytes → List (Option Char)
  | [] => done.reverse
  | b :: bs =>
    match first? (b :: bs) with
    | some c => decodeFrom (some c :: done) (bs.drop (c.utf8Size - 1))
    | none => decodeFrom (none :: done) bs
termination_by bs => bs.length

/-- The characters of a byte string; a byte that is no part of one is `none`. -/
def decode (bs : Bytes) : List (Option Char) := decodeFrom [] bs

/-! ## The bytes of a text -/

/-- The bytes of a text are those of its characters, one after the other. -/
theorem ofString_eq_flatMap (s : String) : Bytes.ofString s = s.toList.flatMap String.utf8EncodeChar := by
  have chars : s.toByteArray = s.toList.utf8Encode := by simp
  show s.toByteArray.data.toList = _
  rw [chars, List.utf8Encode, List.toList_data_toByteArray]

/-- A character is read from its bytes, whatever follows them. -/
theorem first?_encoded (c : Char) (rest : Bytes) : first? (String.utf8EncodeChar c ++ rest) = some c := by
  have short : (String.utf8EncodeChar c).length ≤ 4 := by
    rw [String.length_utf8EncodeChar]
    exact c.utf8Size_le_four
  rw [first?, List.take_append, List.take_of_length_le short]
  generalize rest.take (4 - (String.utf8EncodeChar c).length) = tail
  have joined : ByteArray.mk (String.utf8EncodeChar c ++ tail).toArray =
      (String.utf8EncodeChar c).toByteArray ++ ByteArray.mk tail.toArray := by
    apply ByteArray.ext
    apply Array.toList_inj.mp
    simp
  rw [joined]
  exact ByteArray.utf8DecodeChar?_utf8EncodeChar_append

theorem decodeFrom_encoded (done : List (Option Char)) (cs : List Char) :
    decodeFrom done (cs.flatMap String.utf8EncodeChar) = done.reverse ++ cs.map some := by
  induction cs generalizing done with
  | nil => simp [decodeFrom]
  | cons c cs ih =>
    obtain ⟨b, bs, hb⟩ : ∃ b bs, String.utf8EncodeChar c = b :: bs :=
      List.exists_cons_of_length_pos (by rw [String.length_utf8EncodeChar]; exact c.utf8Size_pos)
    have size : bs.length = c.utf8Size - 1 := by
      rw [← String.length_utf8EncodeChar c, hb]
      rfl
    have first := first?_encoded c (cs.flatMap String.utf8EncodeChar)
    rw [List.flatMap_cons]
    rw [hb, List.cons_append] at first ⊢
    rw [decodeFrom, first]
    simp only
    rw [← size, List.drop_left, ih]
    simp

/-- The bytes of a text are read as its characters. -/
theorem decode_ofString (s : String) : decode (Bytes.ofString s) = s.toList.map some := by
  rw [decode, ofString_eq_flatMap, decodeFrom_encoded]
  rfl

end ContentVault.Text.Utf8
