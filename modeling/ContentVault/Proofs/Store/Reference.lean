import ContentVault.Proofs.Text.Spelling
import ContentVault.Store.Blobs

/-! # References to blobs

    A blob is named by the text of its UUID and looked up under that text,
    whatever spelling it is asked for by.  The text of a UUID is one of its
    spellings (`parse?_text`), so two UUIDs never share a name
    (`text_injective`) and a reference that the store gave out leads back to
    the file it was given out for (`fileName?_text`).  The names of blobs that
    are still being written are no spelling of any UUID. -/

namespace ContentVault

namespace Uuid

/-- What comes after a group and its hyphen. -/
theorem drop_hyphen {n : Nat} {group : List Char} (rest : List Char) (h : group.length = n) :
    (group ++ '-' :: rest).drop (n + 1) = rest := by
  rw [← List.drop_drop, List.drop_left' h]
  rfl

/-- The hyphens taken out of what `hyphenated` writes. -/
theorem bare_hyphenated (cs : List Char) (h : cs.length = 32) :
    (hyphenated cs).take 8 ++ ((hyphenated cs).drop 9).take 4 ++ ((hyphenated cs).drop 14).take 4
      ++ ((hyphenated cs).drop 19).take 4 ++ (hyphenated cs).drop 24 = cs := by
  have hlen : ∀ i n, i + n ≤ 32 → ((cs.drop i).take n).length = n := by
    intro i n hin
    rw [List.length_take, List.length_drop, h]
    omega
  have hjoin : ∀ i n, (cs.drop i).take n ++ cs.drop (i + n) = cs.drop i := by
    intro i n
    rw [← List.drop_drop, List.take_append_drop]
  have h0 : (cs.take 8).length = 8 := hlen 0 8 (by decide)
  -- every group is found behind the hyphen of the one before
  have hall : hyphenated cs = cs.take 8 ++ '-' :: ((cs.drop 8).take 4 ++ '-' ::
      ((cs.drop 12).take 4 ++ '-' :: ((cs.drop 16).take 4 ++ '-' :: cs.drop 20))) := by
    unfold hyphenated
    simp only [List.append_assoc, List.cons_append]
  have h9 : (hyphenated cs).drop 9 = (cs.drop 8).take 4 ++ '-' :: ((cs.drop 12).take 4 ++ '-' ::
      ((cs.drop 16).take 4 ++ '-' :: cs.drop 20)) := by
    rw [hall]
    exact drop_hyphen _ h0
  have h14 : (hyphenated cs).drop 14 = (cs.drop 12).take 4 ++ '-' ::
      ((cs.drop 16).take 4 ++ '-' :: cs.drop 20) := by
    rw [show 14 = 9 + (4 + 1) from rfl, ← List.drop_drop, h9]
    exact drop_hyphen _ (hlen 8 4 (by decide))
  have h19 : (hyphenated cs).drop 19 = (cs.drop 16).take 4 ++ '-' :: cs.drop 20 := by
    rw [show 19 = 14 + (4 + 1) from rfl, ← List.drop_drop, h14]
    exact drop_hyphen _ (hlen 12 4 (by decide))
  have h24 : (hyphenated cs).drop 24 = cs.drop 20 := by
    rw [show 24 = 19 + (4 + 1) from rfl, ← List.drop_drop, h19]
    exact drop_hyphen _ (hlen 16 4 (by decide))
  rw [h9, h14, h19, h24, hall, List.take_left' h0, List.take_left' (hlen 8 4 (by decide)),
    List.take_left' (hlen 12 4 (by decide)), List.take_left' (hlen 16 4 (by decide))]
  simp only [List.append_assoc]
  rw [hjoin 16 4, hjoin 12 4, hjoin 8 4, List.take_append_drop]

theorem length_hyphenated (cs : List Char) (h : cs.length = 32) :
    (hyphenated cs).length = 36 := by
  unfold hyphenated
  simp only [List.length_append, List.length_cons, List.length_take, List.length_drop, h]
  omega

theorem length_chars (u : Uuid) : u.chars.length = 36 := by
  apply length_hyphenated
  rw [Text.length_hexChars, u.length_bytes]

/-- The text of a UUID spells it. -/
@[simp] theorem parse?_text (u : Uuid) : parse? u.text = some u := by
  have hlen : (Text.hexChars u.bytes).length = 32 := by
    rw [Text.length_hexChars, u.length_bytes]
  have hsimple : simple? (Text.hexChars u.bytes) = some u := by
    unfold simple?
    rw [if_pos hlen, Text.unhexChars?_hexChars]
    show ofBytes? u.bytes = some u
    unfold ofBytes?
    rw [dif_pos u.length_bytes]
  unfold parse? text
  rw [String.toList_ofList]
  unfold parseChars?
  rw [if_neg (by rw [length_chars]; decide), if_pos u.length_chars]
  unfold hyphenated? chars
  simp only [bare_hyphenated _ hlen, length_hyphenated _ hlen, and_self, if_true]
  exact hsimple

/-- Two UUIDs never share a text. -/
theorem text_injective {u v : Uuid} (h : u.text = v.text) : u = v := by
  have hu := parse?_text u
  rw [h, parse?_text] at hu
  exact (Option.some.inj hu).symm

end Uuid

namespace BlobStore

/-- A reference leads to a file that is named by a UUID. -/
theorem fileName?_eq_some_iff {ref name : String} :
    fileName? ref = some name ↔ ∃ u, Uuid.parse? ref = some u ∧ u.text = name := by
  unfold fileName?
  exact Option.map_eq_some_iff

/-- The reference of a blob leads to its file. -/
@[simp] theorem fileName?_text (u : Uuid) : fileName? u.text = some u.text :=
  fileName?_eq_some_iff.mpr ⟨u, Uuid.parse?_text u, rfl⟩

/-! ## Names while a blob is written -/

theorem toList_temporaryName (u : Uuid) :
    (temporaryName u).toList = '.' :: u.chars ++ ['.', 't', 'm', 'p'] := by
  unfold temporaryName Uuid.text
  simp

/-- The name under which a blob is written spells no UUID. -/
@[simp] theorem parse?_temporaryName (u : Uuid) : Uuid.parse? (temporaryName u) = none := by
  have hlen : (temporaryName u).toList.length = 41 := by
    rw [toList_temporaryName, List.length_append, List.length_cons, u.length_chars]
    rfl
  unfold Uuid.parse? Uuid.parseChars?
  rw [hlen]
  rfl

/-- No reference leads to a blob that is still being written. -/
theorem fileName?_ne_temporaryName (ref : String) (u : Uuid) :
    fileName? ref ≠ some (temporaryName u) := by
  intro h
  obtain ⟨v, -, hv⟩ := fileName?_eq_some_iff.mp h
  have hparse := Uuid.parse?_text v
  rw [hv, parse?_temporaryName] at hparse
  cases hparse

theorem text_ne_temporaryName (u v : Uuid) : u.text ≠ temporaryName v := by
  intro h
  exact fileName?_ne_temporaryName u.text v ((fileName?_text u).trans (congrArg some h))

end BlobStore

end ContentVault
