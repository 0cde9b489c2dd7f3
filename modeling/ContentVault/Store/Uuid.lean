import ContentVault.Text.Hex

/-!
# UUIDs

Blobs are named by UUIDs. A UUID is written in lower case with hyphens; it is read in that form, without hyphens,
between braces, or as a URN, in any letter case.
-/

namespace ContentVault

/-- A UUID: sixteen bytes. -/
structure Uuid where
  bytes : Bytes
  length_bytes : bytes.length = 16
deriving DecidableEq

namespace Uuid

/-- The byte string as a UUID, if it has the length of one. -/
def ofBytes? (bytes : Bytes) : Option Uuid :=
  if h : bytes.length = 16 then some ⟨bytes, h⟩ else none

/-- A UUID made of a number, with the marks of a random one. -/
def ofNat (n : Nat) : Uuid where
  bytes := Bytes.bigEndian 6 (n >>> 72) ++ [0x40, 0] ++ [0x80] ++ Bytes.bigEndian 7 n
  length_bytes := by simp

/-! ## Text -/

/-- Hyphens after the eighth, twelfth, sixteenth and twentieth of 32 characters. -/
def hyphenated (cs : List Char) : List Char :=
  cs.take 8 ++ '-' :: (cs.drop 8).take 4 ++ '-' :: (cs.drop 12).take 4 ++ '-' :: (cs.drop 16).take 4 ++
    '-' :: cs.drop 20

/-- The characters of a UUID. -/
def chars (u : Uuid) : List Char := hyphenated (Text.hexChars u.bytes)

/-- A UUID as text. -/
def text (u : Uuid) : String := String.ofList u.chars

/-- Reads 32 digits. -/
def simple? (cs : List Char) : Option Uuid :=
  if cs.length = 32 then Text.unhexChars? cs >>= ofBytes? else none

/-- Reads the form with hyphens. -/
def hyphenated? (cs : List Char) : Option Uuid :=
  let bare := cs.take 8 ++ (cs.drop 9).take 4 ++ (cs.drop 14).take 4 ++ (cs.drop 19).take 4 ++ cs.drop 24
  if cs.length = 36 ∧ cs = hyphenated bare then simple? bare else none

/-- Takes braces off. -/
def unbraced? : List Char → Option (List Char)
  | '\x7b' :: rest => if rest.getLast? = some '\x7d' then some rest.dropLast else none
  | _ => none

/-- Takes the mark of a URN off. -/
def withoutUrn? (cs : List Char) : Option (List Char) :=
  let mark := "urn:uuid:".toList
  if cs.take 9 = mark then some (cs.drop 9) else none

/-- The UUID that characters spell. -/
def parseChars? (cs : List Char) : Option Uuid :=
  if cs.length = 32 then simple? cs
  else if cs.length = 36 then hyphenated? cs
  else if cs.length = 38 then unbraced? cs >>= hyphenated?
  else if cs.length = 45 then withoutUrn? cs >>= hyphenated?
  else none

/-- The UUID that a text spells. -/
def parse? (s : String) : Option Uuid := parseChars? s.toList

end Uuid

end ContentVault
