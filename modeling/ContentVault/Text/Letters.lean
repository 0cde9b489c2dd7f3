/-!
# Letter case and white space

Identifiers are compared without regard to the case of ASCII letters, and digests that people paste are freed of
the white space around them. Case is a matter of ASCII alone; white space is the Unicode property of that name.
-/

namespace ContentVault.Text

/-! ## Case -/

/-- A text with its ASCII letters in lower case. -/
def lower (s : String) : List Char := s.toList.map Char.toLower

/-- Whether two texts differ at most in the case of ASCII letters. -/
def equalsIgnoringCase (s t : String) : Bool := lower s == lower t

theorem equalsIgnoringCase_iff {s t : String} :
    equalsIgnoringCase s t = true ↔ lower s = lower t := by
  simp [equalsIgnoringCase]

/-! ## White space -/

/-- Whether a character has the Unicode property `White_Space`. -/
def isBlank (c : Char) : Bool :=
  let n := c.toNat
  (9 ≤ n && n ≤ 13) || n == 0x20 || n == 0x85 || n == 0xa0 || n == 0x1680 ||
    (0x2000 ≤ n && n ≤ 0x200a) || n == 0x2028 || n == 0x2029 || n == 0x202f || n == 0x205f || n == 0x3000

/-- The characters without the blanks at either end. -/
def trimChars (cs : List Char) : List Char :=
  ((cs.dropWhile isBlank).reverse.dropWhile isBlank).reverse

/-- A text without the blanks at either end. -/
def trim (s : String) : String := String.ofList (trimChars s.toList)

end ContentVault.Text
