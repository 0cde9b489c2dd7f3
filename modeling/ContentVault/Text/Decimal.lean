/-!
# Decimal digits

JSON, cells and times spell numbers in decimal digits, and one reading of digits serves them all.
-/

namespace ContentVault.Text

/-- The number that decimal digits spell. -/
def digitsValue (digits : List Char) : Nat := digits.foldl (fun n c => n * 10 + (c.toNat - 48)) 0

end ContentVault.Text
