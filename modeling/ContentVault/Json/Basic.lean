/-!
# JSON values

A value as its text spells it: numbers keep their literal, objects keep their members in order and may repeat a
name. Two readings of a text are built on this. Where a record is read straight from its text, members without a
meaning for it are skipped whatever they hold; where a text is first taken as a value in its own right, it has to be
admissible (`admissibleWithin`), and of a repeated member the last one counts (`lastWins`).
-/

namespace ContentVault

namespace Json

/-- A number literal: a sign, the digits before the point, those after it (none if there is no point), and the
exponent if there is one. -/
structure Number where
  negative : Bool
  whole : Nat
  fraction : List Char
  exponent : Option Int
deriving DecidableEq, Repr, Inhabited

end Json

/-- A JSON value. -/
inductive Json where
  | null
  | bool (b : Bool)
  | number (n : Json.Number)
  | string (s : String)
  | array (items : List Json)
  | object (members : List (String × Json))
  /-- Grammatical text with half of a surrogate pair in it, as a string or as the name of a member: it can be
  skipped, and means nothing. -/
  | garbled
deriving Inhabited

namespace Json

/-! ## Numbers -/

/-- The literal of a natural number. -/
def Number.ofNat (n : Nat) : Number := ⟨false, n, [], none⟩

/-- The natural number that a literal without sign, point and exponent spells. -/
def Number.natural? (n : Number) : Option Nat :=
  if n.negative || !n.fraction.isEmpty || n.exponent.isSome then none else some n.whole

@[simp] theorem Number.natural?_ofNat (n : Nat) : (Number.ofNat n).natural? = some n := rfl

/-- A natural number. -/
def ofNat (n : Nat) : Json := .number (.ofNat n)

/-- `n` rounded to 53 significant binary digits, a tie to the even neighbour. -/
def roundDouble (n : Nat) : Nat :=
  let extra := n.log2 + 1 - 53
  let unit := 1 <<< extra
  let q := n / unit
  let r := n % unit
  if 2 * r > unit || (2 * r == unit && q % 2 == 1) then (q + 1) * unit else q * unit

/-- The digits that count towards the value of a number: the leading ones, as long as they fit 64 bits. Gives the
number they spell and how many digits are left out. -/
def significant : (digits : List Char) → (value : Nat) → Nat × Nat
  | [], value => (value, 0)
  | d :: digits, value =>
    let next := value * 10 + (d.toNat - 48)
    if next < UInt64.size then significant digits next else (value, digits.length + 1)

/-- Whether a literal is beyond the largest double-precision number. Integers of 64 bits never are; any other
number is its significant digits, rounded, times a rounded power of ten. -/
def Number.overflows (n : Number) : Bool :=
  let (value, left) := significant (Nat.toDigits 10 n.whole ++ n.fraction) 0
  let exponent : Int := n.exponent.getD 0 + left - n.fraction.length
  if value == 0 || exponent < 0 then false
  else if exponent > 308 then true
  else roundDouble value * roundDouble (Nat.pow 10 exponent.toNat) ≥ (1 <<< 1024) - (1 <<< 970)

/-! ## Values in their own right -/

/-- How deep arrays and objects may be nested. -/
def maxDepth : Nat := 127

mutual

/-- Whether a value can be represented: no half surrogates, no number beyond range, and at most `depth` levels of
nesting. -/
def admissibleWithin (depth : Nat) : Json → Bool
  | .array items =>
    match depth with
    | 0 => false
    | depth + 1 => itemsAdmissible depth items
  | .object members =>
    match depth with
    | 0 => false
    | depth + 1 => membersAdmissible depth members
  | .number n => !n.overflows
  | .garbled => false
  | _ => true

/-- `admissibleWithin`, for every item. -/
def itemsAdmissible (depth : Nat) : List Json → Bool
  | [] => true
  | item :: items => admissibleWithin depth item && itemsAdmissible depth items

/-- `admissibleWithin`, for every member. -/
def membersAdmissible (depth : Nat) : List (String × Json) → Bool
  | [] => true
  | (_, value) :: members => admissibleWithin depth value && membersAdmissible depth members

end

/-- Sets a member, in its place if the name is there already, else at the end. -/
def insertMember (name : String) (value : Json) : List (String × Json) → List (String × Json)
  | [] => [(name, value)]
  | (n, v) :: members =>
    if n = name then (n, value) :: members else (n, v) :: insertMember name value members

mutual

/-- The value in which, of a repeated member, only the last one is left. -/
def lastWins : Json → Json
  | .array items => .array (itemsLastWins items)
  | .object members => .object (membersLastWins members [])
  | value => value

/-- `lastWins`, for every item. -/
def itemsLastWins : List Json → List Json
  | [] => []
  | item :: items => lastWins item :: itemsLastWins items

/-- The members taken in order on top of `done`. -/
def membersLastWins : (members done : List (String × Json)) → List (String × Json)
  | [], done => done
  | (name, value) :: members, done => membersLastWins members (insertMember name (lastWins value) done)

end

/-- The member of an object with this name. -/
def get? (name : String) : Json → Option Json
  | .object members => members.lookup name
  | _ => none

/-- The object with a member set. -/
def set (value : Json) (name : String) (member : Json) : Json :=
  match value with
  | .object members => .object (insertMember name member members)
  | value => value

end Json

end ContentVault
