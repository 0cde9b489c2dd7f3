import ContentVault.Json.Printer
import ContentVault.Json.Reader
import ContentVault.Text.Base64

/-!
# Records in JSON

A record is written as an object, its fields as members in the order of their declaration. It is read from such an
object in any order, members with other names being skipped and a repeated field being an error, or from an array of
its fields in the order of their declaration. What a field may leave out depends on the field: `required`,
`optional` and `withDefault` say what is read for one that is not there.
-/

namespace ContentVault.Json

/-! ## Scalars -/

/-- A truth value. -/
def bool? : Json → Option Bool
  | .bool b => some b
  | _ => none

/-- A text. -/
def string? : Json → Option String
  | .string s => some s
  | _ => none

/-- A natural number of at most `bits` bits, without sign, point and exponent. -/
def natural? (bits : Nat) : Json → Option Nat
  | .number n => n.natural?.filter (· < 1 <<< bits)
  | _ => none

/-- A number of 32 bits. -/
def word32? (value : Json) : Option UInt32 := (natural? 32 value).map UInt32.ofNat

/-- A number of 64 bits. -/
def word64? (value : Json) : Option UInt64 := (natural? 64 value).map UInt64.ofNat

/-- A byte string in Base64. -/
def bytes? : Json → Option Bytes
  | .string s => Text.Base64.decode? s
  | _ => none

/-- A list. -/
def list? {α : Type} (item? : Json → Option α) : Json → Option (List α)
  | .array items => items.mapM item?
  | _ => none

/-- `null`, or what `read` reads. -/
def nullable? {α : Type} (read : Json → Option α) : Json → Option (Option α)
  | .null => some none
  | value => (read value).map some

/-- The name of an alternative without parts: as a string, or as the only member of an object, set to `null`. -/
def alternative? : Json → Option String
  | .string s => some s
  | .object [(name, .null)] => some name
  | _ => none

/-- A byte string in Base64, as a value. -/
def ofBytes (bs : Bytes) : Json := .string (Text.Base64.encode bs)

/-! ## Fields -/

/-- The fields given for a record. In an array they have their places, and nothing may be missing between two of
them. -/
structure Fields where
  byPlace : Bool
  given : List (String × Json)

namespace Fields

/-- The value given for a field. -/
def get? (fields : Fields) (name : String) : Option Json := fields.given.lookup name

/-- Reads a field that has to be there. -/
def required {α : Type} (fields : Fields) (name : String) (read : Json → Option α) : Option α :=
  fields.get? name >>= read

/-- Reads a field that may be `null`, or missing in an object. -/
def optional {α : Type} (fields : Fields) (name : String) (read : Json → Option α) : Option (Option α) :=
  match fields.get? name with
  | some value => nullable? read value
  | none => if fields.byPlace then none else some none

/-- Reads a field that may be missing. -/
def withDefault {α : Type} (fields : Fields) (name : String) (default : α) (read : Json → Option α) :
    Option α :=
  match fields.get? name with
  | some value => read value
  | none => some default

end Fields

/-- Whether no name occurs twice. -/
def distinct : List String → Bool
  | [] => true
  | name :: names => !names.contains name && distinct names

/-- The fields that a value gives for a record with these field names. -/
def fields? (names : List String) : Json → Option Fields
  | .object members =>
    let given := members.filter fun (name, _) => names.contains name
    if distinct (given.map Prod.fst) then some ⟨false, given⟩ else none
  | .array items => if items.length ≤ names.length then some ⟨true, names.zip items⟩ else none
  | _ => none

/-- An object of the fields that are there. -/
def record (fields : List (String × Option Json)) : Json :=
  .object (fields.filterMap fun (name, value) => value.map fun value => (name, value))

end ContentVault.Json
