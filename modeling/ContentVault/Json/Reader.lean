import ContentVault.Json.Token
import ContentVault.Text.Utf8

/-!
# Reading JSON

The second half of reading: tokens to a value. The reader is an automaton with a stack of the arrays and objects that
are open; each token either completes a value, which goes into the innermost open one, or opens or closes one.
-/

namespace ContentVault.Json

/-- An array or object that is open, with what it holds so far, last one first. -/
inductive Frame where
  | array (items : List Json)
  | object (members : List (String × Json)) (sound : Bool)
  /-- An object whose next member has its name already; `none` is a name with half a surrogate pair. -/
  | member (members : List (String × Json)) (sound : Bool) (name : Option String)

/-- What may come next. -/
inductive Expect where
  | value
  | itemOrEnd
  | nameOrEnd
  | name
  | colon
  /-- After an item or a member: a comma or the end. -/
  | separator
  | nothing (result : Json)

/-- A state of the reader. -/
structure Reader where
  stack : List Frame
  expect : Expect

namespace Reader

/-- The reader before the first token. -/
def initial : Reader := ⟨[], .value⟩

/-- The object with these members, last one first. -/
def closeObject (members : List (String × Json)) (sound : Bool) : Json :=
  if sound then .object members.reverse else .garbled

/-- Puts a complete value into the innermost open array or object. -/
def complete (stack : List Frame) (value : Json) : Option Reader :=
  match stack with
  | [] => some ⟨[], .nothing value⟩
  | .array items :: stack => some ⟨.array (value :: items) :: stack, .separator⟩
  | .member members sound (some name) :: stack =>
    some ⟨.object ((name, value) :: members) sound :: stack, .separator⟩
  | .member members _ none :: stack => some ⟨.object members false :: stack, .separator⟩
  | .object .. :: _ => none

/-- Reads a token where a value has to come. -/
def value (stack : List Frame) : Token → Option Reader
  | .beginArray => some ⟨.array [] :: stack, .itemOrEnd⟩
  | .beginObject => some ⟨.object [] true :: stack, .nameOrEnd⟩
  | .scalar v => complete stack v
  | _ => none

/-- Reads a token where the name of a member has to come. -/
def name (stack : List Frame) : Token → Option Reader
  | .scalar v =>
    match stack, v with
    | .object members sound :: stack, .string s => some ⟨.member members sound (some s) :: stack, .colon⟩
    | .object members sound :: stack, .garbled => some ⟨.member members sound none :: stack, .colon⟩
    | _, _ => none
  | _ => none

/-- Reads a token that has to end the innermost array or object. -/
def close (stack : List Frame) : Token → Option Reader
  | .endArray =>
    match stack with
    | .array items :: stack => complete stack (.array items.reverse)
    | _ => none
  | .endObject =>
    match stack with
    | .object members sound :: stack => complete stack (closeObject members sound)
    | _ => none
  | _ => none

/-- Reads one token. -/
def step (r : Reader) (token : Token) : Option Reader :=
  match r.expect, token with
  | .value, token => value r.stack token
  | .itemOrEnd, .endArray => close r.stack .endArray
  | .itemOrEnd, token => value r.stack token
  | .nameOrEnd, .endObject => close r.stack .endObject
  | .nameOrEnd, token => name r.stack token
  | .name, token => name r.stack token
  | .colon, .colon => some ⟨r.stack, .value⟩
  | .separator, .comma =>
    match r.stack with
    | .array _ :: _ => some ⟨r.stack, .value⟩
    | .object _ _ :: _ => some ⟨r.stack, .name⟩
    | _ => none
  | .separator, token => close r.stack token
  | _, _ => none

/-- Reads tokens to the end. -/
def run (r : Reader) : List Token → Option Reader
  | [] => some r
  | token :: tokens =>
    match r.step token with
    | none => none
    | some r => run r tokens

/-- The value, if it is complete. -/
def result? (r : Reader) : Option Json :=
  match r.expect with
  | .nothing value => some value
  | _ => none

end Reader

/-- The value that these characters spell, if they are grammatical. -/
def parseChars? (cs : List (Option Char)) : Option Json := do
  let tokens ← Token.scan? cs
  let r ← Reader.initial.run tokens
  r.result?

/-- The value that a text spells, if it is grammatical. -/
def parse? (text : String) : Option Json := parseChars? (text.toList.map some)

/-- The value that a byte string spells, if it is grammatical. -/
def parseBytes? (bs : Bytes) : Option Json := parseChars? (Text.Utf8.decode bs)

/-- The bytes of a text spell what the text does. -/
@[simp] theorem parseBytes?_ofString (text : String) : parseBytes? (Bytes.ofString text) = parse? text := by
  rw [parseBytes?, parse?, Text.Utf8.decode_ofString]

/-- The value that a text spells, as a value in its own right: it has to be admissible, and of a repeated member the
last one counts. -/
def parseValue? (text : String) : Option Json := do
  let value ← parse? text
  if admissibleWithin maxDepth value then return lastWins value else none

end ContentVault.Json
