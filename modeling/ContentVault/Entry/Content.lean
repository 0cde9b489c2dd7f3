import ContentVault.Json.Record
import ContentVault.Stream.Reader
import ContentVault.Text.Literal

/-!
# Content

An `OfferedContent` is what a source hands over to be archived: a stream and what is known about it. What describes the
content to people, its `ContentLabel`, is kept with the archive in JSON.
-/

namespace ContentVault

/-- What describes content to people. -/
structure ContentLabel where
  name : String
  mimeType : String
  /-- The number of bytes that the source declares. -/
  length : Option UInt64
deriving DecidableEq, Repr, Inhabited

namespace ContentLabel

/-- Metadata in JSON. -/
def toJson (m : ContentLabel) : Json :=
  Json.record [("name", some (.string m.name)), ("mime_type", some (.string m.mimeType)),
    ("length", m.length.map fun n => .ofNat n.toNat)]

/-- Reads metadata. -/
def read? (value : Json) : Option ContentLabel := do
  let fields ← Json.fields? ["name", "mime_type", "length"] value
  return {
    name := ← fields.required "name" Json.string?
    mimeType := ← fields.required "mime_type" Json.string?
    length := ← fields.optional "length" Json.word64? }

/-- Metadata as bytes. -/
def toBytes (m : ContentLabel) : Bytes := Bytes.ofString m.toJson.render

/-- Reads metadata from bytes. -/
def ofBytes? (bytes : Bytes) : Option ContentLabel :=
  Json.parseBytes? bytes >>= read?

end ContentLabel

/-- Content that a source hands over. -/
structure OfferedContent where
  id : String
  name : String
  mimeType : String
  /-- The number of bytes that the source declares. -/
  length : Option UInt64
  /-- The digest that the source declares, in hexadecimal. -/
  expectedHash : Option String
  stream : Source
deriving Repr, Inhabited

namespace OfferedContent

/-- What describes the content to people. -/
def metadata (c : OfferedContent) : ContentLabel := ⟨c.name, c.mimeType, c.length⟩

/-- An optional value, as a log shows it. -/
def logOption : Option String → String
  | none => "None"
  | some text => "Some(" ++ text ++ ")"

/-- What a log shows of content: all but the stream. -/
def logText (c : OfferedContent) : String :=
  String.join ["ContentObject \x7b id: ", Text.literal c.id, ", name: ", Text.literal c.name,
    ", mime_type: ", Text.literal c.mimeType, ", length: ", logOption (c.length.map toString),
    ", expected_hash: ", logOption (c.expectedHash.map Text.literal), ", .. \x7d"]

end OfferedContent

end ContentVault
