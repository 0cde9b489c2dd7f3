import ContentVault.Digest.Basic
import ContentVault.Json.Record

/-!
# Digests in JSON

A digest with the name of its algorithm, as a record.
-/

namespace ContentVault.Fingerprint

/-- A digest in JSON. -/
def toJson (h : Fingerprint) : Json :=
  Json.record [("algorithm", some (.string h.algorithm)), ("value", some (.string h.value))]

/-- Reads a digest. -/
def read? (value : Json) : Option Fingerprint := do
  let fields ← Json.fields? ["algorithm", "value"] value
  return ⟨← fields.required "algorithm" Json.string?, ← fields.required "value" Json.string?⟩

end ContentVault.Fingerprint
