import ContentVault.Json.Record

/-!
# Notarization settings

Which notarizer digests are submitted to, and how it is reached.
-/

namespace ContentVault

/-- The kinds of notarizer. -/
inductive NotaryBackend where
  /-- One within the process, for development. -/
  | mock
  /-- A service that is reached over HTTP. -/
  | http
deriving DecidableEq, Repr, Inhabited

namespace NotaryBackend

/-- The name in settings. -/
def id : NotaryBackend → String
  | mock => "Mock"
  | http => "Http"

/-- All kinds. -/
def all : List NotaryBackend := [mock, http]

/-- Reads a kind. -/
def read? (value : Json) : Option NotaryBackend := do
  let name ← value.alternative?
  all.find? fun b => b.id == name

end NotaryBackend

/-- The settings for notarization. -/
structure NotaryConfiguration where
  backend : NotaryBackend := .mock
  endpoint : Option String := none
  /-- The token sent with each request. -/
  token : Option String := none
  timeoutSecs : UInt64 := 30
deriving DecidableEq, Repr, Inhabited

namespace NotaryConfiguration

/-- Settings in JSON. -/
def toJson (c : NotaryConfiguration) : Json :=
  Json.record [("environment", some (.string c.backend.id)), ("endpoint", c.endpoint.map .string),
    ("api_token", c.token.map .string), ("timeout_secs", some (.ofNat c.timeoutSecs.toNat))]

/-- Reads settings; all have defaults. -/
def read? (value : Json) : Option NotaryConfiguration := do
  let fields ← Json.fields? ["environment", "endpoint", "api_token", "timeout_secs"] value
  let plain : NotaryConfiguration := {}
  return {
    backend := ← fields.withDefault "environment" plain.backend NotaryBackend.read?
    endpoint := ← fields.withDefault "endpoint" plain.endpoint (Json.nullable? Json.string?)
    token := ← fields.withDefault "api_token" plain.token (Json.nullable? Json.string?)
    timeoutSecs := ← fields.withDefault "timeout_secs" plain.timeoutSecs Json.word64? }

end NotaryConfiguration

end ContentVault
