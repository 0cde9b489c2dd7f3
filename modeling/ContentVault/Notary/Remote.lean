import ContentVault.Configuration.Notary
import ContentVault.Digest.Basic
import ContentVault.Web.Url

/-!
# Notarization over HTTP

A digest is submitted by a POST request with a small JSON object, and the answer is another one with the transaction
id. A notarizer of this kind is two functions: the request that it sends, and what it makes of the answer. Only an
answer that is neither a client's nor a server's error and carries a transaction id that is not blank is taken for one.
-/

namespace ContentVault

/-- A notarization service and how it is reached. -/
structure RemoteNotary where
  endpoint : Web.Url
  token : Option String
deriving DecidableEq, Repr, Inhabited

/-- A request to a notarization service. -/
structure NotaryRequest where
  line : String
  authorization : Option String
  contentType : String
  body : String
deriving DecidableEq, Repr, Inhabited

/-- What a notarization service answers: a status and a body. -/
structure NotaryResponse where
  status : Nat
  body : Bytes
deriving DecidableEq, Repr, Inhabited

namespace RemoteNotary

/-- The notarizer for an endpoint, if that is an address. -/
def ofEndpoint (endpoint : String) (token : Option String) : Attempt RemoteNotary :=
  match Web.Url.parse? endpoint with
  | some url => .ok ⟨url, token⟩
  | none => .error (.config ("invalid notarization endpoint '" ++ endpoint ++ "': not an absolute address"))

/-! ## The request -/

/-- Whether a token can stand in a header: it must have no control characters but tabs. -/
def isSendable (token : String) : Bool :=
  token.toList.all fun c => (0x20 ≤ c.toNat && c.toNat != 0x7f) || c == '\t'

/-- The object that is sent. -/
def requestBody (id : String) (hash : Fingerprint) : Json :=
  .object [("id", .string id), ("hash", .string hash.value), ("hash_algorithm", .string hash.algorithm)]

/-- The request that submits a digest, if there is one. -/
def request? (n : RemoteNotary) (id : String) (hash : Fingerprint) : Option NotaryRequest :=
  if (n.token.map isSendable).getD true then
    some {
      line := "POST " ++ n.endpoint.target ++ " HTTP/1.1"
      authorization := n.token.map fun token => Text.trim ("Bearer " ++ token)
      contentType := "application/json"
      body := (requestBody id hash).render }
  else none

/-! ## The answer -/

/-- An error of the service, or on the way to it. -/
def failed (what : String) : VaultFailure := .externalService what

/-- The request got no answer. -/
def noAnswer : VaultFailure := failed "notarization request failed: no response"

/-- Whether a status ends an exchange; the others announce the answer that is still to come. -/
def isFinal (status : Nat) : Bool := status == 101 || (200 ≤ status && status ≤ 999)

/-- Whether a status stands for an error of the client or of the server. -/
def isError (status : Nat) : Bool := 400 ≤ status && status ≤ 599

/-- Whether an answer with this status has no body, whatever is sent. -/
def isBodiless (status : Nat) : Bool := status == 101 || status == 204 || status == 304

/-- The transaction id that an object carries. -/
def transactionId? (value : Json) : Option String := do
  let fields ← Json.fields? ["transaction_id"] value
  fields.required "transaction_id" Json.string?

/-- What an answer, or the lack of one, comes to. -/
def interpret : Option NotaryResponse → Attempt String
  | none => .error noAnswer
  | some r =>
    if !isFinal r.status then .error noAnswer
    else if isError r.status then .error (failed ("notarization rejected: status " ++ toString r.status))
    else
      let body := if isBodiless r.status then [] else r.body
      match Json.parseBytes? body >>= transactionId? with
      | none => .error (failed "invalid notarization response: no transaction id")
      | some id =>
        if (Text.trim id).isEmpty then
          .error (failed "notarization response carried an empty transaction id")
        else .ok id

/-- Submits a digest; `exchange` is the network. -/
def store (n : RemoteNotary) (exchange : NotaryRequest → Option NotaryResponse) (id : String) (hash : Fingerprint) :
    Attempt String :=
  match n.request? id hash with
  | none => .error noAnswer
  | some request => interpret (exchange request)

end RemoteNotary

end ContentVault
