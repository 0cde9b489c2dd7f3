import ContentVault.Notary.Remote
import ContentVault.Store.Uuid

/-!
# Notarizers

A notarizer is given a digest under an id and answers with a transaction id. `StandInNotary` is the one for development:
it refuses the ids it is told to refuse and makes up a transaction id for the others. `Notary.ofConfig` chooses the
notarizer that the settings ask for.
-/

namespace ContentVault

/-- A notarizer as a job sees it. A call begins, takes its time, and then has a result. -/
class NotaryService (ν : Type) where
  /-- A digest is submitted under an id. -/
  submit : ν → (id : String) → Fingerprint → ν
  /-- The result of the call. -/
  settle : ν → (id : String) → Fingerprint → Attempt String × ν
  /-- How long a call takes, in milliseconds. -/
  delayMillis : ν → Nat

/-- A notarizer that leaves the process alone. -/
structure StandInNotary where
  /-- How long a call takes, in milliseconds. -/
  delayMillis : Nat := 100
  /-- The ids that are refused. -/
  refused : List String := []
  /-- How many calls there were. -/
  calls : Nat := 0
deriving DecidableEq, Repr, Inhabited

namespace StandInNotary

/-- Refuses an id from now on. -/
def refuse (n : StandInNotary) (id : String) : StandInNotary := { n with refused := id :: n.refused }

/-- What a call comes to; `fresh` makes the transaction id unique. -/
def answer (n : StandInNotary) (id : String) (hash : Fingerprint) (fresh : Uuid) : Attempt String :=
  if id ∈ n.refused then .error (.externalService ("mock notarizer rejected " ++ id))
  else .ok ("mock-" ++ String.ofList (hash.value.toList.take 12) ++ "-" ++ fresh.text)

instance : NotaryService StandInNotary where
  submit n _ _ := { n with calls := n.calls + 1 }
  settle n id hash := (n.answer id hash (.ofNat n.calls), n)
  delayMillis := delayMillis

end StandInNotary

/-- A notarizer as the settings ask for it. -/
inductive Notary where
  | mock (n : StandInNotary)
  | http (n : RemoteNotary)

namespace Notary

/-- The name of the kind of notarizer. -/
def name : Notary → String
  | mock _ => "mock"
  | http _ => "http"

/-- The notarizer that settings ask for. -/
def ofConfig (c : NotaryConfiguration) : Attempt Notary :=
  match c.backend with
  | .mock => .ok (mock {})
  | .http =>
    match c.endpoint with
    | none => .error (.config "No endpoint configured for HTTP notarization")
    | some endpoint => (RemoteNotary.ofEndpoint endpoint c.token).map http

end Notary

end ContentVault
