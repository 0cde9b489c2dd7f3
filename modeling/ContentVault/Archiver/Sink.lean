import ContentVault.Bytes
import ContentVault.Failure

/-!
# Sinks

A `Sink` is where restored bytes go. It takes what it is given until, if ever, it fails: when more than a certain number
of bytes have come, or when it is told to have everything written. It is told so twice, at the end of the copy and, once
the bytes have turned out right, at the very end.
-/

namespace ContentVault

/-- Where restored bytes go. -/
structure Sink where
  /-- How many bytes it takes, and how it fails when more come. -/
  limit : Option (Nat × IoError) := none
  /-- How it fails at the end of the copy. -/
  flushFailure : Option IoError := none
  /-- How it fails at the very end. -/
  lastFlushFailure : Option IoError := none
deriving DecidableEq, Repr, Inhabited

namespace Sink

/-- Copies a stream of these bytes and this ending into a sink: the bytes that arrive, and what went wrong. -/
def take (s : Sink) (bytes : Bytes) (ending : Option IoError) : Bytes × Option IoError :=
  match s.limit with
  | some (room, e) =>
    if room < bytes.length then (bytes.take room, some e) else (bytes, ending <|> s.flushFailure)
  | none => (bytes, ending <|> s.flushFailure)

end Sink

end ContentVault
