import ContentVault.Digest.Sha256

/-!
# HMAC-SHA-256

A keyed hash of a message. The key enters only through the first block of each of the two hashes, so a `Key`
is kept as the two chaining values after those blocks: a key that is used many times is prepared once.
-/

namespace ContentVault.Hmac

open Sha256 (State)

/-- A key, prepared: the chaining values after the inner and the outer key block. -/
structure Key where
  inner : State
  outer : State

/-- The key block: keys longer than a block are hashed first, shorter ones are filled up with zeros. -/
def keyBlock (key : Bytes) : Bytes :=
  let short := if key.length ≤ 64 then key else Sha256.digest key
  short ++ List.replicate (64 - short.length) 0

/-- Prepares a key. -/
def Key.ofBytes (key : Bytes) : Key :=
  let masked (mask : UInt8) : State :=
    (Sha256.absorb .initial (Array.mkEmpty 64) ((keyBlock key).map (· ^^^ mask))).1
  ⟨masked 0x36, masked 0x5c⟩

/-- A chaining value as the only block after a key block. -/
def digestBlock (s : State) : Array UInt32 :=
  let words := (Array.mkEmpty 64).push s.a |>.push s.b |>.push s.c |>.push s.d
  let words := words.push s.e |>.push s.f |>.push s.g |>.push s.h
  let words := words.push 0x80000000 |>.push 0 |>.push 0 |>.push 0
  words.push 0 |>.push 0 |>.push 0 |>.push 768

/-- The outer hash, given the inner one. -/
def Key.close (key : Key) (inner : State) : State := key.outer.compress (digestBlock inner)

/-- The tag of a message. -/
def Key.tag (key : Key) (message : Bytes) : State :=
  key.close (key.inner.finish (64 + message.length) message)

/-- The tag of a message that is itself a tag. -/
def Key.tagAgain (key : Key) (tag : State) : State :=
  key.close (key.inner.compress (digestBlock tag))

/-- The tag of a message under a key, as bytes. -/
def tag (key message : Bytes) : Bytes := ((Key.ofBytes key).tag message).toBytes

@[simp] theorem length_tag (key message : Bytes) : (tag key message).length = 32 := by
  simp [tag]

end ContentVault.Hmac
