import ContentVault.Derivation.Hmac

/-!
# PBKDF2-HMAC-SHA-256

Password-based key derivation by iterating a keyed hash. Only the first output block is needed: a derived key
is as long as one tag.
-/

namespace ContentVault.Pbkdf2

open Sha256 (State)

/-- Bitwise exclusive or of two chaining values. -/
def mask (s t : State) : State :=
  ⟨s.a ^^^ t.a, s.b ^^^ t.b, s.c ^^^ t.c, s.d ^^^ t.d, s.e ^^^ t.e, s.f ^^^ t.f, s.g ^^^ t.g, s.h ^^^ t.h⟩

/-- Runs `n` further iterations from the last tag `u`, collecting every tag in `sum`. -/
def iterate (key : Hmac.Key) : (n : Nat) → (u sum : State) → State
  | 0, _, sum => sum
  | n + 1, u, sum =>
    let u := key.tagAgain u
    iterate key n u (mask sum u)

/-- The 32-byte key for a password, a salt and an iteration count. -/
def derive (password salt : Bytes) (iterations : Nat) : Bytes :=
  let key := Hmac.Key.ofBytes password
  let first := key.tag (salt ++ [0, 0, 0, 1])
  (iterate key (iterations - 1) first first).toBytes

@[simp] theorem length_derive (password salt : Bytes) (iterations : Nat) :
    (derive password salt iterations).length = 32 := by
  simp [derive]

end ContentVault.Pbkdf2
