import ContentVault.Bytes

/-!
# Authenticated encryption

An `Aead` encrypts a plaintext under a key, a nonce and associated data. What comes out is the ciphertext and a
16-byte tag, together called sealed, and it decrypts only with the key, the nonce and the associated data it was
made with. What the rest of the library relies on is kept in the type: unsealing undoes encryption, and
encryption adds 16 bytes.

Main construction: `Aead.ofStream` builds an `Aead` from a keystream and an authentication tag over the
ciphertext.
-/

namespace ContentVault

/-- A 256-bit key. -/
structure Key where
  bytes : Bytes
  length_bytes : bytes.length = 32
deriving DecidableEq

/-- The byte string as a key, if it has the length of one. -/
def Key.ofBytes? (bytes : Bytes) : Option Key :=
  if h : bytes.length = 32 then some ⟨bytes, h⟩ else none

/-- A 96-bit nonce. -/
structure Nonce where
  bytes : Bytes
  length_bytes : bytes.length = 12
deriving DecidableEq

/-- The byte string as a nonce, if it has the length of one. -/
def Nonce.ofBytes? (bytes : Bytes) : Option Nonce :=
  if h : bytes.length = 12 then some ⟨bytes, h⟩ else none

@[simp] theorem Nonce.ofBytes?_bytes (n : Nonce) : Nonce.ofBytes? n.bytes = some n := by
  simp [Nonce.ofBytes?, n.length_bytes]

/-- The length of an authentication tag. -/
def tagLength : Nat := 16

/-- Authenticated encryption with associated data. -/
structure Aead where
  /-- Ciphertext and tag of a plaintext. -/
  encrypt : Key → Nonce → (aad plain : Bytes) → Bytes
  /-- The plaintext of sealed bytes, if they are authentic. -/
  decrypt : Key → Nonce → (aad sealed : Bytes) → Option Bytes
  /-- What was encrypted is decrypted again. -/
  decrypt_encrypt : ∀ k n aad plain, decrypt k n aad (encrypt k n aad plain) = some plain
  /-- A sealed plaintext is one tag longer. -/
  length_encrypt : ∀ k n aad plain, (encrypt k n aad plain).length = plain.length + tagLength

namespace Aead

/-! ## Encrypt with a keystream, then authenticate the ciphertext -/

variable (keystream : Key → Nonce → Nat → Bytes) (tag : Key → Nonce → Bytes → Bytes → Bytes)

/-- The ciphertext and its tag. -/
def streamEncrypt (k : Key) (n : Nonce) (aad plain : Bytes) : Bytes :=
  let cipher := Bytes.xor plain (keystream k n plain.length)
  cipher ++ tag k n aad cipher

/-- The plaintext, if the last 16 bytes are the tag of the rest. -/
def streamDecrypt (k : Key) (n : Nonce) (aad sealed : Bytes) : Option Bytes :=
  if sealed.length < tagLength then none
  else
    let cipher := sealed.take (sealed.length - tagLength)
    if sealed.drop (sealed.length - tagLength) = tag k n aad cipher then
      some (Bytes.xor cipher (keystream k n cipher.length))
    else none

/-- The authenticated encryption given by a keystream of the asked length and a tag of 16 bytes. -/
def ofStream (length_keystream : ∀ k n count, (keystream k n count).length = count)
    (length_tag : ∀ k n aad cipher, (tag k n aad cipher).length = tagLength) : Aead where
  encrypt := streamEncrypt keystream tag
  decrypt := streamDecrypt keystream tag
  decrypt_encrypt k n aad plain := by
    have hlen : (Bytes.xor plain (keystream k n plain.length)).length = plain.length := by
      simp [length_keystream]
    simp only [streamDecrypt, streamEncrypt, List.length_append, length_tag, hlen,
      Nat.add_sub_cancel, List.take_left' hlen, List.drop_left' hlen]
    rw [if_neg (by omega), if_pos trivial, Bytes.xor_xor_cancel]
    simp [length_keystream]
  length_encrypt k n aad plain := by
    simp [streamEncrypt, length_keystream, length_tag]

end Aead

end ContentVault
