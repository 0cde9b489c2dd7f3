import ContentVault.Derivation.Hmac

/-!
# HKDF-SHA-256

Extract-then-expand key derivation. Only the first output block is needed: a derived key is as long as one
digest.
-/

namespace ContentVault.Hkdf

/-- The 32-byte key for input keying material, a salt and a context string. -/
def derive (material salt info : Bytes) : Bytes :=
  Hmac.tag (Hmac.tag salt material) (info ++ [1])

@[simp] theorem length_derive (material salt info : Bytes) :
    (derive material salt info).length = 32 := by
  simp [derive]

end ContentVault.Hkdf
