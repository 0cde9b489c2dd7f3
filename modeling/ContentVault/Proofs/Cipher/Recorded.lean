import ContentVault.Digest.Basic
import ContentVault.Entry.Content
import ContentVault.Proofs.Cipher.Frames
import ContentVault.Proofs.Json.Records

/-! # What a record keeps, and what is made of it

    A record keeps the name of a cipher or a digest algorithm, the bytes of a
    nonce and the bytes of a sealed label.  Each of them is taken back as what
    it was (`ofId_id`, `ofRecord_bytes`, `openLabel_sealLabel`,
    `ofBytes?_toBytes`). -/

namespace ContentVault

/-! ## Names -/

@[simp] theorem CipherSuite.ofId_id (a : CipherSuite) : ofId a.id = .ok a := by
  cases a <;> rfl

@[simp] theorem DigestAlgorithm.ofId_id (a : DigestAlgorithm) : ofId a.id = .ok a := by
  cases a <;> rfl

@[simp] theorem Nonce.ofRecord_bytes (n : Nonce) : ofRecord n.bytes = .ok n := by
  unfold ofRecord
  rw [ofBytes?_bytes]

/-! ## Labels -/

namespace ContentLabel

theorem isSettled_toJson (m : ContentLabel) (depth : Nat) : m.toJson.IsSettled (depth + 1) :=
  .record (by simp) ⟨.some (.string _), .some (.string _), .map .word64 _⟩

/-- A label is read as it was written. -/
theorem read?_toJson (m : ContentLabel) : read? m.toJson = some m := by
  obtain ⟨members, hmembers, hgiven⟩ := Json.fields?_record m.toJson rfl (by simp)
  refine Option.bind_eq_some_iff.mpr ⟨⟨false, members⟩, hmembers, ?_⟩
  rw [hgiven.required 0 rfl, hgiven.required 1 rfl, hgiven.optional 2 rfl Json.nullable?_word64]
  rfl

/-- A label is read from its bytes as it was, whatever its texts hold. -/
@[simp] theorem ofBytes?_toBytes (m : ContentLabel) : ofBytes? m.toBytes = some m := by
  unfold ofBytes? toBytes
  rw [Json.parseBytes?_render (m.isSettled_toJson 0).sound]
  exact m.read?_toJson

end ContentLabel

/-! ## Sealed bytes -/

/-- A sealed label opens under the name of its cipher, its key and its nonce. -/
theorem Cipher.openLabel_sealLabel (a : CipherSuite) (key : Key) (nonce : Nonce) (plain : Bytes) :
    openLabel a.id key nonce.bytes (sealLabel a key nonce plain) = .ok plain := by
  have hopen := a.aead.decrypt_encrypt key nonce labelBinding plain
  unfold openLabel sealLabel
  simp only [CipherSuite.ofId_id, Nonce.ofRecord_bytes, bind, Except.bind, hopen]

namespace Frames

/-- Frames under the name of their cipher, their key and their base nonce. -/
theorem decryptRecorded_eq {σ : Type} [ByteReader σ] (a : CipherSuite) (key : Key) (base : Nonce)
    (s : σ) : decryptRecorded a.id key base.bytes s = .ok (decrypt a.aead key base s) := by
  unfold decryptRecorded
  rw [CipherSuite.ofId_id, Nonce.ofRecord_bytes]
  rfl

end Frames

end ContentVault
