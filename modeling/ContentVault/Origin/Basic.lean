import ContentVault.Entry.Content

/-!
# Where content comes from

What the vault asks of the repository that content is archived from: which items are flagged for archiving, the content
of an item, and to be told when an item is in the vault. Any of this may fail, and may turn out differently the next
time; so every request gives, with its answer, the repository as it is afterwards.
-/

namespace ContentVault

/-- A repository that content comes from. -/
class ContentOrigin (σ : Type) where
  /-- The content of an item. -/
  fetch : σ → (id : String) → Attempt OfferedContent × σ
  /-- The items that are flagged for archiving. -/
  flagged : σ → (query : String) → Attempt (List String) × σ
  /-- Notes that an item is in the vault. -/
  acknowledge : σ → (id : String) → Attempt Unit × σ
  /-- Removes an item. -/
  delete : σ → (id : String) → Attempt Unit × σ

end ContentVault
