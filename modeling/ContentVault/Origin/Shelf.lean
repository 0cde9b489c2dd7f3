import ContentVault.Origin.Basic

/-!
# Content in memory

A `Shelf` is a repository in memory that keeps a log of what it is asked. Single items, and the list of flagged ones,
can be made to fail.
-/

namespace ContentVault

/-- An item on a shelf. -/
structure ShelfItem where
  content : OfferedContent
  fetchFails : Bool := false
  markFails : Bool := false
  deleteFails : Bool := false
deriving Repr, Inhabited

/-- A repository in memory. -/
structure Shelf where
  items : List (String × ShelfItem) := []
  /-- The flagged items, in the order in which they were flagged. -/
  listed : List String := []
  listingFails : Bool := false
  /-- The queries that were made, oldest first. -/
  queries : List String := []
  /-- The items that were asked for, whether they could be given or not. -/
  fetched : List String := []
  /-- The items that were marked. -/
  marked : List String := []
  /-- The items that were deleted. -/
  deleted : List String := []
deriving Repr, Inhabited

namespace Shelf

/-- Puts an item on the shelf in place of the one that may be there. -/
def put (s : Shelf) (id : String) (item : ShelfItem) : Shelf :=
  { s with items := (id, item) :: s.items.filter fun e => e.1 != id }

/-- Flags an item, once more if it is flagged already. -/
def flag (s : Shelf) (id : String) : Shelf := { s with listed := s.listed ++ [id] }

/-- Unflags an item. -/
def unflag (s : Shelf) (id : String) : Shelf := { s with listed := s.listed.filter fun i => i != id }

/-- An error of the repository. -/
def broken (reason : String) : VaultFailure := .externalService reason

/-- Gives an item. -/
def fetch (s : Shelf) (id : String) : Attempt OfferedContent × Shelf :=
  let s := { s with fetched := id :: s.fetched }
  match s.items.lookup id with
  | none => (.error (.notFound id), s)
  | some item => (if item.fetchFails then .error (broken ("source refused " ++ id)) else .ok item.content, s)

/-- Gives the flagged items. -/
def flagged (s : Shelf) (query : String) : Attempt (List String) × Shelf :=
  let s := { s with queries := s.queries ++ [query] }
  (if s.listingFails then .error (broken "source is down") else .ok s.listed, s)

/-- Marks an item. -/
def acknowledge (s : Shelf) (id : String) : Attempt Unit × Shelf :=
  if ((s.items.lookup id).map ShelfItem.markFails).getD false then (.error (broken ("source refused " ++ id)), s)
  else (.ok (), { s with marked := id :: s.marked })

/-- Deletes an item: it is not flagged any more. -/
def delete (s : Shelf) (id : String) : Attempt Unit × Shelf :=
  if ((s.items.lookup id).map ShelfItem.deleteFails).getD false then (.error (broken ("source refused " ++ id)), s)
  else (.ok (), { s.unflag id with deleted := id :: s.deleted })

instance : ContentOrigin Shelf where
  fetch := fetch
  flagged := flagged
  acknowledge := acknowledge
  delete := delete

end Shelf

end ContentVault
