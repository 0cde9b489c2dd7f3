import ContentVault.Failure
import ContentVault.Time.Instant

/-!
# Duplicate suppression

The same item may be asked for again before it has been dealt with. A `RepeatGuard` lets one request for an id through
per window of time: a request that is accepted closes the id for the length of the window. Ids whose window is over are
kept until a sweep removes them, which makes no difference to any answer.
-/

namespace ContentVault

/-- A guard. -/
structure RepeatGuard where
  /-- The length of the window, in nanoseconds. -/
  threshold : Nat
  /-- The ids that were let through, each with the instant from which it will be again. -/
  windows : List (String × Instant) := []
  /-- Whether a request was cut short while it held the lock; nobody gets the lock any more after that. -/
  poisoned : Bool := false
deriving DecidableEq, Repr, Inhabited

/-- What a guard says about a request. -/
inductive Verdict where
  | accepted
  | suppressed
  /-- Nothing, because the lock is not to be had. -/
  | unavailable
  /-- Nothing, because the end of the window would be beyond the last instant; the request is cut short. -/
  | cutShort
deriving DecidableEq, Repr, Inhabited

namespace RepeatGuard

/-- Sets the end of the window of an id. -/
def setWindow (id : String) (reopens : Instant) : List (String × Instant) → List (String × Instant)
  | [] => [(id, reopens)]
  | (i, u) :: rest => if i = id then (id, reopens) :: rest else (i, u) :: setWindow id reopens rest

/-- Whether the window of an id is open. -/
def isClosed (g : RepeatGuard) (now : Instant) (id : String) : Bool :=
  match g.windows.lookup id with
  | some reopens => now < reopens
  | none => false

/-- Asks whether an id may be processed. Yes closes it for the length of the window. -/
def test (g : RepeatGuard) (now : Instant) (id : String) : Verdict × RepeatGuard :=
  if g.poisoned then (.unavailable, g)
  else if g.isClosed now id then (.suppressed, g)
  else
    match Instant.after? now g.threshold with
    | some reopens => (.accepted, { g with windows := setWindow id reopens g.windows })
    | none => (.cutShort, { g with poisoned := true })

/-- Removes the ids whose window is over, and says how many they are. -/
def sweep (g : RepeatGuard) (now : Instant) : Attempt Nat × RepeatGuard :=
  if g.poisoned then (.error .lock, g)
  else
    let kept := g.windows.filter fun (_, reopens) => now < reopens
    (.ok (g.windows.length - kept.length), { g with windows := kept })

/-- The number of ids that are kept. -/
def size (g : RepeatGuard) : Attempt Nat := if g.poisoned then .error .lock else .ok g.windows.length

end RepeatGuard

end ContentVault
