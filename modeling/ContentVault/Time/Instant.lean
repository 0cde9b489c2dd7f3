/-!
# Instants

Where only spans of time matter, a moment is an `Instant`: the number of nanoseconds since some beginning. There is a
last instant, and a time beyond it does not exist.
-/

namespace ContentVault

/-- A point on a clock that never goes back, in nanoseconds. -/
abbrev Instant := Nat

namespace Instant

/-- The last instant: seconds are counted in 63 bits. -/
def last : Instant := 0x8000000000000000 * 1000000000 - 1

/-- The instant a span of time later, if it exists. -/
def after? (now : Instant) (span : Nat) : Option Instant :=
  if now + span ≤ last then some (now + span) else none

/-- A number of milliseconds, as a span. -/
def millis (n : Nat) : Nat := n * 1000000

/-- A number of seconds, as a span. -/
def seconds (n : Nat) : Nat := n * 1000000000

end Instant

end ContentVault
