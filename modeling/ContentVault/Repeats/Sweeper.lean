import ContentVault.Repeats.Guard

/-!
# Periodic sweeps

A sweeper sweeps a guard again and again, first one interval after it was started.
-/

namespace ContentVault

/-- A sweeper: when it sweeps next, and how long it waits between two sweeps. -/
structure Sweeper where
  next : Instant
  interval : Nat
deriving DecidableEq, Repr, Inhabited

namespace Sweeper

/-- A sweeper that starts now. -/
def start (now : Instant) (interval : Nat) : Sweeper := ⟨now + interval, interval⟩

/-- The number of sweeps that are due up to an instant. -/
def due (s : Sweeper) (now : Instant) : Nat :=
  if s.interval = 0 ∨ now < s.next then 0 else (now - s.next) / s.interval + 1

/-- Makes a number of sweeps. -/
def sweeps (g : RepeatGuard) (s : Sweeper) : (count : Nat) → RepeatGuard × Sweeper
  | 0 => (g, s)
  | count + 1 => sweeps (g.sweep s.next).2 { s with next := s.next + s.interval } count

/-- Lets time pass up to an instant. -/
def advance (g : RepeatGuard) (s : Sweeper) (now : Instant) : RepeatGuard × Sweeper := sweeps g s (s.due now)

end Sweeper

end ContentVault
