import ContentVault.Time.Instant

/-!
# Tickers

A ticker ticks at the multiples of its period from the instant at which it was started, that instant included. Whoever
waits for a tick and comes too late for some gets one tick at once in place of all that were missed; the next tick is
then the next multiple of the period.
-/

namespace ContentVault

/-- A ticker: its next tick and the span between two. -/
structure Ticker where
  due : Instant
  period : Nat
deriving DecidableEq, Repr, Inhabited

namespace Ticker

/-- The ticker after a tick that is taken at `now`. -/
def tick (t : Ticker) (now : Instant) : Ticker := { t with due := now + t.period - (now - t.due) % t.period }

/-- A tick that is taken in time is followed by the next multiple. -/
theorem due_tick_of_early (t : Ticker) (now : Instant) (late : t.due ≤ now) (early : now < t.due + t.period) :
    (t.tick now).due = t.due + t.period := by
  simp only [tick, Instant] at *
  rw [Nat.mod_eq_of_lt (by omega)]
  omega

/-- The next tick is still to come. -/
theorem lt_due_tick (t : Ticker) (now : Instant) (pos : 0 < t.period) : now < (t.tick now).due := by
  have := Nat.mod_lt (now - t.due) pos
  simp only [tick, Instant] at *
  omega

end Ticker

end ContentVault
