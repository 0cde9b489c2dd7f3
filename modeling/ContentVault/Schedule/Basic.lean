import ContentVault.Jobs.Caretaker
import ContentVault.Repeats.Sweeper
import ContentVault.Schedule.Ticker

/-!
# The schedule

A `Schedule` runs the jobs in loops, each at once and then at the ticks of its own ticker, and sweeps the guard against
duplicates from time to time. A loop that runs a job does not see ticks until the run is over. Of all that a run does,
only the calls of the notarizer take time; so a loop is either waiting for its next tick or for a call to end, and what
happens up to an instant (`advance`) is what happens at one such event after the other.
-/

namespace ContentVault

/-- A call of the notarizer that a run waits for. -/
structure PendingCall where
  entry : Entry
  /-- The entries that come after it. -/
  rest : List Entry
  report : JobTally
  ends : Instant

/-- A loop that runs a job. -/
structure JobLoop where
  job : Job
  ticker : Ticker
  call : Option PendingCall := none

/-- The loops of the jobs, and the sweeps of the guard. -/
structure Schedule where
  loops : List JobLoop := []
  sweeper : Option Sweeper := none

namespace JobLoop

variable {σ β ν : Type} [ContentOrigin σ] [BlobStorage β] [NotaryService ν]

/-- When something happens next in a loop. -/
def next (l : JobLoop) : Instant :=
  match l.call with
  | some call => call.ends
  | none => l.ticker.due

/-- How long a call takes. -/
def callSpan (w : JobState σ β ν) : Nat := Instant.millis (NotaryService.delayMillis w.notary)

/-- Submits the next of some entries, or ends the run if there is none. -/
def notarizeNext (l : JobLoop) (now : Instant) (pending : List Entry) (report : JobTally) (w : JobState σ β ν) :
    JobLoop × JobState σ β ν :=
  match pending with
  | [] => ({ l with call := none }, Caretaker.release .notarize w)
  | entry :: rest =>
    ({ l with call := some ⟨entry, rest, report, now + callSpan w⟩ }, Caretaker.submit entry w)

/-- Goes on after the call that a loop waits for. -/
def resume (l : JobLoop) (now : Instant) (w : JobState σ β ν) : JobLoop × JobState σ β ν :=
  match l.call with
  | none => (l, w)
  | some call =>
    if call.ends ≤ now then
      let (report, w) := Caretaker.settle call.entry call.report w
      l.notarizeNext now call.rest report w
    else (l, w)

/-- Runs the job of a loop. A loop whose run was cut short is gone. -/
def fire (l : JobLoop) (c : Caretaker) (now : Instant) (time : Timestamp) (w : JobState σ β ν) :
    Option JobLoop × JobState σ β ν :=
  let l := { l with ticker := l.ticker.tick now }
  match c.begin time l.job w with
  | (.error .cutShort, w) => (none, w)
  | (.error _, w) => (some l, w)
  | (.ok (.notarize pending report), w) =>
    if callSpan w = 0 then (some l, (c.finish now (.notarize pending report) w).2)
    else
      let (l, w) := l.notarizeNext now pending report w
      (some l, w)
  | (.ok run, w) =>
    match c.finish now run w with
    | (.cutShort, w) => (none, w)
    | (_, w) => (some l, w)

/-- Does what is to be done in a loop at an instant. -/
def act (l : JobLoop) (c : Caretaker) (now : Instant) (time : Timestamp) (w : JobState σ β ν) :
    Option JobLoop × JobState σ β ν :=
  let (l, w) := l.resume now w
  if l.call.isNone && l.ticker.due ≤ now then l.fire c now time w else (some l, w)

/-- Waits for the end of the run that a loop is in: when that is, and the state then. -/
def complete (l : JobLoop) (w : JobState σ β ν) : Option Instant × JobState σ β ν :=
  match l.call with
  | none => (none, w)
  | some call =>
    let (report, w) := Caretaker.settle call.entry call.report w
    let span := callSpan w
    let (_, w) := Caretaker.notarizeAll call.rest report w
    (some (call.ends + call.rest.length * span), Caretaker.release .notarize w)

end JobLoop

namespace Schedule

variable {σ β ν : Type} [ContentOrigin σ] [BlobStorage β] [NotaryService ν]

/-- The loops that a configuration asks for. What takes no time at all is done before new content is archived. -/
def start (c : Configuration) (now : Instant) : Attempt Schedule := do
  c.validate
  let loop (job : Job) (secs : UInt64) : JobLoop := { job, ticker := ⟨now, Instant.seconds secs.toNat⟩ }
  return {
    loops := [loop .notarize c.notarizationIntervalSecs, loop .orphans c.orphanSweepIntervalSecs,
      loop .archive c.archiveIntervalSecs]
    sweeper := some (.start now (Instant.seconds c.dedupSweepIntervalSecs.toNat)) }

/-- Does what is to be done in some loops at an instant. -/
def actAll (c : Caretaker) (now : Instant) (time : Timestamp) :
    List JobLoop → JobState σ β ν → List JobLoop × JobState σ β ν
  | [], w => ([], w)
  | l :: loops, w =>
    let (l, w) := l.act c now time w
    let (loops, w) := actAll c now time loops w
    (l.toList ++ loops, w)

/-- Does what is to be done at an instant. -/
def act (s : Schedule) (c : Caretaker) (now : Instant) (time : Timestamp) (w : JobState σ β ν) :
    Schedule × JobState σ β ν :=
  let (sweeper, w) := match s.sweeper with
    | none => (none, w)
    | some sweeper =>
      let (guard, sweeper) := Sweeper.advance w.guard sweeper now
      (some sweeper, { w with guard })
  let (loops, w) := actAll c now time s.loops w
  (⟨loops, sweeper⟩, w)

/-- When something happens next. -/
def next? (s : Schedule) : Option Instant :=
  (s.loops.map JobLoop.next ++ (s.sweeper.map Sweeper.next).toList).min?

/-- Lets time pass from one instant to another. -/
def advance (s : Schedule) (c : Caretaker) (time : Timestamp) (now target : Instant) (w : JobState σ β ν) :
    Schedule × JobState σ β ν :=
  let (s, w) := s.act c now time w
  match s.next? with
  | none => (s, w)
  | some t => if now < t ∧ t ≤ target then s.advance c time t target w else (s, w)
termination_by target - now
decreasing_by
  simp only [Instant] at *
  omega

/-- Stops all loops; a run that is going on ends first. Gives the instant at which that is so. -/
def stop (s : Schedule) (now : Instant) (w : JobState σ β ν) : Instant × JobState σ β ν :=
  s.loops.foldl (fun (now, w) l =>
    let (ends, w) := l.complete w
    (max now (ends.getD now), w)) (now, w)

/-! ## Runs outside the schedule -/

/-- Notarizes one entry after the other, while the loops go on. -/
def notarizeAll (c : Caretaker) (time : Timestamp) :
    List Entry → JobTally → Schedule → Instant → JobState σ β ν →
      JobTally × Schedule × Instant × JobState σ β ν
  | [], report, s, now, w => (report, s, now, w)
  | entry :: rest, report, s, now, w =>
    let ends := now + JobLoop.callSpan w
    let w := Caretaker.submit entry w
    let (s, w) := if now < ends then s.advance c time now ends w else (s, w)
    let (report, w) := Caretaker.settle entry report w
    notarizeAll c time rest report s ends w

/-- Runs a job besides the loops: what comes of it, and when it is over. -/
def runJob (s : Schedule) (c : Caretaker) (time : Timestamp) (job : Job) (now : Instant) (w : JobState σ β ν) :
    RunOutcome × Schedule × Instant × JobState σ β ν :=
  match c.begin time job w with
  | (.error outcome, w) => (outcome, s, now, w)
  | (.ok (.notarize pending report), w) =>
    let (report, s, now, w) := notarizeAll c time pending report s now w
    (.finished report, s, now, Caretaker.release .notarize w)
  | (.ok run, w) =>
    let (outcome, w) := c.finish now run w
    (outcome, s, now, w)

end Schedule

end ContentVault
