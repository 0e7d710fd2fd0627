import ShuffleService.Clock

/-!
# Background work at fixed intervals

A task that was started at some moment is due again after each full interval. Time moves forward in
one go, and the moments at which tasks are due lie on the way.
-/

namespace ShuffleService

/-- A task that runs again and again. -/
structure Recurring where
  startedAt : ClockReading
  /-- The time between two runs in milliseconds. -/
  interval : Nat
  deriving DecidableEq, Repr

namespace Recurring

/-- The number of intervals that are over. -/
def elapsed (t : Recurring) (now : ClockReading) : Int := (now - t.startedAt) / t.interval

/-- Whether the task is due at a moment. -/
def isDue (t : Recurring) (now : ClockReading) : Bool :=
  0 < t.interval && t.startedAt < now && (now - t.startedAt) % t.interval = 0

/-- The moments after `now`, up to `stop`, at which the task is due. -/
def dueBetween (t : Recurring) (now stop : ClockReading) : List ClockReading :=
  if t.interval = 0 then []
  else
    let first := max 1 (t.elapsed now + 1)
    (List.range (t.elapsed stop - first + 1).toNat).map fun i : Nat =>
      t.startedAt + (first + i) * t.interval

end Recurring

/-- Distinct moments in order. -/
def sortMoments (ms : List ClockReading) : List ClockReading :=
  (ms.mergeSort (· ≤ ·)).foldr (fun m later => if later.head? = some m then later else m :: later) []

/-- The moments at which time has to stop between `now` and `stop`, which is the last of them. -/
def stopsBetween (tasks : List Recurring) (now stop : ClockReading) : List ClockReading :=
  sortMoments (tasks.flatMap (·.dueBetween now stop)) ++ [stop]

end ShuffleService
