import Cookbook.Failure
import Cookbook.Instant

/-!
# Time zones

Times are stored without a zone, and the process takes them for times of its own zone when it turns
them into numbers.  Where clocks are put back a time is shown at two moments, of which the first is
meant, and where they are put forward it is shown at none.
-/

namespace Cookbook

structure Zone where
  /-- How many seconds clocks are ahead of UTC until they are changed. -/
  offset : Int
  /-- The moments of the changes, in seconds since the start of 1970, the first one first, each with
  what clocks are ahead of UTC from then on. -/
  changes : List (Int × Int)
deriving DecidableEq, Repr

namespace Zone

def utc : Zone := ⟨0, []⟩

def offsetAt (z : Zone) (moment : Int) : Int :=
  z.changes.foldl (fun before (start, next) => if start ≤ moment then next else before) z.offset

def firstDay : Int := Instant.daysOfDate 1 1 1

def lastDay : Int := Instant.daysOfDate 9999 12 31

/-- What clocks show at a moment; they show only years of one to four digits. -/
def clock? (z : Zone) (moment : Int) : Attempt Int :=
  let shown := moment + z.offsetAt moment
  let day := shown / 86400
  if firstDay ≤ day ∧ day ≤ lastDay then .ok shown
  else .error (.value ("year " ++ toString (Instant.dateOfDays day).1 ++ " is out of range"))

/-- The moment at which clocks show a time.  A time that they never show counts as it would have,
had they not been put forward. -/
def moment? (z : Zone) (shown : Int) : Attempt Int := do
  let first := shown - ((← z.clock? shown) - shown)
  let back ← z.clock? first
  -- Another moment may come before the first one that is found.
  let near := if back = shown then first - 86400 else first
  let second := shown - ((← z.clock? near) - near)
  if (← z.clock? second) = shown then .ok second
  else if back = shown then .ok first
  else .ok (max first second)

/-- A stored time as a number of seconds.  Its microseconds are rounded to a part of a second
before they are added. -/
def timestamp? (z : Zone) (t : Instant) : Attempt Binary64 := do
  let seconds ← z.moment? (t.micros / Instant.microsPerSecond)
  let part := Binary64.ofRatio false (t.micros % Instant.microsPerSecond).toNat 1000000
  .ok (part.addInt seconds)

/-- The number by which a stored time is ordered. -/
def key? (z : Zone) (t : Instant) : Attempt Int := (z.timestamp? t).map Binary64.rank

end Zone

end Cookbook
