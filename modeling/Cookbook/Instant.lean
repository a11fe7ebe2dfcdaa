/-!
# Instants

A point in time is a count of microseconds since the start of 1970 in UTC.  Its ISO 8601 text shows
the microseconds only when there are some.
-/

namespace Cookbook

structure Instant where
  micros : Int
deriving DecidableEq, Repr, Inhabited

namespace Instant

instance : LT Instant := ⟨fun a b => a.micros < b.micros⟩

instance : LE Instant := ⟨fun a b => a.micros ≤ b.micros⟩

instance (a b : Instant) : Decidable (a < b) := inferInstanceAs (Decidable (a.micros < b.micros))

instance (a b : Instant) : Decidable (a ≤ b) := inferInstanceAs (Decidable (a.micros ≤ b.micros))

def microsPerSecond : Int := 1000000

def addMicros (t : Instant) (n : Int) : Instant := ⟨t.micros + n⟩

def addSeconds (t : Instant) (n : Int) : Instant := t.addMicros (n * microsPerSecond)

def elapsed (since now : Instant) : Int := now.micros - since.micros

/-- Days from the start of 1970 to a date of the Gregorian calendar. -/
def daysOfDate (year month day : Int) : Int :=
  let y := if month ≤ 2 then year - 1 else year
  let era := y / 400
  let yearOfEra := y - era * 400
  let monthFromMarch := if month ≤ 2 then month + 9 else month - 3
  let dayOfYear := (153 * monthFromMarch + 2) / 5 + day - 1
  let dayOfEra := yearOfEra * 365 + yearOfEra / 4 - yearOfEra / 100 + dayOfYear
  era * 146097 + dayOfEra - 719468

def dateOfDays (days : Int) : Int × Int × Int :=
  let z := days + 719468
  let era := z / 146097
  let dayOfEra := z - era * 146097
  let yearOfEra := (dayOfEra - dayOfEra / 1460 + dayOfEra / 36524 - dayOfEra / 146096) / 365
  let dayOfYear := dayOfEra - (365 * yearOfEra + yearOfEra / 4 - yearOfEra / 100)
  let monthFromMarch := (5 * dayOfYear + 2) / 153
  let day := dayOfYear - (153 * monthFromMarch + 2) / 5 + 1
  let month := if monthFromMarch < 10 then monthFromMarch + 3 else monthFromMarch - 9
  let year := yearOfEra + era * 400 + (if month ≤ 2 then 1 else 0)
  (year, month, day)

def padded (width : Nat) (n : Nat) : String :=
  let ds := Nat.toDigits 10 n
  String.ofList (List.replicate (width - ds.length) '0' ++ ds)

/-- Date and time without a zone. -/
def iso (t : Instant) : String :=
  let seconds := t.micros / microsPerSecond
  let micros := (t.micros % microsPerSecond).toNat
  let days := seconds / 86400
  let ofDay := (seconds % 86400).toNat
  let (year, month, day) := dateOfDays days
  padded 4 year.toNat ++ "-" ++ padded 2 month.toNat ++ "-" ++ padded 2 day.toNat ++ "T" ++
    padded 2 (ofDay / 3600) ++ ":" ++ padded 2 (ofDay / 60 % 60) ++ ":" ++ padded 2 (ofDay % 60) ++
    (if micros = 0 then "" else "." ++ padded 6 micros)

def isoOffset (t : Instant) : String := t.iso ++ "+00:00"

def isoZulu (t : Instant) : String := t.iso ++ "Z"

/-- The number written by exactly `count` leading digits, and the rest. -/
def digits? (count : Nat) (cs : List Char) : Option (Nat × List Char) :=
  let ds := cs.take count
  if ds.length = count ∧ ds.all Char.isDigit then
    some (ds.foldl (fun n d => n * 10 + (d.toNat - 48)) 0, cs.drop count)
  else none

def after? (c : Char) : List Char → Option (List Char)
  | d :: rest => if c = d then some rest else none
  | [] => none

def fraction (cs : List Char) : Nat × List Char :=
  match cs with
  | '.' :: rest =>
    let ds := (rest.takeWhile Char.isDigit).take 6
    let n := ds.foldl (fun n d => n * 10 + (d.toNat - 48)) 0
    (n * Nat.pow 10 (6 - ds.length), rest.dropWhile Char.isDigit)
  | rest => (0, rest)

/-- The offset from UTC in minutes: none, the letter Z, or hours and minutes with a sign. -/
def offset? : List Char → Option Int
  | [] => some 0
  | ['Z'] => some 0
  | c :: rest => do
    let (hours, rest) ← digits? 2 rest
    let rest ← if rest.isEmpty then some ['0', '0'] else (after? ':' rest).orElse fun _ => some rest
    let (minutes, rest) ← digits? 2 rest
    let size : Int := hours * 60 + minutes
    if !rest.isEmpty then none
    else if c = '+' then some size
    else if c = '-' then some (-size)
    else none

/-- Reads a date, or a date and time with an optional zone; without a zone it is UTC. -/
def ofIso? (s : String) : Option Instant := do
  let (year, rest) ← digits? 4 s.toList
  let (month, rest) ← digits? 2 (← after? '-' rest)
  let (day, rest) ← digits? 2 (← after? '-' rest)
  let date := daysOfDate year month day
  match rest with
  | [] => some ⟨date * 86400 * microsPerSecond⟩
  | separator :: rest =>
    if separator ≠ 'T' ∧ separator ≠ ' ' then none
    else do
      let (hour, rest) ← digits? 2 rest
      let (minute, rest) ← digits? 2 (← after? ':' rest)
      let (second, rest) ← match rest with
        | ':' :: rest => digits? 2 rest
        | rest => some (0, rest)
      let (micros, rest) := fraction rest
      let offset ← offset? rest
      let seconds : Int := date * 86400 + hour * 3600 + minute * 60 + second - offset * 60
      some ⟨seconds * microsPerSecond + micros⟩

end Instant

end Cookbook
