import Cookbook.Failure
import Cookbook.Listing.Counts

/-!
# Progress towards publication

A collection qualifies when it has enough published recipes.  Its progress is the share of the
target that is published, in percent with two places, kept within 0 and 100.
-/

namespace Cookbook

namespace Progress

def clamp (x : Binary64) : Binary64 :=
  let hundred := Binary64.ofInt 100
  let x := if Binary64.zero.compare? x == some .gt then Binary64.zero else x
  if hundred.compare? x == some .lt then hundred else x

/-- The percentage of a target; none when the quotient is too large to be a number. -/
def percent? (published target : Int) : Option Binary64 :=
  if target ≤ 0 then some Binary64.zero
  else
    let quotient := Binary64.ofRatio (decide (published < 0)) published.natAbs target.toNat
    if quotient.isFinite then some ((clamp (quotient.scaleBy 100)).roundTo 2) else none

end Progress

structure Progress where
  progress : Binary64
  qualified : Bool
  /-- Not qualified, and the progress has reached the threshold. -/
  near : Bool
deriving DecidableEq, Repr

namespace Progress

def of (counts : Counts) (minRequired target : Int) (threshold : Number) : Attempt Progress :=
  match percent? counts.published target with
  | none => .error .overflow
  | some p =>
    let qualified := decide (minRequired ≤ counts.published)
    let reached := match (Number.float p).compare? threshold with
      | some o => o != .lt
      | none => false
    .ok ⟨p, qualified, !qualified && reached⟩

def qualifiedWord : String := "qualified"

def unqualifiedWord : String := "unqualified"

def statusWord (p : Progress) : String := if p.qualified then qualifiedWord else unqualifiedWord

def displayWord (p : Progress) : String :=
  if p.qualified then qualifiedWord else if p.near then "near" else unqualifiedWord

end Progress

end Cookbook
