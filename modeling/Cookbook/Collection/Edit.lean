import Cookbook.Collection.Request

/-!
# Changing collections

What each change makes of a row.  A change of what the listing depends on clears the time of the
counts.  A rule that only spells its numbers differently is no change, and the stored one stays.
-/

namespace Cookbook.Collection

def ofNew (n : NewCollection) (rules : Json) (id : String) (now : Instant) : Collection where
  id := id
  name := n.name
  slug := n.slug
  path := some ((presentText? n.path).getD (defaultPath n.type n.slug))
  description := n.description
  type := n.type
  status := n.status
  publishedAt := none
  rules := rules
  links := n.links
  pinned := some (distinct n.pinned)
  excluded := some (distinct n.excluded)
  minRequired := n.minRequired
  targetCount := n.targetCount
  sortOrder := n.sortOrder
  cached := .zero
  cachedAt := none
  createdAt := now
  updatedAt := now

def newRules (old : Json) : Option Json → Json
  | some given => if given.alike old then old else given
  | none => old

/-- The parts that the listing depends on differ. -/
def InputsDiffer (old new : Collection) : Prop :=
  new.rules ≠ old.rules ∨ new.links ≠ old.links ∨ new.pinned ≠ old.pinned ∨
    new.excluded ≠ old.excluded

instance (old new : Collection) : Decidable (InputsDiffer old new) :=
  inferInstanceAs (Decidable (_ ∨ _))

/-- The row with the given parts in place; the time of the counts stays. -/
def edited (c : Collection) (ch : Changes) : Collection :=
  { c with
    name := ch.name.getD c.name
    slug := ch.slug.getD c.slug
    type := ch.type.getD c.type
    status := ch.status.getD c.status
    path := ch.path.getD c.path
    description := ch.description.getD c.description
    rules := newRules c.rules ch.rules
    links := ⟨ch.cuisine.getD c.links.cuisine, ch.location.getD c.links.location,
      ch.tag.getD c.links.tag⟩
    pinned := (ch.pinned.map distinct).orElse fun _ => c.pinned
    excluded := (ch.excluded.map distinct).orElse fun _ => c.excluded
    minRequired := ch.minRequired.getD c.minRequired
    targetCount := ch.targetCount.getD c.targetCount
    sortOrder := ch.sortOrder.getD c.sortOrder }

def change (c : Collection) (ch : Changes) (now : Instant) : Collection :=
  let d := c.edited ch
  let d := if InputsDiffer c d then d.invalidate else d
  { d with updatedAt := now }

/-- After a change of the overrides the counts are no longer valid. -/
def overridden (c : Collection) (now : Instant) : Collection :=
  { c.invalidate with updatedAt := now }

def withPinned (c : Collection) (ids : List String) : Collection := { c with pinned := some ids }

def withExcluded (c : Collection) (ids : List String) : Collection :=
  { c with excluded := some ids }

def newcomers (current ids : List String) : List String :=
  (distinct ids).filter fun id => !current.contains id

def removing (current ids : List String) : List String :=
  current.filter fun id => !ids.contains id

def pinnedWith (c : Collection) (ids : List String) : Position → List String
  | .start => newcomers c.pinnedIds ids ++ c.pinnedIds
  | .finish => c.pinnedIds ++ newcomers c.pinnedIds ids

def Reorders (c : Collection) (ids : List String) : Prop :=
  ids.Nodup ∧ (∀ id ∈ ids, id ∈ c.pinnedIds) ∧ ∀ id ∈ c.pinnedIds, id ∈ ids

instance (c : Collection) (ids : List String) : Decidable (c.Reorders ids) :=
  inferInstanceAs (Decidable (_ ∧ _))

/-- Published with counts taken now; the time of the first publication stays. -/
def published (c : Collection) (counts : Counts) (now : Instant) : Collection :=
  { c.store ⟨counts, now⟩ with
    status := Status.published
    publishedAt := some (c.publishedAt.getD now)
    updatedAt := now }

def unpublished (c : Collection) (now : Instant) : Collection :=
  { c with status := Status.draft, updatedAt := now }

end Cookbook.Collection
