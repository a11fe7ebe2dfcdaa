import Cookbook.Collection.View
import Cookbook.Shelf.Basic
import Cookbook.Text.Pattern

/-!
# Browsing

Lists of collections from what is stored of them.  A search is split into pages only after every
filter, so the totals are those of the whole list.
-/

namespace Cookbook

/-- An empty status, type or text does not filter. -/
structure Search where
  status : Option String
  type : Option String
  qualified : Option Bool
  text : Option String
  page : Int
  pageSize : Int
deriving DecidableEq, Repr

namespace Search

def Admits (q : Search) (c : Collection) : Prop :=
  (∀ s ∈ presentText? q.status, c.status = s) ∧ (∀ t ∈ presentText? q.type, c.type = t) ∧
    ∀ t ∈ presentText? q.text, Text.Found t c.name ∨ Text.Found t c.slug

instance (q : Search) (c : Collection) : Decidable (q.Admits c) :=
  inferInstanceAs (Decidable (_ ∧ _))

def smallestPage : Int := 1

def largestPage : Int := 100

end Search

def Collection.recentFirst (c d : Collection) : Bool :=
  decide (d.updatedAt < c.updatedAt) || (c.updatedAt == d.updatedAt && decide (c.id ≤ d.id))

structure Page (α : Type) where
  items : List α
  page : Int
  pageSize : Int
  total : Nat
  totalPages : Int

namespace Page

/-- Pages count from one; a page has at least one item and at most a hundred. -/
def of {α : Type} (xs : List α) (page pageSize : Int) : Page α :=
  let page := max 1 page
  let size := min (max Search.smallestPage pageSize) Search.largestPage
  { items := (xs.drop ((page - 1) * size).toNat).take size.toNat
    page := page
    pageSize := size
    total := xs.length
    totalPages := (xs.length + size - 1) / size }

def toJson {α : Type} (item : α → Json) (p : Page α) : Json :=
  .obj [("items", .arr (p.items.map item)), ("page", .int p.page), ("pageSize", .int p.pageSize),
    ("total", .int p.total), ("totalPages", .int p.totalPages)]

end Page

structure Card where
  collection : Collection
  progress : Binary64
deriving DecidableEq, Repr

namespace Card

def of (c : Collection) : Attempt Card :=
  match Progress.percent? c.cached.published c.targetCount with
  | some p => .ok ⟨c, p⟩
  | none => .error .overflow

def toJson (k : Card) : Json :=
  let c := k.collection
  .obj [("id", .str c.id), ("name", .str c.name), ("slug", .str c.slug),
    ("path", Json.ofOption .str c.path), ("type", .str c.type),
    ("publishedCount", .int c.cached.published), ("targetCount", .int c.targetCount),
    ("progress", .float k.progress), ("sortOrder", .int c.sortOrder)]

end Card

namespace Collection

/-- Published and with enough published recipes by the stored counts. -/
def OnOffer (c : Collection) : Prop := c.IsPublished ∧ c.minRequired ≤ c.cached.published

instance (c : Collection) : Decidable c.OnOffer := inferInstanceAs (Decidable (_ ∧ _))

def offerFirst (c d : Collection) : Bool :=
  decide (c.sortOrder < d.sortOrder) || (c.sortOrder == d.sortOrder &&
    (decide (d.cached.published < c.cached.published) ||
      (c.cached.published == d.cached.published && decide (c.id ≤ d.id))))

end Collection

namespace Action

def found (q : Search) : Action (List ListItem) := do
  let s ← settings
  let t ← now
  let rows := ((← get).collections.filter fun c => q.Admits c).mergeSort Collection.recentFirst
  let items ← attempt (rows.mapM fun c => ListItem.of c s t)
  return items.filter fun i => q.qualified.all (i.isQualified == ·)

def list (q : Search) : Action (Page ListItem) := do
  return Page.of (← found q) q.page q.pageSize

/-- The qualified collections of a type, at most as many as the limit; a negative limit is none. -/
def qualified (type : Option String) (limit : Int) : Action (List Card) := do
  let rows := (← get).collections.filter fun c =>
    decide c.OnOffer && (presentText? type).all (c.type == ·)
  if ¬ Store.FitsWindow 0 (some limit) then fail .overflow
  attempt ((Store.window 0 (some limit) (rows.mergeSort Collection.offerFirst)).mapM Card.of)

end Action

end Cookbook
