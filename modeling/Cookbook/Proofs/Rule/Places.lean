import Cookbook.Rule.Basic
import Cookbook.Rule.Problem

/-!
# Places in a rule

Problems are reported at places: of the rule itself, of a group, of a condition in a group, and of
an excluded condition.  Where every element reports at its own place only, what is reported at a
place is what its element reports.
-/

namespace Cookbook

namespace Json

def members : Json → Members
  | .obj ms => ms
  | _ => []

end Json

/-- The items of the list under a name. -/
def itemsAt (ms : Members) (name : String) : List Json :=
  match ms.lookup name with
  | some (.arr js) => js
  | _ => []

namespace Rule

/-- A place in a rule that reports problems of its own. -/
inductive Site where
  | rule
  | group (i : Nat)
  | condition (i j : Nat)
  | exclude (i : Nat)
deriving DecidableEq, Repr

namespace Site

def location : Site → Location
  | rule => .whole
  | group i => .ofGroup i
  | condition i j => .ofCondition i j
  | exclude i => .ofExclude i

/-- What stands at a place of a rule with such members; an automatic rule has no other places. -/
def element? (m : Mode) (ms : Members) (p : Site) : Option Json :=
  match m, p with
  | _, rule => some (.obj ms)
  | .auto, _ => none
  | .custom, group i => (itemsAt ms "groups")[i]?
  | .custom, condition i j =>
    ((itemsAt ms "groups")[i]?).bind fun g => (itemsAt g.members "conditions")[j]?
  | .custom, exclude i => (itemsAt ms "exclude")[i]?

end Site

/-- Problems of a group and its conditions, each at its place. -/
def Group.spread (piece : Site → Json → List Problem) (i : Nat) (j : Json) : List Problem :=
  piece (.group i) j ++
    ((itemsAt j.members "conditions").mapIdx fun k c => piece (.condition i k) c).flatten

/-- Problems of a rule, those of its groups after some of its own, and then those of its exclusions
after others. -/
def spread (before after : List Problem) (piece : Site → Json → List Problem) (ms : Members) :
    List Problem :=
  (before ++ ((itemsAt ms "groups").mapIdx (Group.spread piece)).flatten) ++
    (after ++ ((itemsAt ms "exclude").mapIdx fun i c => piece (.exclude i) c).flatten)

section Flattened

variable {α β : Type} {f : Nat → α → List β} {xs : List α}

theorem mem_flatten_mapIdx {b : β} :
    b ∈ (xs.mapIdx f).flatten ↔ ∃ i x, xs[i]? = some x ∧ b ∈ f i x := by
  simp only [List.mem_flatten, List.mem_mapIdx]
  constructor
  · rintro ⟨_, ⟨i, within, rfl⟩, member⟩
    exact ⟨i, xs[i], List.getElem?_eq_getElem within, member⟩
  · rintro ⟨i, x, found, member⟩
    obtain ⟨within, rfl⟩ := List.getElem?_eq_some_iff.mp found
    exact ⟨_, ⟨i, within, rfl⟩, member⟩

theorem filter_flatten_mapIdx_eq_nil {q : β → Bool} (nothing : ∀ i x, (f i x).filter q = []) :
    ((xs.mapIdx f).flatten).filter q = [] := by
  refine List.filter_eq_nil_iff.mpr fun b member => ?_
  obtain ⟨i, x, _, member⟩ := mem_flatten_mapIdx.mp member
  exact List.filter_eq_nil_iff.mp (nothing i x) b member

/-- What only the items at one index contribute comes from the item there. -/
theorem filter_flatten_mapIdx {q : β → Bool} {i : Nat} {x : α} (found : xs[i]? = some x)
    (others : ∀ k y, k ≠ i → (f k y).filter q = []) :
    ((xs.mapIdx f).flatten).filter q = (f i x).filter q := by
  induction xs generalizing f i with
  | nil => cases found
  | cons y ys ih =>
    rw [List.mapIdx_cons, List.flatten_cons, List.filter_append]
    cases i with
    | zero =>
      obtain rfl : y = x := Option.some.inj found
      rw [filter_flatten_mapIdx_eq_nil fun k z => others (k + 1) z (by omega), List.append_nil]
    | succ i =>
      rw [others 0 y (by omega), List.nil_append]
      exact ih found fun k z other => others (k + 1) z (by omega)

end Flattened

section Reported

variable {before after : List Problem} {piece : Site → Json → List Problem} {ms : Members}
  {p p' : Site} {i : Nat} {j : Json}

theorem Site.location_inj : p.location = p'.location ↔ p = p' := by
  cases p <;> cases p' <;>
    simp [Site.location, Location.whole, Location.ofGroup, Location.ofCondition,
      Location.ofExclude, Int.ofNat_inj]

/-- Problems that are reported at a place. -/
def Site.Owns (p : Site) (xs : List Problem) : Prop := ∀ x ∈ xs, x.location = p.location

theorem Site.Owns.filter_self {xs : List Problem} (own : p.Owns xs) :
    xs.filter (·.location = p.location) = xs :=
  List.filter_eq_self.mpr fun x member => decide_eq_true (own x member)

theorem Site.Owns.filter_other {xs : List Problem} (own : p'.Owns xs) (other : p' ≠ p) :
    xs.filter (·.location = p.location) = [] := by
  refine List.filter_eq_nil_iff.mpr fun x member same => other ?_
  exact Site.location_inj.mp ((own x member).symm.trans (of_decide_eq_true same))

section Spread

variable (placed : ∀ (p : Site) j, p.Owns (piece p j))
include placed

theorem Group.filter_spread_group : (Group.spread piece i j).filter
    (·.location = (Site.group i).location) = piece (.group i) j := by
  rw [Group.spread, List.filter_append, (placed _ j).filter_self,
    filter_flatten_mapIdx_eq_nil fun k c => (placed (.condition i k) c).filter_other (by simp),
    List.append_nil]

theorem Group.filter_spread_condition {k : Nat} {c : Json}
    (found : (itemsAt j.members "conditions")[k]? = some c) : (Group.spread piece i j).filter
      (·.location = (Site.condition i k).location) = piece (.condition i k) c := by
  rw [Group.spread, List.filter_append, (placed (.group i) j).filter_other (by simp),
    List.nil_append, filter_flatten_mapIdx found, (placed _ c).filter_self]
  exact fun l d other => (placed (.condition i l) d).filter_other (by simpa using other)

theorem Group.filter_spread_other (group : p ≠ .group i) (condition : ∀ k, p ≠ .condition i k) :
    (Group.spread piece i j).filter (·.location = p.location) = [] := by
  rw [Group.spread, List.filter_append, (placed _ j).filter_other group.symm, List.nil_append]
  exact filter_flatten_mapIdx_eq_nil fun k c => (placed _ c).filter_other (condition k).symm

/-- Of all the problems those at a place are the ones that are reported there. -/
theorem filter_spread (first : Site.rule.Owns before) (last : Site.rule.Owns after)
    (whole : piece .rule (.obj ms) = before ++ after) (element : p.element? .custom ms = some j) :
    (spread before after piece ms).filter (·.location = p.location) = piece p j := by
  simp only [spread, List.filter_append]
  cases p with
  | rule =>
    obtain rfl : Json.obj ms = j := Option.some.inj element
    rw [first.filter_self, last.filter_self, whole,
      filter_flatten_mapIdx_eq_nil fun i g => Group.filter_spread_other placed (by simp) (by simp),
      filter_flatten_mapIdx_eq_nil fun i c => (placed (.exclude i) c).filter_other (by simp),
      List.append_nil, List.append_nil]
  | group i =>
    rw [first.filter_other (by simp), last.filter_other (by simp),
      filter_flatten_mapIdx_eq_nil fun i c => (placed (.exclude i) c).filter_other (by simp),
      filter_flatten_mapIdx element, Group.filter_spread_group placed]
    · simp
    · exact fun k g other => Group.filter_spread_other placed (by simpa using other.symm) (by simp)
  | condition i k =>
    obtain ⟨g, group, element⟩ := Option.bind_eq_some_iff.mp element
    rw [first.filter_other (by simp), last.filter_other (by simp),
      filter_flatten_mapIdx_eq_nil fun i c => (placed (.exclude i) c).filter_other (by simp),
      filter_flatten_mapIdx group, Group.filter_spread_condition placed element]
    · simp
    · exact fun l h other => Group.filter_spread_other placed (by simp)
        fun n same => other (Site.condition.inj same).1.symm
  | exclude i =>
    rw [first.filter_other (by simp), last.filter_other (by simp),
      filter_flatten_mapIdx_eq_nil fun i g => Group.filter_spread_other placed (by simp) (by simp),
      filter_flatten_mapIdx element, (placed _ j).filter_self]
    · simp
    · exact fun k c other => (placed (.exclude k) c).filter_other (by simpa using other)

end Spread

/-- Every problem is one of the rule itself or is reported for an element of it. -/
theorem exists_of_mem_spread {x : Problem} (member : x ∈ spread before after piece ms) :
    (x ∈ before ∨ x ∈ after) ∨
      ∃ (p : Site) (j : Json), p.element? .custom ms = some j ∧ x ∈ piece p j := by
  simp only [spread, Group.spread, List.mem_append, mem_flatten_mapIdx] at member
  rcases member with
    (first | ⟨i, g, group, own | ⟨k, c, element, inner⟩⟩) | last | ⟨i, c, element, own⟩
  · exact .inl (.inl first)
  · exact .inr ⟨.group i, g, group, own⟩
  · exact .inr ⟨.condition i k, c, Option.bind_eq_some_iff.mpr ⟨g, group, element⟩, inner⟩
  · exact .inl (.inr last)
  · exact .inr ⟨.exclude i, c, element, own⟩

end Reported

end Rule

end Cookbook
