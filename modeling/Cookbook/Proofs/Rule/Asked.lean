import Cookbook.Catalog
import Cookbook.Proofs.Number.Numeral
import Cookbook.Rule.Basic

/-!
# What a rule asks

The meaning of a rule as it is written: which ids a value lists, which number it denotes, what an
operator says of them, which conditions are heard, and what groups and exclusions make of those.
Nothing here goes through predicates or through the functions that read a rule.
-/

namespace Cookbook

namespace Json

/-- The text of a value: a text is its own, and of any other value it is the literal. -/
inductive Spells : Json → String → Prop
  | text (s : String) : Spells (str s) s
  | literal {j : Json} (other : ∀ s, j ≠ str s) : Spells j j.literal

/-- The ids that a value lists: a list has the texts of its items, any other value has its own. -/
inductive Lists : Json → String → Prop
  | item {xs : List Json} {j : Json} {id : String} (member : j ∈ xs) (spells : Spells j id) :
      Lists (arr xs) id
  | single {j : Json} {id : String} (one : ∀ xs, j ≠ arr xs) (spells : Spells j id) : Lists j id

variable {j : Json} {id : String}

theorem spells_iff : j.Spells id ↔ j.display = id := by
  constructor
  · rintro (_ | other)
    · rfl
    · cases j with
      | str s => exact absurd rfl (other s)
      | _ => rfl
  · rintro rfl
    cases j with
    | str s => exact .text s
    | _ => exact .literal nofun

/-- The ids that a value is read as are those that it lists. -/
theorem mem_ids_iff : id ∈ j.ids ↔ j.Lists id := by
  have single (one : ∀ xs, j ≠ arr xs) (ids : j.ids = [j.display]) : id ∈ j.ids ↔ j.Lists id := by
    rw [ids, List.mem_singleton, eq_comm, ← spells_iff]
    refine ⟨.single one, fun lists => ?_⟩
    cases lists with
    | item => exact absurd rfl (one _)
    | single _ spells => exact spells
  cases j with
  | arr xs =>
    rw [ids, List.mem_map]
    constructor
    · rintro ⟨x, member, spelled⟩
      exact .item member (spells_iff.mpr spelled)
    · intro lists
      cases lists with
      | item member spells => exact ⟨_, member, spells_iff.mp spells⟩
      | single one _ => exact absurd rfl (one xs)
  | _ => exact single nofun rfl

end Json

namespace Rule

namespace Operator

/-- What the operator says of having one of the listed values. -/
def Selects (o : Operator) (has : Prop) : Prop :=
  match o with
  | eq => has
  | isIn => has
  | neq => ¬ has
  | notIn => ¬ has
  | _ => False

/-- What the operator says of two numbers. -/
def Compares (o : Operator) (x y : ℚ) : Prop :=
  match o with
  | eq => x = y
  | neq => x ≠ y
  | lt => x < y
  | lte => x ≤ y
  | gt => y < x
  | gte => y ≤ x
  | _ => False

/-- A missing number counts as different from every number and nothing else. -/
def Accepts (o : Operator) (stored : Option Int) (y : ℚ) : Prop :=
  match stored with
  | some v => o.Compares v y
  | none => o = .neq

/-- Numbers are compared, and everything else has values or has none of them. -/
def Suits (o : Operator) (f : Field) : Prop :=
  match f with
  | .measure _ => o ≠ .isIn ∧ o ≠ .notIn
  | _ => o ∈ [eq, neq, isIn, notIn]

theorem selects_iff {o : Operator} {m : Membership} (member : o.membership? = some m)
    (has : Prop) [Decidable has] : o.Selects has ↔ (decide has == m.isPositive) = true := by
  cases o <;> cases member <;> simp [Selects, Membership.isPositive]

theorem compares_iff {o : Operator} {op : Comparison} (comparison : o.comparison? = some op)
    (x y : ℚ) : o.Compares x y ↔ op.Relates x y := by
  cases o <;> cases comparison <;> rfl

theorem suits_iff_legal (o : Operator) (f : Field) : o.Suits f ↔ o.Legal f.kind := by
  cases f with
  | measure m => cases o <;> simp [Suits, Legal, Field.kind, comparison?]
  | _ => cases o <;> simp [Suits, Legal, Field.kind, membership?]

end Operator

theorem Field.ofName?_eq_some_iff {s : String} {f : Field} : ofName? s = some f ↔ s = f.name := by
  constructor
  · intro found
    unfold ofName? at found
    have same := List.find?_some found
    exact (beq_iff_eq.mp same).symm
  · rintro rfl
    exact ofName?_name f

theorem Operator.ofName?_eq_some_iff {s : String} {o : Operator} :
    ofName? s = some o ↔ s = o.name := by
  constructor
  · intro found
    unfold ofName? at found
    have same := List.find?_some found
    exact (beq_iff_eq.mp same).symm
  · rintro rfl
    exact ofName?_name o

namespace Condition

variable {c : Condition}

theorem field?_eq_some_iff {f : Field} : c.field? = some f ↔ c.field = some f.name := by
  simp [field?, Option.bind_eq_some_iff, Field.ofName?_eq_some_iff]

theorem operator?_eq_some_iff {o : Operator} :
    c.operator? = some o ↔ c.operator = some o.name := by
  simp [operator?, Option.bind_eq_some_iff, Operator.ofName?_eq_some_iff]

/-- The condition says this field and this operator, which go together, and it has a value, which
denotes a number if the field is one. -/
structure Reads (c : Condition) (f : Field) (o : Operator) : Prop where
  field : c.field = some f.name
  operator : c.operator = some o.name
  suits : o.Suits f
  present : c.value ≠ .null
  numeric : ∀ m, f = .measure m → ∃ n, c.value.Denotes n

def Supported (c : Condition) : Prop := ∃ f o, c.Reads f o

/-- What the value of a condition asks of a recipe under a field and an operator.  With a type
given, only tags of this type count. -/
def Asks (cat : Catalog) (x : Recipe) (c : Condition) (f : Field) (o : Operator) : Prop :=
  match f with
  | .relation k => o.Selects (∃ id, c.value.Lists id ∧ x.related k = some id)
  | .measure m => ∃ n, c.value.Denotes n ∧ o.Accepts (x.measured m) n.value
  | _ => o.Selects (∃ id ∈ x.tags, c.value.Lists id ∧
      ∀ t, c.tagType = some t → t ≠ "" → ∃ row ∈ cat.tags, row.id = id ∧ row.type = t)

def Holds (cat : Catalog) (x : Recipe) (c : Condition) : Prop :=
  ∃ f o, c.Reads f o ∧ Asks cat x c f o

end Condition

/-- What a group asks of a recipe: any or all of its supported conditions. -/
def Group.Holds (cat : Catalog) (x : Recipe) (g : Group) : Prop :=
  if g.logic = some "OR" then ∃ c ∈ g.conditions, c.Supported ∧ c.Holds cat x
  else ∀ c ∈ g.conditions, c.Supported → c.Holds cat x

def Links.related (links : Links) : Relation → Option String
  | .cuisine => links.cuisine
  | .location => links.location

/-- What a rule asks of a recipe.  A group without supported conditions asks nothing; an automatic
rule asks for the entity that its field is linked to. -/
def Holds (cat : Catalog) (links : Links) (x : Recipe) : Rule → Prop
  | auto field _ _ =>
    (∃ k id, field = some (Field.relation k).name ∧ links.related k = some id ∧ id ≠ "" ∧
      x.related k = some id) ∨
    ∃ id, field = some Field.tagId.name ∧ links.tag = some id ∧ id ≠ "" ∧ id ∈ x.tags
  | custom groups exclude =>
    (∀ g ∈ groups, (∃ c ∈ g.conditions, c.Supported) → g.Holds cat x) ∧
      ∀ c ∈ exclude, c.Supported → ¬ c.Holds cat x

end Rule

end Cookbook
