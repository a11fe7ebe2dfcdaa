import Cookbook.Rule.Reader
import Cookbook.Rule.Value

/-!
# Checking rules

Every violation of every condition is reported, in the order of the rule: each group's logic before
its conditions, exclusions last.
-/

namespace Cookbook.Rule

def nameProblems (text : Option String) (known : Bool) (missing : Cause)
    (unknown : String → Cause) : List Cause :=
  match presentText? text with
  | none => [missing]
  | some s => if known then [] else [unknown s]

namespace Condition

def fieldProblems (c : Condition) : List Cause :=
  nameProblems c.field c.field?.isSome .field .fieldUnknown

def operatorProblems (c : Condition) : List Cause :=
  nameProblems c.operator c.operator?.isSome .operator .operatorUnknown

def valueProblems (c : Condition) : List Cause :=
  if c.value = .null then [.value] else []

def legalityProblems (c : Condition) (f : Field) : List Cause :=
  match c.operator? with
  | some o => if o.Legal f.kind then [] else [.operatorIllegal f o]
  | none => []

def tagTypeProblems (c : Condition) (f : Field) : List Cause :=
  if f = .tag ∧ presentText? c.tagType = none then [.tagType] else []

def numberProblems (c : Condition) (f : Field) : List Cause :=
  if f.kind = .numeric ∧ c.value ≠ .null ∧ c.value.number? = none then [.number f] else []

/-- What only a known field makes wrong. -/
def fieldwiseProblems (c : Condition) : List (String × Cause) :=
  match c.field? with
  | none => []
  | some f =>
    (c.legalityProblems f).map (("operator", ·)) ++ (c.tagTypeProblems f).map (("tagType", ·)) ++
      (c.numberProblems f).map (("value", ·))

def problems (c : Condition) (l : Location) : List Problem :=
  (c.fieldProblems.map (("field", ·)) ++ c.operatorProblems.map (("operator", ·)) ++
    c.valueProblems.map (("value", ·)) ++ c.fieldwiseProblems).map fun (field, cause) =>
      ⟨l, field, cause⟩

end Condition

namespace Group

def logics : List String := ["AND", "OR"]

def LogicKnown (g : Group) : Prop := ∃ w ∈ logics, g.logic = some w

instance (g : Group) : Decidable g.LogicKnown := inferInstanceAs (Decidable (∃ w ∈ _, _))

def problems (g : Group) (i : Nat) : List Problem :=
  (if g.LogicKnown then [] else [⟨.ofGroup i, "logic", .logic⟩]) ++
    (g.conditions.mapIdx fun j c => c.problems (.ofCondition i j)).flatten

end Group

def autoProblems (field value : Option String) : List Problem :=
  let fieldCauses := match presentText? field with
    | none => [Cause.autoField]
    | some f =>
      if (Field.ofName? f).any Field.linkable.contains then [] else [.autoFieldUnknown f]
  fieldCauses.map (⟨.whole, "field", ·⟩) ++
    (if presentText? value = none then [⟨.whole, "value", .autoValue⟩] else [])

def customProblems (groups : List Group) (exclude : List Condition) : List Problem :=
  (groups.mapIdx fun i g => g.problems i).flatten ++
    (exclude.mapIdx fun i c => c.problems (.ofExclude i)).flatten

def problems : Rule → List Problem
  | auto field value _ => autoProblems field value
  | custom groups exclude => customProblems groups exclude

def Sound (r : Rule) : Prop := r.problems = []

instance (r : Rule) : Decidable r.Sound := inferInstanceAs (Decidable (_ = _))

/-- The problems of what may be a rule: those of its shape, or else those of its content. -/
def problemsOf (j : Json) : List Problem :=
  match ofJson j with
  | .ok r => r.problems
  | .error ps => ps

def accept (j : Json) : Except (List Problem) Rule :=
  match ofJson j with
  | .ok r => if r.problems = [] then .ok r else .error r.problems
  | .error ps => .error ps

end Cookbook.Rule
