import Cookbook.Proofs.Rule.Dropped
import Cookbook.Proofs.Rule.Places
import Cookbook.Proofs.Rule.Wire

/-!
# The shape of the elements of a rule

The issues of the reading of a rule are those of its elements, each at its own place and under the
name of the member that has a wrong shape.  Where there are none, every element is read as what its
members say.
-/

namespace Cookbook

namespace Schema

variable {α β : Type} {read : Shape α}

theorem Checked.issues_under (step : Step) (x : Checked α) :
    (x.under step).issues = x.issues.map (·.under step) := by
  cases x <;> rfl

theorem Checked.issues_fmap (f : α → β) (x : Checked α) : (f <$> x).issues = x.issues :=
  issues_map f x

theorem Checked.issues_seq (f : Checked (α → β)) (x : Checked α) :
    (f <*> x).issues = f.issues ++ x.issues := issues_apply f x

/-- The issues of the items of a list, each under its index. -/
theorem issues_items (js : List Json) (n : Nat) : (items read n js).issues =
    (js.mapIdx fun i j => (read j).issues.map (·.under (.index (n + i)))).flatten := by
  induction js generalizing n with
  | nil => rfl
  | cons j js ih =>
    rw [items, Checked.issues_apply, Checked.issues_map, Checked.issues_under, ih,
      List.mapIdx_cons, List.flatten_cons]
    simp only [Nat.add_zero, Nat.add_assoc, Nat.add_comm 1]

theorem eq_map_of_items_eq_ok {f : Json → α} (reads : ∀ j a, read j = .ok a → a = f j)
    {js : List Json} {n : Nat} {xs : List α} (readAs : items read n js = .ok xs) :
    xs = js.map f := by
  induction js generalizing n xs with
  | nil =>
    cases readAs
    rfl
  | cons j js ih =>
    obtain ⟨_, first, rest, others, rfl⟩ := Checked.seq_eq_ok_iff.mp readAs
    obtain ⟨a, head, rfl⟩ := Checked.map_eq_ok_iff.mp first
    rw [List.map_cons, reads j a (Checked.of_under_eq_ok head), ih others]

end Schema

open Schema

/-- The text under the first of the names that is there. -/
def wordAt (ms : Members) (names : List String) : Option String :=
  match given? ms names with
  | some (.str s) => some s
  | _ => none

namespace Rule

/-- A fault with the name of the member that has it. -/
abbrev Faults := List (String × Fault)

def wordFaults (ms : Members) (names : List String) : Faults :=
  match find? ms names with
  | some (_, .str _) => []
  | some (_, .null) => []
  | some (n, _) => [(n, .notText)]
  | none => []

def listFaults (ms : Members) (name : String) : Faults :=
  match ms.lookup name with
  | some (.arr _) => []
  | some _ => [(name, .notList)]
  | none => []

section Members

variable {ms : Members} {names : List String} {α : Type} {read : Shape α} {name : String}

theorem issues_word (ms : Members) (names : List String) :
    (memberD ms names (optional text) none).issues =
      (wordFaults ms names).map fun (n, f) => ⟨[.name n], f⟩ := by
  rw [memberD, Checked.issues_map, member?, wordFaults]
  cases find? ms names with
  | none => rfl
  | some found =>
    obtain ⟨n, j⟩ := found
    cases j <;> rfl

theorem eq_wordAt_of_memberD_eq_ok {o : Option String}
    (readAs : memberD ms names (optional text) none = .ok o) : o = wordAt ms names := by
  obtain ⟨found, given, rfl⟩ := Checked.map_eq_ok_iff.mp readAs
  rcases of_member?_eq_ok given with ⟨absent, rfl⟩ | ⟨j, a, present, found, rfl⟩
  · simp [wordAt, absent]
  · rcases of_optional_eq_ok found with ⟨rfl, rfl⟩ | ⟨_, s, word, rfl⟩
    · simp [wordAt, present]
    · rw [wordAt, present, of_text_eq_ok word]
      rfl

theorem find?_singleton : find? ms [name] = (ms.lookup name).map (name, ·) := by
  cases found : ms.lookup name <;> simp [find?, found]

theorem issues_listAt (ms : Members) (name : String) (read : Shape α) :
    (memberD ms [name] (list read) []).issues =
      (listFaults ms name).map (fun (n, f) => ⟨[.name n], f⟩) ++
      ((itemsAt ms name).mapIdx fun i j =>
        (read j).issues.map fun x => (x.under (.index i)).under (.name name)).flatten := by
  rw [memberD, Checked.issues_map, member?, find?_singleton, listFaults, itemsAt]
  cases ms.lookup name with
  | none => rfl
  | some j =>
    cases j with
    | arr js =>
      simp only [Option.map_some, Checked.issues_map, Checked.issues_under, list, issues_items,
        List.map_nil, List.nil_append, Nat.zero_add, List.map_flatten, map_mapIdx, List.map_map]
      rfl
    | _ => rfl

theorem eq_map_of_memberD_eq_ok {f : Json → α} (reads : ∀ j a, read j = .ok a → a = f j)
    {xs : List α} (readAs : memberD ms [name] (list read) [] = .ok xs) :
    xs = (itemsAt ms name).map f := by
  obtain ⟨found, given, rfl⟩ := Checked.map_eq_ok_iff.mp readAs
  have looked : given? ms [name] = ms.lookup name := by
    rw [given?, find?_singleton, Option.map_map]
    exact Option.map_id_apply
  rcases of_member?_eq_ok given with ⟨absent, rfl⟩ | ⟨j, a, present, readAs, rfl⟩
  · rw [looked] at absent
    simp [itemsAt, absent]
  · rw [looked] at present
    cases j with
    | arr js =>
      rw [itemsAt, present]
      exact eq_map_of_items_eq_ok reads readAs
    | _ => cases readAs

end Members

def Faults.at (l : Location) (fs : Faults) : List Problem := fs.map fun (n, f) => ⟨l, n, .shape f⟩

def Condition.faults : Json → Faults
  | .obj ms => wordFaults ms ["field"] ++ wordFaults ms ["operator"] ++ wordFaults ms tagTypeNames
  | _ => [(modeName, .notPart conditionKind)]

def Group.faults : Json → Faults
  | .obj ms => wordFaults ms ["logic"] ++ listFaults ms "conditions"
  | _ => [(modeName, .notPart groupKind)]

def Mode.faults (ms : Members) : Mode → Faults
  | auto => wordFaults ms ["field"] ++ wordFaults ms ["value"] ++ wordFaults ms tagTypeNames
  | custom => listFaults ms "groups" ++ listFaults ms "exclude"

/-- What is wrong with the shape of the element at a place, but for the elements inside it. -/
def Site.faults (m : Mode) (j : Json) (p : Site) : List Problem :=
  Faults.at p.location <|
    match p with
    | rule => m.faults j.members
    | group _ => Group.faults j
    | condition .. => Condition.faults j
    | exclude _ => Condition.faults j

def Condition.given (j : Json) : Condition where
  field := wordAt j.members ["field"]
  operator := wordAt j.members ["operator"]
  value := (j.members.lookup "value").getD .null
  tagType := wordAt j.members tagTypeNames

def Group.given (j : Json) : Group where
  logic := wordAt j.members ["logic"]
  conditions := (itemsAt j.members "conditions").map Condition.given

/-- The problem that an issue is of an element at a location. -/
def Problem.at (l : Location) (i : Issue) : Problem :=
  let (location, name) := l.ofPath "" i.path
  ⟨location, if name.isEmpty then modeName else name, .shape i.fault⟩

section Faulty

variable {ms : Members} {names : List String} {name : String} {l : Location} {m : Mode}

theorem map_at_member {fs : Faults} (named : ∀ n ∈ fs.map Prod.fst, n ≠ "") :
    (fs.map fun (n, f) => (⟨[.name n], f⟩ : Issue)).map (Problem.at l) = fs.at l := by
  rw [Faults.at, List.map_map]
  refine List.map_congr_left fun (n, f) member => ?_
  have nonempty : ¬ n.isEmpty = true := by
    simpa using named n (List.mem_map.mpr ⟨_, member, rfl⟩)
  simp [Problem.at, Location.ofPath, nonempty]

theorem name_mem_of_mem_wordFaults {n : String} (fault : n ∈ (wordFaults ms names).map Prod.fst) :
    n ∈ names := by
  unfold wordFaults at fault
  split at fault
  · cases fault
  · cases fault
  next n' j _ _ found =>
    obtain rfl : n = n' := by simpa using fault
    obtain ⟨name, member, looked⟩ := List.exists_of_findSome?_eq_some found
    obtain ⟨_, _, same⟩ := Option.map_eq_some_iff.mp looked
    obtain rfl : name = n := congrArg Prod.fst same
    exact member
  · cases fault

theorem name_of_mem_listFaults {n : String} (fault : n ∈ (listFaults ms name).map Prod.fst) :
    n = name := by
  unfold listFaults at fault
  split at fault
  · cases fault
  · simpa using fault
  · cases fault

theorem at_word (named : ∀ n ∈ names, n ≠ "") :
    (memberD ms names (optional text) none).issues.map (Problem.at l) =
      (wordFaults ms names).at l := by
  rw [issues_word]
  exact map_at_member fun n fault => named n (name_mem_of_mem_wordFaults fault)

theorem issues_value : (memberD ms ["value"] anything .null).issues = [] := by
  rw [memberD, Checked.issues_map, member?]
  cases find? ms ["value"] <;> rfl

theorem at_list {α : Type} {read : Shape α} (named : name ≠ "") :
    (memberD ms [name] (list read) []).issues.map (Problem.at l) = (listFaults ms name).at l ++
      ((itemsAt ms name).mapIdx fun i j => (read j).issues.map fun x =>
        Problem.at l ((x.under (.index i)).under (.name name))).flatten := by
  rw [issues_listAt, List.map_append, List.map_flatten, map_mapIdx,
    map_at_member fun n fault => (name_of_mem_listFaults fault) ▸ named]
  simp only [List.map_map]
  rfl

theorem Faults.at_append (fs gs : Faults) : Faults.at l (fs ++ gs) = fs.at l ++ gs.at l :=
  List.map_append

theorem Condition.at_ofJson (j : Json) :
    (Condition.ofJson j).issues.map (Problem.at l) = (Condition.faults j).at l := by
  cases j with
  | obj ms =>
    simp only [ofJson, Condition.read, ofMembers, Checked.issues_seq, Checked.issues_fmap,
      List.map_append, issues_value, List.append_nil, faults, Faults.at_append]
    rw [at_word (by decide), at_word (by decide), at_word (by decide)]
  | _ => rfl

theorem at_groups (i : Nat) (x : Issue) :
    Problem.at .whole ((x.under (.index i)).under (.name "groups")) =
      Problem.at (.ofGroup i) x := by
  simp [Problem.at, Issue.under, Location.ofPath, Location.whole, Location.ofGroup]

theorem at_conditions (i k : Nat) (x : Issue) :
    Problem.at (.ofGroup i) ((x.under (.index k)).under (.name "conditions")) =
      Problem.at (.ofCondition i k) x := by
  simp [Problem.at, Issue.under, Location.ofPath, Location.ofCondition, Location.ofGroup]

theorem at_exclude (i : Nat) (x : Issue) :
    Problem.at .whole ((x.under (.index i)).under (.name "exclude")) =
      Problem.at (.ofExclude i) x := by
  simp [Problem.at, Issue.under, Location.ofPath, Location.whole, Location.ofExclude]

theorem Group.at_ofJson (i : Nat) (j : Json) :
    (Group.ofJson j).issues.map (Problem.at (.ofGroup i)) =
      Group.spread (fun p j => p.faults m j) i j := by
  cases j with
  | obj ms =>
    simp only [ofJson, Group.read, ofMembers, Checked.issues_seq, Checked.issues_fmap,
      List.map_append]
    rw [at_word (by decide), at_list (by decide), ← List.append_assoc, ← Faults.at_append]
    simp only [at_conditions, Condition.read_json, Condition.at_ofJson]
    rfl
  | _ => rfl

/-- The faults of a custom rule are reported element by element. -/
theorem at_customOfMembers (ms : Members) :
    (customOfMembers .json ms).issues.map Problem.ofIssue =
      spread ((listFaults ms "groups").at .whole) ((listFaults ms "exclude").at .whole)
        (fun p j => p.faults .custom j) ms := by
  rw [show Problem.ofIssue = Problem.at .whole from rfl]
  simp only [customOfMembers, Checked.issues_seq, Checked.issues_fmap, List.map_append]
  rw [at_list (by decide), at_list (by decide)]
  simp only [at_groups, at_exclude, Group.read_json, Condition.read_json,
    Group.at_ofJson (m := .custom), Condition.at_ofJson]
  rfl

theorem at_autoOfMembers (ms : Members) :
    (autoOfMembers .json ms).issues.map Problem.ofIssue = Site.rule.faults .auto (.obj ms) := by
  rw [show Problem.ofIssue = Problem.at .whole from rfl]
  simp only [autoOfMembers, Checked.issues_seq, Checked.issues_fmap, List.map_append]
  rw [at_word (by decide), at_word (by decide), at_word (by decide), ← Faults.at_append,
    ← Faults.at_append]
  rfl

end Faulty

section Given

variable {ms : Members}

theorem Condition.eq_given {j : Json} {c : Condition} (readAs : Condition.ofJson j = .ok c) :
    c = Condition.given j := by
  cases j with
  | obj ms =>
    obtain ⟨_, valued, tagType, last, rfl⟩ := Checked.seq_eq_ok_iff.mp readAs
    obtain ⟨_, operated, value, third, rfl⟩ := Checked.seq_eq_ok_iff.mp valued
    obtain ⟨_, named, operator, second, rfl⟩ := Checked.seq_eq_ok_iff.mp operated
    obtain ⟨field, first, rfl⟩ := Checked.map_eq_ok_iff.mp named
    have present : value = (ms.lookup "value").getD .null := by
      rw [memberD, member?, find?_singleton] at third
      cases found : ms.lookup "value" with
      | none =>
        rw [found] at third
        cases third
        rfl
      | some j =>
        rw [found] at third
        cases third
        rfl
    rw [eq_wordAt_of_memberD_eq_ok first, eq_wordAt_of_memberD_eq_ok second, present,
      eq_wordAt_of_memberD_eq_ok last]
    rfl
  | _ => cases readAs

theorem Group.eq_given {j : Json} {g : Group} (readAs : Group.ofJson j = .ok g) :
    g = Group.given j := by
  cases j with
  | obj ms =>
    obtain ⟨_, named, conditions, second, rfl⟩ := Checked.seq_eq_ok_iff.mp readAs
    obtain ⟨logic, first, rfl⟩ := Checked.map_eq_ok_iff.mp named
    rw [eq_wordAt_of_memberD_eq_ok first,
      eq_map_of_memberD_eq_ok (fun _ _ => Condition.eq_given) second]
    rfl
  | _ => cases readAs

theorem eq_custom_given {r : Rule} (readAs : customOfMembers .json ms = .ok r) :
    r = .custom ((itemsAt ms "groups").map Group.given)
      ((itemsAt ms "exclude").map Condition.given) := by
  obtain ⟨_, grouped, exclude, second, rfl⟩ := Checked.seq_eq_ok_iff.mp readAs
  obtain ⟨groups, first, rfl⟩ := Checked.map_eq_ok_iff.mp grouped
  rw [eq_map_of_memberD_eq_ok (fun _ _ => Group.eq_given) first,
    eq_map_of_memberD_eq_ok (fun _ _ => Condition.eq_given) second]

theorem eq_auto_given {r : Rule} (readAs : autoOfMembers .json ms = .ok r) :
    r = .auto (wordAt ms ["field"]) (wordAt ms ["value"]) (wordAt ms tagTypeNames) := by
  obtain ⟨_, valued, tagType, third, rfl⟩ := Checked.seq_eq_ok_iff.mp readAs
  obtain ⟨_, named, value, second, rfl⟩ := Checked.seq_eq_ok_iff.mp valued
  obtain ⟨field, first, rfl⟩ := Checked.map_eq_ok_iff.mp named
  rw [eq_wordAt_of_memberD_eq_ok first, eq_wordAt_of_memberD_eq_ok second,
    eq_wordAt_of_memberD_eq_ok third]

end Given

end Rule

end Cookbook
