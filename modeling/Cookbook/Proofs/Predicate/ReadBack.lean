import Cookbook.Predicate.Json
import Cookbook.Proofs.Json.ReadBack
import Cookbook.Proofs.Predicate.Meaning
import Cookbook.Proofs.Schema.Reading

/-!
# Predicates in writing

The kind of a node tells which one it is, and its members are read back one by one.  A number that
JSON cannot write is `null` in writing, which is no number: so a predicate reads back as itself,
with each number of the kind that it was, if all its numbers are finite, and else not at all.
-/

namespace Cookbook

namespace Schema

theorem tuple_text (ss : List String) : tuple text (.texts ss) = .ok ss := by
  have readBack : items text 0 (ss.map Json.str) = .ok (ss.map id) :=
    items_map (fun s => (rfl : text (.str s) = .ok (id s))) ss 0
  rwa [List.map_id] at readBack

theorem optional_text (s : Option String) : optional text (Json.ofOption .str s) = .ok s := by
  cases s <;> rfl

theorem named_name {α : Type} {cases : List α} {name : α → String} {a : α}
    (found : cases.find? (name · == name a) = some a) :
    named cases name (.str (name a)) = .ok a := by
  rw [named, found]

theorem member_of_find? {α : Type} {ms : Members} {names : List String} {name : String} {j : Json}
    {read : Shape α} {a : α} (found : find? ms names = some (name, j)) (readAs : read j = .ok a) :
    member ms names read = .ok a := by
  simp [member, found, readAs, Checked.under]

end Schema

@[simp] theorem Json.writable_texts (ss : List String) : (texts ss).writable = texts ss := by
  have items : writableItems (ss.map str) = ss.map str := by
    induction ss with
    | nil => rfl
    | cons s ss ih =>
      rw [List.map_cons, writableItems, ih]
      rfl
  rw [texts, writable, items]

theorem Json.wellFormed_texts (ss : List String) : (texts ss).WellFormed := by
  change ItemsWellFormed (ss.map str)
  induction ss with
  | nil => trivial
  | cons s ss ih => exact ⟨trivial, ih⟩

theorem Json.wellFormed_ofOption_str (s : Option String) : (ofOption str s).WellFormed := by
  cases s <;> trivial

namespace Predicate

open Schema

theorem relationOf_toJson (f : Relation) (op : Membership) (vs : List String) :
    relationOf [("kind", .str "relation"), ("field", .str f.column), ("op", .str op.name),
      ("values", .texts vs)] = .ok (relation f op vs) := by
  unfold relationOf
  rw [member_of_find? rfl (named_name f.ofColumn?_column),
    member_of_find? rfl (named_name op.ofName?_name), member_of_find? rfl (tuple_text vs)]
  rfl

theorem tagOf_toJson (q : Quantifier) (is : List String) (t : Option String) :
    tagOf [("kind", .str "tag"), ("quantifier", .str q.name), ("tag_ids", .texts is),
      ("tag_type", Json.ofOption .str t)] = .ok (tag q is t) := by
  unfold tagOf
  rw [member_of_find? rfl (named_name q.ofName?_name), member_of_find? rfl (tuple_text is),
    memberD_of_find? rfl (optional_text t)]
  rfl

theorem idsOf_toJson (is : List String) :
    idsOf [("kind", .str "ids"), ("ids", .texts is)] = .ok (ids is) := by
  unfold idsOf
  rw [member_of_find? rfl (tuple_text is)]
  rfl

theorem numericOf_eq_ok_iff {f : Measure} {op : Comparison} {j : Json} {p : Predicate} :
    numericOf [("kind", .str "numeric"), ("field", .str f.column), ("op", .str op.name),
      ("value", j)] = .ok p ↔ ∃ n, number j = .ok n ∧ p = numeric f op n := by
  unfold numericOf
  rw [member_of_find? rfl (named_name f.ofColumn?_column),
    member_of_find? rfl (named_name op.ofName?_name)]
  change Checked.apply (.ok (numeric f op)) ((number j).under (.name "value")) = .ok p ↔ _
  cases number j with
  | ok n => simp [Checked.apply, Checked.under, eq_comm]
  | bad is => simp [Checked.apply, Checked.under]

mutual

/-- A predicate reads back from its JSON form if all its numbers are finite. -/
theorem ofJson_toJson : ∀ p : Predicate, (∀ n ∈ p.numbers, n.isFinite = true) →
    ofJson p.toJson.writable = .ok p
  | all, _ => rfl
  | none, _ => rfl
  | relation f op vs, _ => by
    rw [toJson, Json.writable]
    simp only [Json.writableMembers, Json.writable_texts]
    exact congrArg (Checked.under (.name "relation")) (relationOf_toJson f op vs)
  | tag q is t, _ => by
    have type : (Json.ofOption .str t).writable = Json.ofOption .str t := by cases t <;> rfl
    rw [toJson, Json.writable]
    simp only [Json.writableMembers, Json.writable_texts, type]
    exact congrArg (Checked.under (.name "tag")) (tagOf_toJson q is t)
  | numeric f op n, finite => by
    have value : (Json.num n).writable = .num n := if_pos (finite n (List.mem_singleton_self n))
    rw [toJson, Json.writable]
    simp only [Json.writableMembers, value]
    exact congrArg (Checked.under (.name "numeric")) (numericOf_eq_ok_iff.mpr ⟨n, rfl, rfl⟩)
  | ids is, _ => by
    rw [toJson, Json.writable]
    simp only [Json.writableMembers, Json.writable_texts]
    exact congrArg (Checked.under (.name "ids")) (idsOf_toJson is)
  | and ps, finite => congrArg (fun x => ((x.under (.name "children")).map and).under (.name "and"))
    (ofJsons_toJsons ps finite 0)
  | or ps, finite => congrArg (fun x => ((x.under (.name "children")).map or).under (.name "or"))
    (ofJsons_toJsons ps finite 0)
  | not p, finite => congrArg (fun x => ((x.under (.name "child")).map not).under (.name "not"))
    (ofJson_toJson p finite)

theorem ofJsons_toJsons : ∀ (ps : List Predicate), (∀ n ∈ numbersAll ps, n.isFinite = true) →
    ∀ k, ofJsons k (Json.writableItems (toJsons ps)) = .ok ps
  | [], _, _ => rfl
  | p :: ps, finite, k => by
    obtain ⟨first, others⟩ := List.forall_mem_append.mp finite
    rw [toJsons, Json.writableItems, ofJsons, ofJson_toJson p first, ofJsons_toJsons ps others]
    rfl

end

mutual

/-- A predicate with a number that is not finite does not read back. -/
theorem isFinite_of_ofJson_toJson : ∀ (p : Predicate) {q : Predicate},
    ofJson p.toJson.writable = .ok q → ∀ n ∈ p.numbers, n.isFinite = true
  | all, _, _ | none, _, _ | relation .., _, _ | tag .., _, _ | ids _, _, _ => nofun
  | numeric f op n, q, readBack => by
    have read : numericOf _ = .ok q := Checked.of_under_eq_ok readBack
    obtain ⟨_, value, _⟩ := numericOf_eq_ok_iff.mp read
    refine List.forall_mem_singleton.mpr (Decidable.byContradiction fun infinite => ?_)
    rw [Json.writable, if_neg infinite] at value
    cases value
  | and ps, q, readBack => by
    obtain ⟨qs, read, _⟩ := Checked.map_eq_ok_iff.mp (Checked.of_under_eq_ok readBack)
    exact isFinite_of_ofJsons_toJsons ps (Checked.of_under_eq_ok read)
  | or ps, q, readBack => by
    obtain ⟨qs, read, _⟩ := Checked.map_eq_ok_iff.mp (Checked.of_under_eq_ok readBack)
    exact isFinite_of_ofJsons_toJsons ps (Checked.of_under_eq_ok read)
  | not p, q, readBack => by
    obtain ⟨r, read, _⟩ := Checked.map_eq_ok_iff.mp (Checked.of_under_eq_ok readBack)
    exact isFinite_of_ofJson_toJson p (Checked.of_under_eq_ok read)

theorem isFinite_of_ofJsons_toJsons : ∀ (ps : List Predicate) {k : Nat} {qs : List Predicate},
    ofJsons k (Json.writableItems (toJsons ps)) = .ok qs →
      ∀ n ∈ numbersAll ps, n.isFinite = true
  | [], _, _, _ => nofun
  | p :: ps, k, qs, readBack => by
    obtain ⟨_, front, rest, read, _⟩ := Checked.seq_eq_ok_iff.mp readBack
    obtain ⟨r, first, _⟩ := Checked.map_eq_ok_iff.mp front
    exact List.forall_mem_append.mpr ⟨isFinite_of_ofJson_toJson p (Checked.of_under_eq_ok first),
      isFinite_of_ofJsons_toJsons ps read⟩

end

mutual

theorem wellFormed_toJson : ∀ p : Predicate, (∀ n ∈ p.numbers, n.Canonical) →
    p.toJson.WellFormed
  | all, _ | none, _ => ⟨by decide, trivial, trivial⟩
  | relation f op vs, _ =>
    ⟨by simp, trivial, trivial, trivial, Json.wellFormed_texts vs, trivial⟩
  | tag q is t, _ =>
    ⟨by simp, trivial, trivial, Json.wellFormed_texts is, Json.wellFormed_ofOption_str t, trivial⟩
  | numeric f op n, canonical =>
    ⟨by simp, trivial, trivial, trivial, canonical n (List.mem_singleton_self n), trivial⟩
  | ids is, _ => ⟨by simp, trivial, Json.wellFormed_texts is, trivial⟩
  | and ps, canonical => ⟨by simp, trivial, wellFormed_toJsons ps canonical, trivial⟩
  | or ps, canonical => ⟨by simp, trivial, wellFormed_toJsons ps canonical, trivial⟩
  | not p, canonical => ⟨by simp, trivial, wellFormed_toJson p canonical, trivial⟩

theorem wellFormed_toJsons : ∀ ps : List Predicate, (∀ n ∈ numbersAll ps, n.Canonical) →
    Json.ItemsWellFormed (toJsons ps)
  | [], _ => trivial
  | p :: ps, canonical => by
    obtain ⟨first, others⟩ := List.forall_mem_append.mp canonical
    exact ⟨wellFormed_toJson p first, wellFormed_toJsons ps others⟩

end

end Predicate

end Cookbook
