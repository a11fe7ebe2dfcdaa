import Cookbook.Proofs.Attempt
import Cookbook.Proofs.Query.Exact

/-!
# Listing matches

A query whose numbers fit a word is answered, with exactly the active recipes of which the predicate
holds.  Negation, conjunction and disjunction of predicates are therefore complement, intersection
and union of what is listed.
-/

namespace Cookbook

def Recipe.bare (id status : String) : Recipe :=
  ⟨id, id, status, none, none, none, none, none, none, [], ⟨0⟩, ⟨0⟩⟩

namespace Written

variable {v : Parameter}

theorem mem_parameters_junction {neutral : Bool} {ws : List Written}
    (written : v ∈ (junction neutral ws).parameters) : ∃ w ∈ ws, v ∈ w.parameters := by
  unfold junction at written
  split at written
  · cases written
  have kept : ∀ w ∈ ws.filter (· != truth neutral), w ∈ ws :=
    fun w member => (List.mem_filter.mp member).1
  split at written
  next => cases written
  next w alone => exact ⟨w, kept w (by simp [alone]), written⟩
  next =>
    obtain ⟨w, member, part⟩ := List.mem_flatMap.mp written
    exact ⟨w, kept w member, part⟩

theorem parameters_not (w : Written) : w.not.parameters = w.parameters := by
  cases w <;> rfl

end Written

namespace Clause

variable {v : Parameter} {cs : List Clause}

theorem writtenAll_eq_map (cs : List Clause) : writtenAll cs = cs.map written := by
  induction cs with
  | nil => rfl
  | cons c cs ih => simp [writtenAll, ih]

theorem mem_parameters_and (written : v ∈ (and cs).written.parameters) :
    ∃ c ∈ cs, v ∈ c.written.parameters := by
  rw [Clause.written, writtenAll_eq_map] at written
  simpa using Written.mem_parameters_junction written

theorem mem_parameters_or (written : v ∈ (or cs).written.parameters) :
    ∃ c ∈ cs, v ∈ c.written.parameters := by
  rw [Clause.written, writtenAll_eq_map] at written
  simpa using Written.mem_parameters_junction written

variable {c d : Clause}

/-- A first part without values leaves those of the second. -/
theorem mem_parameters_and_pair (bare : c.written.parameters = [])
    (written : v ∈ (and [c, d]).written.parameters) : v ∈ d.written.parameters := by
  obtain ⟨e, part, own⟩ := mem_parameters_and written
  rcases List.mem_pair.mp part with rfl | rfl
  · rw [bare] at own
    cases own
  · exact own

theorem mem_parameters_or_pair (bare : c.written.parameters = [])
    (written : v ∈ (or [c, d]).written.parameters) : v ∈ d.written.parameters := by
  obtain ⟨e, part, own⟩ := mem_parameters_or written
  rcases List.mem_pair.mp part with rfl | rfl
  · rw [bare] at own
    cases own
  · exact own

end Clause

namespace Predicate

variable {v : Parameter}

theorem mem_parameters_relation {f : Relation} {op : Membership} {vs : List String}
    (written : v ∈ (relation f op vs).parameters) : ∃ t ∈ vs, .text t = v := by
  unfold parameters Clause.ofPredicate Clause.ofRelation at written
  split at written
  · cases written
  split at written
  · exact List.mem_map.mp (Clause.mem_parameters_and_pair rfl written)
  · exact List.mem_map.mp (Clause.mem_parameters_or_pair rfl written)

theorem mem_parameters_tag {q : Quantifier} {is : List String} {t : Option String}
    (written : v ∈ (tag q is t).parameters) : ∃ s ∈ is ++ (presentText? t).toList, .text s = v := by
  unfold parameters Clause.ofPredicate Clause.ofTag at written
  split at written
  · cases written
  cases q with
  | some => exact List.mem_map.mp written
  | none =>
    rw [Clause.written, Written.parameters_not] at written
    exact List.mem_map.mp written

theorem mem_parameters_numeric {f : Measure} {op : Comparison} {n : Number}
    (written : v ∈ (numeric f op n).parameters) : v = .number n := by
  unfold parameters Clause.ofPredicate Clause.ofNumeric at written
  split at written
  · exact List.mem_singleton.mp (Clause.mem_parameters_or_pair rfl written)
  · exact List.mem_singleton.mp (Clause.mem_parameters_and_pair rfl written)

theorem mem_parameters_ids {is : List String} (written : v ∈ (ids is).parameters) :
    ∃ t ∈ is, .text t = v := by
  unfold parameters Clause.ofPredicate Clause.ofIds at written
  split at written
  · cases written
  · exact List.mem_map.mp written

/-- A query has no values but the numbers and the texts of its predicate. -/
theorem mem_parameters {p : Predicate} (written : v ∈ p.parameters) :
    (∃ n ∈ p.numbers, .number n = v) ∨ ∃ t ∈ p.texts, .text t = v := by
  induction p with
  | all => cases written
  | none => cases written
  | relation f op vs =>
    obtain ⟨t, own, same⟩ := mem_parameters_relation written
    exact .inr ⟨t, List.mem_flatMap.mpr ⟨_, List.mem_singleton_self _, own⟩, same⟩
  | tag q is t =>
    obtain ⟨t, own, same⟩ := mem_parameters_tag written
    exact .inr ⟨t, List.mem_flatMap.mpr ⟨_, List.mem_singleton_self _, own⟩, same⟩
  | numeric f op n => exact .inl ⟨n, by simp [numbers], (mem_parameters_numeric written).symm⟩
  | ids is =>
    obtain ⟨t, own, same⟩ := mem_parameters_ids written
    exact .inr ⟨t, List.mem_flatMap.mpr ⟨_, List.mem_singleton_self _, own⟩, same⟩
  | and ps ih =>
    obtain ⟨c, part, written⟩ := Clause.mem_parameters_and written
    rw [Clause.ofPredicates_eq_map] at part
    rcases List.mem_cons.mp part with rfl | part
    · cases written
    obtain ⟨p, child, rfl⟩ := List.mem_map.mp part
    refine (ih p child written).imp ?_ ?_
    · rintro ⟨n, number, same⟩
      exact ⟨n, mem_numbers_and.mpr ⟨p, child, number⟩, same⟩
    · rintro ⟨t, text, same⟩
      exact ⟨t, texts_subset_and child text, same⟩
  | or ps ih =>
    obtain ⟨c, part, written⟩ := Clause.mem_parameters_or written
    rw [Clause.ofPredicates_eq_map] at part
    rcases List.mem_cons.mp part with rfl | part
    · cases written
    obtain ⟨p, child, rfl⟩ := List.mem_map.mp part
    refine (ih p child written).imp ?_ ?_
    · rintro ⟨n, number, same⟩
      exact ⟨n, mem_numbers_or.mpr ⟨p, child, number⟩, same⟩
    · rintro ⟨t, text, same⟩
      exact ⟨t, texts_subset_or child text, same⟩
  | not p ih =>
    rw [parameters, Clause.ofPredicate, Clause.written, Written.parameters_not] at written
    exact ih written

end Predicate

theorem Catalog.select_eq_filter (c : Catalog) {p : Predicate}
    (finite : ∀ n ∈ p.numbers, n.isFinite = true) : c.select p = c.recipes.filter (p.holds c) :=
  List.filter_congr fun r _ => by simp [Clause.eval_ofPredicate c r p finite]

namespace Store

variable {α : Type}

/-- The operation is in service, and its texts are taken. -/
def Serves (s : Store) (op : Operation) (texts : List String) : Prop :=
  s.down ≠ some (.operation op) ∧ ∀ t ∈ texts, s.refusal (.text t) = none

instance (s : Store) (op : Operation) (texts : List String) : Decidable (s.Serves op texts) :=
  inferInstanceAs (Decidable (_ ∧ _))

variable {s : Store} {op : Operation}

theorem Serves.of_subset {texts more : List String} (serving : s.Serves op more)
    (fewer : texts ⊆ more) : s.Serves op texts :=
  ⟨serving.1, fun t member => serving.2 t (fewer member)⟩

theorem Serves.texts_subset {p q : Predicate} {statuses : List String}
    (serving : s.Serves op (p.texts ++ statuses)) (fewer : q.texts ⊆ p.texts) :
    s.Serves op (q.texts ++ statuses) := by
  apply serving.of_subset
  intro t text
  exact List.mem_append.mpr ((List.mem_append.mp text).imp_left fun own => fewer own)

theorem serves_of_down_eq_none (service : s.down = none) (op : Operation) (texts : List String) :
    s.Serves op texts := by
  constructor
  · simp [service]
  · simp [refusal, service]

/-- An answer is the right one, and whatever was handed to the database was taken. -/
theorem serve_eq_ok_iff {values : List Parameter} {answer found : α} :
    s.serve op values answer = .ok found ↔
      s.down ≠ some (.operation op) ∧ (∀ v ∈ values, s.refusal v = none) ∧ found = answer := by
  unfold serve
  split
  next down => simp [down]
  next serving =>
    split
    next f refused =>
      obtain ⟨v, member, refuses⟩ := List.exists_of_findSome?_eq_some refused
      constructor
      · intro answered
        cases answered
      · rintro ⟨_, taken, _⟩
        cases (taken v member).symm.trans refuses
    next taken =>
      rw [List.findSome?_eq_none_iff] at taken
      simp only [Except.ok.injEq, ne_eq, serving, not_false_eq_true, true_and]
      exact ⟨fun same => ⟨taken, same.symm⟩, fun ⟨_, same⟩ => same.symm⟩

theorem eq_of_serve_eq_ok {values : List Parameter} {answer found : α}
    (served : s.serve op values answer = .ok found) : found = answer :=
  (serve_eq_ok_iff.mp served).2.2

theorem serve_texts_eq_ok {texts : List String} (serving : s.Serves op texts) (answer : α) :
    s.serve op (texts.map .text) answer = .ok answer :=
  serve_eq_ok_iff.mpr ⟨serving.1, List.forall_mem_map.mpr serving.2, rfl⟩

theorem query_eq_ok {p : Predicate} {statuses : List String}
    (serving : s.Serves op (p.texts ++ statuses)) (words : ∀ n ∈ p.numbers, n.FitsWord)
    (answer : α) : s.query op p statuses answer = .ok answer := by
  refine serve_eq_ok_iff.mpr ⟨serving.1, fun v written => ?_, rfl⟩
  rcases List.mem_append.mp written with written | status
  · rcases Predicate.mem_parameters written with ⟨n, number, rfl⟩ | ⟨t, text, rfl⟩
    · exact if_pos (words n number)
    · exact serving.2 t (List.mem_append_left _ text)
  · obtain ⟨t, member, rfl⟩ := List.mem_map.mp status
    exact serving.2 t (List.mem_append_right _ member)

theorem map_serve {β : Type} (s : Store) (op : Operation) (values : List Parameter) (f : α → β)
    (answer : α) : (s.serve op values answer).map f = s.serve op values (f answer) := by
  unfold serve
  split
  · rfl
  split <;> rfl

theorem mem_of_existingIds_eq_ok {s : Store} {k : EntityKind} {ids existing : List String}
    (found : s.existingIds k ids = .ok existing) {id : String} :
    id ∈ existing ↔ id ∈ ids ∧ id ∈ s.catalog.idsOf k := by
  unfold existingIds at found
  split at found
  next nothing =>
    cases found
    simp [List.isEmpty_iff.mp nothing]
  next =>
    rw [eq_of_serve_eq_ok found]
    simp

theorem eq_of_query_eq_ok {s : Store} {op : Operation} {p : Predicate} {statuses : List String}
    {answer found : α} (queried : s.query op p statuses answer = .ok found) : found = answer :=
  eq_of_serve_eq_ok queried

def matching (s : Store) (p : Predicate) : List Recipe :=
  (s.catalog.recipes.filter (p.holds s.catalog)).filter fun r => Status.active.contains r.status

theorem mem_matching {s : Store} {p : Predicate} {r : Recipe} :
    r ∈ s.matching p ↔ r ∈ s.catalog.recipes ∧ r.IsActive ∧ p.holds s.catalog r = true := by
  simp only [matching, List.mem_filter, Recipe.IsActive, List.contains_iff_mem]
  tauto

theorem eq_of_listMatches_eq_ok {s : Store} {p : Predicate} {ms : List Match}
    (finite : ∀ n ∈ p.numbers, n.isFinite = true) (listed : s.listMatches p [] = .ok ms) :
    ms = (s.matching p).map Recipe.toMatch := by
  have answer := eq_of_query_eq_ok listed
  rwa [s.catalog.select_eq_filter finite] at answer

theorem listMatches_eq_ok {s : Store} {p : Predicate}
    (serving : s.Serves .listMatches (p.texts ++ Status.active))
    (finite : ∀ n ∈ p.numbers, n.isFinite = true) (words : ∀ n ∈ p.numbers, n.FitsWord) :
    s.listMatches p [] = .ok ((s.matching p).map Recipe.toMatch) := by
  rw [listMatches, s.catalog.select_eq_filter finite]
  exact query_eq_ok serving words _

/-- The matches that are listed where nothing is out of service. -/
def found (s : Store) (p : Predicate) : List Match := (s.matching p).map Recipe.toMatch

theorem mem_found {s : Store} {p : Predicate} {m : Match} : m ∈ s.found p ↔
    ∃ x ∈ s.catalog.recipes, x.IsActive ∧ p.holds s.catalog x = true ∧ x.toMatch = m := by
  simp only [found, List.mem_map, mem_matching, and_assoc]

theorem active_of_mem_found {s : Store} {p : Predicate} :
    ∀ m ∈ s.found p, m.status ∈ Status.active := by
  intro m member
  obtain ⟨x, _, active, _, rfl⟩ := mem_found.mp member
  exact active

theorem nodup_matching_ids {s : Store} (keyed : s.catalog.Keyed) (p : Predicate) :
    (((s.matching p).map Recipe.toMatch).map Match.id).Nodup := by
  have sublist : (s.matching p).Sublist s.catalog.recipes :=
    (List.filter_sublist).trans List.filter_sublist
  rw [List.map_map]
  exact (sublist.map Recipe.id).nodup (keyed .recipe)

/-- The recipe is among the matches that the store lists. -/
def Lists (s : Store) (p : Predicate) (r : Recipe) : Prop :=
  ∃ ms, s.listMatches p [] = .ok ms ∧ r.toMatch ∈ ms

theorem lists_iff_holds {s : Store} {p : Predicate} {r : Recipe} (keyed : s.catalog.Keyed)
    (serving : s.Serves .listMatches (p.texts ++ Status.active))
    (words : ∀ n ∈ p.numbers, n.isFinite = true ∧ n.FitsWord) (row : r ∈ s.catalog.recipes)
    (active : r.IsActive) : s.Lists p r ↔ p.holds s.catalog r = true := by
  have listed := listMatches_eq_ok serving (fun n number => (words n number).1)
    (fun n number => (words n number).2)
  constructor
  · rintro ⟨ms, answered, member⟩
    rw [listed] at answered
    cases answered
    obtain ⟨t, found, same⟩ := List.mem_map.mp member
    obtain ⟨among, _, holds⟩ := mem_matching.mp found
    rwa [keyed.eq_of_id row among (congrArg Match.id same).symm]
  · intro holds
    exact ⟨_, listed, List.mem_map_of_mem (mem_matching.mpr ⟨row, active, holds⟩)⟩

/-- Whatever a predicate is built from, its clause is true or false of every row and true exactly
when the predicate holds.  The active recipes that are listed for a predicate are those of which it
holds, each once; those listed for its negation are all the others; and those listed for a junction
are what its children are all, or any of them, listed for. -/
theorem listMatches_exact (s : Store) (p : Predicate) (keyed : s.catalog.Keyed)
    (serving : s.Serves .listMatches (p.texts ++ Status.active))
    (words : ∀ n ∈ p.numbers, n.isFinite = true ∧ n.FitsWord) :
    (∀ q ∈ p.nodes, ∀ r,
      (Clause.ofPredicate q).eval s.catalog r = some (q.holds s.catalog r)) ∧
    (∃ ms, s.listMatches p [] = .ok ms ∧ (ms.map Match.id).Nodup ∧
      ∀ m, m ∈ ms ↔ ∃ r ∈ s.catalog.recipes,
        r.IsActive ∧ p.holds s.catalog r = true ∧ r.toMatch = m) ∧
    ∀ r ∈ s.catalog.recipes, r.IsActive →
      (s.Lists (.not p) r ↔ ¬ s.Lists p r) ∧
      (∀ ps, p = .and ps → (s.Lists p r ↔ ∀ q ∈ ps, s.Lists q r)) ∧
      (∀ ps, p = .or ps → (s.Lists p r ↔ ∃ q ∈ ps, s.Lists q r)) := by
  have finite : ∀ n ∈ p.numbers, n.isFinite = true := fun n number => (words n number).1
  refine ⟨fun q node r => ?_, ?_, fun r row active => ⟨?_, ?_, ?_⟩⟩
  · exact Clause.eval_ofPredicate _ r q fun n number =>
      finite n (Predicate.numbers_subset_of_mem_nodes node number)
  · have listed := listMatches_eq_ok serving finite fun n number => (words n number).2
    refine ⟨_, listed, nodup_matching_ids keyed p, fun m => ?_⟩
    simp only [List.mem_map, mem_matching, and_assoc]
  · rw [lists_iff_holds keyed serving words row active,
      lists_iff_holds keyed serving (p := .not p) words row active]
    simp
  · rintro ps rfl
    have children : ∀ q ∈ ps, s.Lists q r ↔ q.holds s.catalog r = true := fun q child =>
      lists_iff_holds keyed (serving.texts_subset (Predicate.texts_subset_and child))
        (fun n number => words n (Predicate.mem_numbers_and.mpr ⟨q, child, number⟩)) row active
    rw [lists_iff_holds keyed serving words row active, Predicate.holds_and, List.all_eq_true]
    exact forall₂_congr fun q child => (children q child).symm
  · rintro ps rfl
    have children : ∀ q ∈ ps, s.Lists q r ↔ q.holds s.catalog r = true := fun q child =>
      lists_iff_holds keyed (serving.texts_subset (Predicate.texts_subset_or child))
        (fun n number => words n (Predicate.mem_numbers_or.mpr ⟨q, child, number⟩)) row active
    rw [lists_iff_holds keyed serving words row active, Predicate.holds_or, List.any_eq_true]
    exact exists_congr fun q => and_congr_right fun child => (children q child).symm

/-- Recipes without a cuisine or a cooking time, one of them linked to a tag that has no row. -/
def sparse : Store :=
  ⟨⟨.utc, [], [], [], [{ Recipe.bare "a" Status.published with tags := ["gone"] },
    Recipe.bare "b" Status.draft, Recipe.bare "c" Status.archived]⟩, none⟩

/-- No row tells of the tag, and what is missing differs from every number. -/
def sparseQuery : Predicate :=
  .and [.not (.tag .some ["gone"] (some "scene")), .numeric .cookTime .neq (.int 5),
    .not (.relation .cuisine .isIn ["a", "b"]), .or [.ids ["a"], .or []]]

theorem listMatches_exact_sparse :
    (sparse.catalog.Keyed ∧ sparse.Serves .listMatches (sparseQuery.texts ++ Status.active) ∧
      ∀ n ∈ sparseQuery.numbers, n.isFinite = true ∧ n.FitsWord) ∧
    ∀ r ∈ sparse.catalog.recipes, r.IsActive →
      (sparse.Lists (.not sparseQuery) r ↔ ¬ sparse.Lists sparseQuery r) := by
  have keyed : sparse.catalog.Keyed := by decide
  have serving : sparse.Serves .listMatches (sparseQuery.texts ++ Status.active) := by decide
  have words : ∀ n ∈ sparseQuery.numbers, n.isFinite = true ∧ n.FitsWord := by decide
  exact ⟨⟨keyed, serving, words⟩, fun r row active =>
    ((listMatches_exact sparse sparseQuery keyed serving words).2.2 r row active).1⟩

end Store

end Cookbook
