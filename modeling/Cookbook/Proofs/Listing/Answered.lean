import Cookbook.Listing.Progress
import Cookbook.Proofs.Listing.Exact
import Cookbook.Proofs.Listing.Merged
import Cookbook.Proofs.Rule.Wire

/-!
# Listings that are answered

With every operation in service a listing fails only over a value that the database refuses or over
the time of a match that is no number.  The rule decides about the numbers: if what its measures are
compared with fits a word, every listing is answered, whatever the links and the manual overrides
are, as far as the texts and the times of the catalog allow it.
-/

namespace Cookbook

namespace Parameter

/-- A number fits a word. -/
def Fits : Parameter → Prop
  | number n => n.FitsWord
  | text _ => True

instance : DecidablePred Fits := fun v => by
  cases v <;> unfold Fits <;> infer_instance

theorem fits_text (t : String) : (text t).Fits := trivial

end Parameter

/-- The numbers that the query for a predicate writes fit a word. -/
def Predicate.FitsQuery (p : Predicate) : Prop := ∀ v ∈ p.parameters, v.Fits

instance (p : Predicate) : Decidable p.FitsQuery := inferInstanceAs (Decidable (∀ _ ∈ _, _))

theorem Predicate.fitsQuery_of_numbers {p : Predicate} (words : ∀ n ∈ p.numbers, n.FitsWord) :
    p.FitsQuery := by
  intro v written
  rcases mem_parameters written with ⟨n, number, rfl⟩ | ⟨t, _, rfl⟩
  · exact words n number
  · trivial

/-- Every time in the catalog is a number in its zone. -/
def Catalog.Timed (c : Catalog) : Prop := ∀ x ∈ c.recipes, ∃ k, c.zone.key? x.createdAt = .ok k

instance (c : Catalog) : Decidable c.Timed := inferInstanceAs (Decidable (∀ _ ∈ _, _))

namespace Rule

/-- What the condition compares a measure with fits a word. -/
def Condition.FitsWord (c : Condition) : Prop :=
  ∀ f ∈ c.field?, f.kind = .numeric → ∀ n ∈ c.value.number?, n.FitsWord

instance (c : Condition) : Decidable c.FitsWord :=
  inferInstanceAs
    (Decidable (∀ f ∈ c.field?, f.kind = .numeric → ∀ n ∈ c.value.number?, n.FitsWord))

def FitsWord (r : Rule) : Prop := ∀ c ∈ r.conditions, c.FitsWord

instance (r : Rule) : Decidable r.FitsWord :=
  inferInstanceAs (Decidable (∀ c ∈ r.conditions, c.FitsWord))

variable {r : Rule}

theorem FitsWord.numbers (words : r.FitsWord) (links : Links) :
    ∀ n ∈ (r.predicate links).numbers, n.FitsWord := by
  intro n number
  obtain ⟨c, part, m, field, value⟩ := exists_condition_of_mem_numbers number
  exact words c part (.measure m) field rfl n value

theorem FitsWord.without (words : r.FitsWord) (links : Links) (excluded : List String) :
    ∀ n ∈ ((r.predicate links).without excluded).numbers, n.FitsWord :=
  fun n number => words.numbers links n (Predicate.numbers_without_subset _ excluded number)

theorem FitsWord.written (words : r.FitsWord) : r.written.FitsWord := by
  unfold FitsWord
  rw [conditions_written, List.forall_mem_map]
  intro c part f field numeric n value
  exact words c part f field numeric n (c.value.number?_writable ▸ value)

end Rule

namespace Store

open Attempt

/-- No operation is out of service. -/
def Working (s : Store) : Prop := ∀ op, s.down ≠ some (.operation op)

/-- What stands against a listing: that an id which its predicate refers to, a value of its query or
a pin that does not match is refused, or that the time of a match is no number. -/
def Obstructs (s : Store) (r : Rule) (ctx : Context) (f : Failure) : Prop :=
  let p := r.predicate ctx.links
  let q := p.without ctx.excluded
  (∃ k ∈ EntityKind.referable, ∃ t ∈ p.references k, s.refusal (.text t) = some f) ∨
  (∃ v ∈ q.parameters ++ Status.active.map .text, s.refusal v = some f) ∨
  (∃ t ∈ (Matches.ofList (s.found q)).unmatchedPins ctx, s.refusal (.text t) = some f) ∨
  ∃ m ∈ s.found q, s.catalog.zone.key? m.createdAt = .error f

variable {s : Store}

theorem working_of_down_eq_none (service : s.down = none) : s.Working := by
  simp [Working, service]

section Working

variable (working : s.Working)
include working

theorem hinges_serve {α : Type} (op : Operation) (values : List Parameter) (answer : α) :
    Hinges (s.serve op values answer) fun f => ∃ v ∈ values, s.refusal v = some f := by
  constructor
  · simp only [serve_eq_ok_iff, working op, ne_eq, not_false_eq_true, true_and, not_exists,
      not_and]
    constructor
    · rintro ⟨_, taken, _⟩ f v value refused
      exact nomatch (taken v value).symm.trans refused
    · intro free
      exact ⟨answer, fun v value => Option.eq_none_iff_forall_ne_some.mpr fun f => free f v value,
        rfl⟩
  · intro f failed
    rw [serve, if_neg (working op)] at failed
    split at failed
    next g refused =>
      obtain rfl : g = f := Except.error.inj failed
      exact List.exists_of_findSome?_eq_some refused
    next => cases failed

theorem hinges_texts {α : Type} (op : Operation) (ids : List String) (answer : List α) :
    Hinges (if ids.isEmpty then .ok [] else s.serve op (ids.map .text) answer)
      fun f => ∃ t ∈ ids, s.refusal (.text t) = some f := by
  split
  next nothing => exact (hinges_ok []).congr fun f => by simp [List.isEmpty_iff.mp nothing]
  next => exact (hinges_serve working op _ answer).congr fun f => by simp

theorem hinges_checkReferences (references : EntityKind → List String) :
    Hinges (s.checkReferences references) fun f =>
      ∃ k ∈ EntityKind.referable, ∃ t ∈ references k, s.refusal (.text t) = some f := by
  have each (k : EntityKind) : Hinges (s.unresolvedOf k (sortedSet (references k)))
      fun f => ∃ t ∈ references k, s.refusal (.text t) = some f :=
    ((hinges_texts working _ _ _).bind fun _ _ => hinges_ok _).congr fun f => by
      simp [mem_sortedSet]
  exact ((Hinges.mapM fun k _ => each k).bind fun _ _ => hinges_ok _).congr fun f => by simp

theorem hinges_evaluate (p : Predicate) (excluded : List String) :
    Hinges (s.evaluate p excluded) fun f =>
      ∃ v ∈ (p.without excluded).parameters ++ Status.active.map .text, s.refusal v = some f :=
  (hinges_serve working _ _ _).map _

theorem hinges_pinnedStatuses (ids : List String) :
    Hinges (s.pinnedStatuses ids) fun f => ∃ t ∈ ids, s.refusal (.text t) = some f :=
  ((hinges_texts working _ ids _).bind fun _ _ => hinges_ok _).congr fun f => by simp

omit working

theorem hinges_arrange (key : Instant → Attempt Int) (base : List Dated)
    (pinned excluded : List String) : Hinges (arrange key base pinned excluded)
      fun f => ∃ d ∈ base, ∃ t ∈ d.createdAt, key t = .error f := by
  have each (d : Dated) : Hinges (d.ranked key) fun f => ∃ t ∈ d.createdAt, key t = .error f := by
    refine ⟨?_, fun f => Dated.ranked_eq_error_iff.mp⟩
    simp only [← Dated.ranked_eq_error_iff]
    cases d.ranked key <;> simp
  exact ((Hinges.mapM fun d _ => each d).bind fun _ _ => hinges_ok _).congr fun f => by simp

theorem hinges_entriesOf (key : Instant → Attempt Int) (base : Matches) (ctx : Context)
    (statuses : List (String × String)) : Hinges (Listing.entriesOf key base ctx statuses)
      fun f => ∃ m ∈ base.toList, key m.createdAt = .error f :=
  ((hinges_arrange _ _ _ _).bind fun _ _ => hinges_ok _).congr fun f => by simp [Match.dated]

theorem eq_found_of_evaluate_eq_ok {p : Predicate} {excluded : List String} {base : Matches}
    (finite : ∀ n ∈ p.numbers, n.isFinite = true) (evaluated : s.evaluate p excluded = .ok base) :
    base = .ofList (s.found (p.without excluded)) := by
  obtain ⟨ms, listed, rfl⟩ := map_eq_ok_iff.mp evaluated
  have finite : ∀ n ∈ (p.without excluded).numbers, n.isFinite = true :=
    fun n number => finite n (Predicate.numbers_without_subset p excluded number)
  rw [eq_of_listMatches_eq_ok finite listed, found]

/-- A listing is answered unless something stands against it. -/
theorem hinges_listing (working : s.Working) (r : Rule) (ctx : Context) :
    Hinges (s.listing r ctx) (s.Obstructs r ctx) := by
  let p := r.predicate ctx.links
  let q := p.without ctx.excluded
  suffices stages : Hinges (s.listing r ctx) fun f =>
      (∃ k ∈ EntityKind.referable, ∃ t ∈ p.references k, s.refusal (.text t) = some f) ∨
      (∃ v ∈ q.parameters ++ Status.active.map .text, s.refusal v = some f) ∨
      (∃ t ∈ (Matches.ofList (s.found q)).unmatchedPins ctx, s.refusal (.text t) = some f) ∨
      (∃ m ∈ (Matches.ofList (s.found q)).toList, s.catalog.zone.key? m.createdAt = .error f) ∨
      False by
    have matched (m : Match) : m ∈ (Matches.ofList (s.found q)).toList ↔ m ∈ s.found q :=
      Matches.mem_toList_ofList.trans (and_iff_left_of_imp (active_of_mem_found m))
    exact stages.congr fun f => by simp only [matched, or_false, Obstructs, p, q]
  refine (hinges_checkReferences working _).bind fun unresolved _ => ?_
  refine (hinges_evaluate working _ _).bind fun base evaluated => ?_
  obtain rfl := eq_found_of_evaluate_eq_ok (r.isFinite_predicate ctx.links) evaluated
  refine (hinges_pinnedStatuses working _).bind fun more _ => ?_
  exact (hinges_entriesOf _ _ _ _).bind fun entries _ => hinges_ok _

end Working

section Free

variable (service : s.down = none)
include service

theorem refusal_of_down_eq_none (v : Parameter) :
    s.refusal v = if v.Fits then none else some .overflow := by
  cases v with
  | number n => rfl
  | text t => simp [refusal, service, Parameter.Fits]

theorem exists_refusal_iff {values : List Parameter} {f : Failure} :
    (∃ v ∈ values, s.refusal v = some f) ↔ f = .overflow ∧ ¬ ∀ v ∈ values, v.Fits := by
  have refused (v : Parameter) : s.refusal v = some f ↔ f = .overflow ∧ ¬ v.Fits := by
    rw [refusal_of_down_eq_none service]
    split
    next fits => simp [fits]
    next beyond => simp [beyond, eq_comm]
  simp only [refused, not_forall]
  exact ⟨fun ⟨v, value, same, beyond⟩ => ⟨same, v, value, beyond⟩,
    fun ⟨same, v, value, beyond⟩ => ⟨v, value, same, beyond⟩⟩

theorem query_eq {α : Type} (op : Operation) (p : Predicate) (statuses : List String) (answer : α) :
    s.query op p statuses answer = if p.FitsQuery then .ok answer else .error .overflow := by
  have hinges := hinges_serve (working_of_down_eq_none service) op
    (p.parameters ++ statuses.map .text) answer
  have written : (∀ v ∈ p.parameters ++ statuses.map .text, v.Fits) ↔ p.FitsQuery := by
    simp [Predicate.FitsQuery, or_imp, forall_and, Parameter.fits_text]
  simp only [exists_refusal_iff service, written] at hinges
  cases queried : s.query op p statuses answer with
  | ok found =>
    have fits : p.FitsQuery := by simpa using hinges.1.mp ⟨found, queried⟩ .overflow
    rw [if_pos fits, eq_of_serve_eq_ok queried]
  | error f =>
    obtain ⟨rfl, beyond⟩ := hinges.2 f queried
    rw [if_neg beyond]

theorem exists_existingIds (k : EntityKind) (ids : List String) :
    ∃ found, s.existingIds k ids = .ok found := by
  refine (hinges_texts (working_of_down_eq_none service) .existingIds ids _).1.mpr fun f => ?_
  simp [refusal_of_down_eq_none service, Parameter.fits_text]

theorem exists_checkReferences (references : EntityKind → List String) :
    ∃ warnings, s.checkReferences references = .ok warnings := by
  refine (hinges_checkReferences (working_of_down_eq_none service) references).1.mpr fun f => ?_
  simp [refusal_of_down_eq_none service, Parameter.fits_text]

theorem exists_evaluate {p : Predicate} {excluded : List String}
    (fits : (p.without excluded).FitsQuery) : ∃ base, s.evaluate p excluded = .ok base := by
  rw [evaluate, listMatches, query_eq service, if_pos fits]
  exact ⟨_, rfl⟩

/-- Where all texts are taken, only the numbers of the query and the times of the matches count. -/
theorem obstructs_iff {r : Rule} {ctx : Context} {f : Failure} : s.Obstructs r ctx f ↔
    (f = .overflow ∧ ¬ ((r.predicate ctx.links).without ctx.excluded).FitsQuery) ∨
      ∃ m ∈ s.found ((r.predicate ctx.links).without ctx.excluded),
        s.catalog.zone.key? m.createdAt = .error f := by
  have texts (ts : List String) : ¬ ∃ t ∈ ts, s.refusal (.text t) = some f := by
    simp [refusal_of_down_eq_none service, Parameter.fits_text]
  simp only [Obstructs, texts, exists_refusal_iff service, and_false, exists_false, false_or,
    Predicate.FitsQuery]
  simp [or_imp, forall_and, Parameter.fits_text]

/-- Where all times are numbers as well, the listing hinges on the numbers of its query. -/
theorem listing_cases (timed : s.catalog.Timed) (r : Rule) (ctx : Context) :
    if ((r.predicate ctx.links).without ctx.excluded).FitsQuery then
      ∃ l, s.listing r ctx = .ok l
    else s.listing r ctx = .error .overflow := by
  have hinges := hinges_listing (working_of_down_eq_none service) r ctx
  have untimed (f : Failure) : ¬ ∃ m ∈ s.found ((r.predicate ctx.links).without ctx.excluded),
      s.catalog.zone.key? m.createdAt = .error f := by
    rintro ⟨m, matched, failed⟩
    obtain ⟨x, row, _, _, rfl⟩ := mem_found.mp matched
    obtain ⟨k, number⟩ := timed x row
    exact nomatch number.symm.trans failed
  have stands (f : Failure) : s.Obstructs r ctx f ↔
      f = .overflow ∧ ¬ ((r.predicate ctx.links).without ctx.excluded).FitsQuery :=
    (obstructs_iff service).trans (or_iff_left (untimed f))
  split
  next fits => exact hinges.1.mpr fun f against => ((stands f).mp against).2 fits
  next beyond =>
    cases listed : s.listing r ctx with
    | ok l => exact absurd ((stands .overflow).mpr ⟨rfl, beyond⟩) (hinges.1.mp ⟨l, listed⟩ _)
    | error f => rw [((stands f).mp (hinges.2 f listed)).1]

theorem exists_listing {r : Rule} (words : r.FitsWord) (timed : s.catalog.Timed) (ctx : Context) :
    ∃ l, s.listing r ctx = .ok l := by
  have cases := listing_cases service timed r ctx
  rwa [if_pos (Predicate.fitsQuery_of_numbers (words.without ctx.links ctx.excluded))] at cases

end Free

theorem fitsQuery_of_query_eq_ok {α : Type} {op : Operation} {p : Predicate}
    {statuses : List String} {answer found : α}
    (queried : s.query op p statuses answer = .ok found) : p.FitsQuery := by
  obtain ⟨_, taken, _⟩ := serve_eq_ok_iff.mp queried
  intro v written
  have accepted := taken v (List.mem_append_left _ written)
  cases v with
  | number n => exact of_not_not fun beyond => nomatch (if_neg beyond).symm.trans accepted
  | text t => trivial

/-- The warnings of a listing are those of its rule and of what the rule refers to. -/
theorem warnings_of_listing_eq_ok {r : Rule} {ctx : Context} {l : Listing}
    (listed : s.listing r ctx = .ok l) :
    ∃ unresolved, s.checkReferences (fun k => (r.predicate ctx.links).references k) =
      .ok unresolved ∧ l.warnings = r.warnings ctx.links ++ unresolved := by
  obtain ⟨unresolved, _, _, _, checked, _, _, _, rfl⟩ := listing_eq_ok_iff.mp listed
  exact ⟨unresolved, checked, rfl⟩

theorem of_listing_eq_ok {r : Rule} {ctx : Context} {l : Listing}
    (listed : s.listing r ctx = .ok l) :
    ∃ base more, s.evaluate (r.predicate ctx.links) ctx.excluded = .ok base ∧
      s.pinnedStatuses (base.unmatchedPins ctx) = .ok more ∧
      Listing.entriesOf s.catalog.zone.key? base ctx (base.statuses ++ more) = .ok l.entries ∧
      l.counts = .ofStatuses (l.entries.map Prod.snd) := by
  obtain ⟨_, base, more, entries, _, evaluated, settled, entered, rfl⟩ :=
    listing_eq_ok_iff.mp listed
  exact ⟨base, more, evaluated, settled, entered, rfl⟩

theorem nodup_ids_of_listing_eq_ok {r : Rule} {ctx : Context} {l : Listing}
    (listed : s.listing r ctx = .ok l) : l.ids.Nodup := by
  obtain ⟨base, more, _, _, entered, _⟩ := of_listing_eq_ok listed
  exact Listing.nodup_map_fst_entriesOf entered

theorem ids_eq_append_of_listing_eq_ok {r : Rule} {ctx : Context} {l : Listing}
    (listed : s.listing r ctx = .ok l) : ∃ pins rest, l.ids = pins ++ rest ∧
      (∀ id ∈ pins, id ∈ ctx.pinned) ∧ ∀ id ∈ rest, id ∉ ctx.pinned := by
  obtain ⟨base, more, _, _, entered, _⟩ := of_listing_eq_ok listed
  obtain ⟨rest, parts, unpinned⟩ := Listing.map_fst_entriesOf_eq_append entered
  exact ⟨_, rest, parts, fun id pin => mem_distinct.mp (List.mem_filter.mp pin).1, unpinned⟩

theorem matched_of_listing_eq_ok {r : Rule} {ctx : Context} {l : Listing}
    (listed : s.listing r ctx = .ok l) : l.counts.matched = l.entries.length := by
  obtain ⟨base, more, _, _, _, counts⟩ := of_listing_eq_ok listed
  rw [counts, Counts.ofStatuses, List.length_map]

/-- The entries of a listing are the admitted recipes with their states. -/
theorem mem_entries_of_listing_eq_ok (keyed : s.catalog.Keyed) {r : Rule} {ctx : Context}
    {l : Listing} (listed : s.listing r ctx = .ok l) {e : String × String} :
    e ∈ l.entries ↔ ∃ x ∈ s.catalog.recipes,
      ctx.Admits s.catalog (r.predicate ctx.links) x ∧ (x.id, x.status) = e := by
  obtain ⟨base, more, evaluated, settled, entered, _⟩ := of_listing_eq_ok listed
  have finite := r.isFinite_predicate ctx.links
  have known {e : String × String} (entry : e ∈ l.entries) :=
    (lookup_statuses_append keyed finite evaluated settled).mp
      (Listing.lookup_of_mem_entriesOf entered entry)
  constructor
  · intro entry
    obtain ⟨x, row, admits, same, status⟩ := known entry
    exact ⟨x, row, admits, Prod.ext same status⟩
  · rintro ⟨x, row, admits, rfl⟩
    have found := (lookup_statuses_append keyed finite evaluated settled).mpr
      ⟨x, row, admits, rfl, rfl⟩
    have reason : x.id ∈ ctx.pinned ∨ ∃ m ∈ base.toList, m.id = x.id :=
      admits.2.1.symm.imp_right fun holds =>
        ⟨x.toMatch, (mem_of_evaluate_eq_ok finite evaluated).mpr
          ⟨x, row, admits.1, holds, admits.2.2, rfl⟩, rfl⟩
    have shown : x.id ∈ l.entries.map Prod.fst :=
      (Listing.mem_map_fst_entriesOf entered).mpr ⟨reason, admits.2.2, by rw [found]; rfl⟩
    obtain ⟨e, entry, same⟩ := List.mem_map.mp shown
    -- Another row with this id would be the same row.
    obtain ⟨y, among, _, key, status⟩ := known entry
    obtain rfl := keyed.eq_of_id among row (key.trans same)
    exact (Prod.ext same status.symm : e = (y.id, y.status)) ▸ entry

/-- What a listing shows are recipes of the catalog. -/
theorem ids_subset_of_listing_eq_ok {r : Rule} {ctx : Context} {l : Listing}
    (listed : s.listing r ctx = .ok l) : l.ids ⊆ s.catalog.recipes.map Recipe.id := by
  obtain ⟨base, more, evaluated, settled, entered, _⟩ := of_listing_eq_ok listed
  intro id shown
  obtain ⟨_, _, known⟩ := (Listing.mem_map_fst_entriesOf entered).mp shown
  obtain ⟨t, found⟩ := Option.isSome_iff_exists.mp known
  rcases List.mem_append.mp (mem_of_lookup_eq_some found) with matched | pinned
  · obtain ⟨m, among, same⟩ := List.mem_map.mp matched
    have finite := r.isFinite_predicate ctx.links
    obtain ⟨x, row, _, _, _, rfl⟩ := (mem_of_evaluate_eq_ok finite evaluated).mp among
    exact List.mem_map.mpr ⟨x, row, congrArg Prod.fst same⟩
  · obtain ⟨x, row, _, _, same⟩ := (mem_of_pinnedStatuses_eq_ok settled).mp pinned
    exact List.mem_map.mpr ⟨x, row, congrArg Prod.fst same⟩

theorem published_le_of_listing_eq_ok {r : Rule} {ctx : Context} {l : Listing}
    (listed : s.listing r ctx = .ok l) :
    0 ≤ l.counts.published ∧ l.counts.published ≤ s.catalog.recipes.length := by
  obtain ⟨base, more, _, _, _, counts⟩ := of_listing_eq_ok listed
  have rows := (nodup_ids_of_listing_eq_ok listed).length_le_of_subset
    (ids_subset_of_listing_eq_ok listed)
  have counted : (l.entries.map Prod.snd).count Status.published ≤ _ := List.count_le_length
  rw [Listing.ids, List.length_map, List.length_map] at rows
  rw [List.length_map] at counted
  rw [counts, Counts.ofStatuses]
  dsimp only
  omega

end Store

namespace Progress

/-- A quotient of whole numbers of 64 bits is not too large. -/
theorem exists_percent? {published : Int} (word : (Number.int published).FitsWord) (target : Int) :
    ∃ x, percent? published target = some x := by
  unfold percent?
  split
  next => exact ⟨_, rfl⟩
  next =>
    have small : published.natAbs < 2 ^ 64 := by
      obtain ⟨low, high⟩ := word
      omega
    rw [if_pos (Binary64.isFinite_ofRatio small)]
    exact ⟨_, rfl⟩

theorem exists_of {counts : Counts} (word : (Number.int counts.published).FitsWord)
    (minRequired target : Int) (threshold : Number) :
    ∃ p, Progress.of counts minRequired target threshold = .ok p := by
  obtain ⟨x, computed⟩ := exists_percent? word target
  unfold Progress.of
  rw [computed]
  exact ⟨_, rfl⟩

end Progress

end Cookbook
