import Cookbook.Listing.Basic
import Cookbook.Proofs.Listing.Arrange
import Cookbook.Proofs.Query.Matches
import Cookbook.Proofs.Rule.Meaning

/-!
# Listings are exact

A listing is put together from matches and the statuses of pinned ids.  Both sources know the same
recipes to be admitted, so the listing is the admitted recipes, each once and with its own status.
-/

namespace Cookbook

section Lookup

variable {α : Type} {table : List (String × α)} {key : String} {value : α}

theorem mem_of_lookup_eq_some (found : table.lookup key = some value) : (key, value) ∈ table := by
  obtain ⟨_, _, rfl, _⟩ := List.lookup_eq_some_iff.mp found
  simp

theorem lookup_isSome_of_mem (row : (key, value) ∈ table) : (table.lookup key).isSome = true :=
  List.lookup_isSome_iff.mpr ⟨_, row, beq_self_eq_true key⟩

theorem lookup_eq_some_of_mem (row : (key, value) ∈ table)
    (only : ∀ other, (key, other) ∈ table → other = value) : table.lookup key = some value := by
  obtain ⟨other, found⟩ := Option.isSome_iff_exists.mp (lookup_isSome_of_mem row)
  rw [found, only other (mem_of_lookup_eq_some found)]

theorem map_fst_filterMap_lookup (keys : List String) (table : List (String × α)) :
    (keys.filterMap fun k => (table.lookup k).map (k, ·)).map Prod.fst =
      keys.filter fun k => (table.lookup k).isSome := by
  induction keys with
  | nil => rfl
  | cons k keys ih => cases found : table.lookup k <;> simp [found, ih]

end Lookup

namespace Matches

/-- Grouping by status loses no match in an active state and brings no other. -/
theorem mem_toList_ofList {ms : List Match} {m : Match} :
    m ∈ (ofList ms).toList ↔ m ∈ ms ∧ m.status ∈ Status.active := by
  simp [ofList, toList, Status.active]
  tauto

end Matches

namespace Listing

variable {key : Instant → Attempt Int} {base : Matches} {ctx : Context}
  {statuses entries : List (String × String)}

theorem entriesOf_eq_ok_iff : entriesOf key base ctx statuses = .ok entries ↔
    ∃ ids, arrange key (base.toList.map Match.dated)
        (ctx.pinned.filter fun id => (statuses.lookup id).isSome) ctx.excluded = .ok ids ∧
      labelled statuses ids = entries := by
  simp only [entriesOf, Attempt.bind_eq_ok_iff, Except.ok.injEq]

section Entered

variable (entered : entriesOf key base ctx statuses = .ok entries)
include entered

theorem lookup_of_mem_entriesOf {e : String × String} (entry : e ∈ entries) :
    statuses.lookup e.1 = some e.2 := by
  obtain ⟨ids, _, rfl⟩ := entriesOf_eq_ok_iff.mp entered
  obtain ⟨id, _, row⟩ := List.mem_filterMap.mp entry
  obtain ⟨status, found, rfl⟩ := Option.map_eq_some_iff.mp row
  exact found

theorem nodup_map_fst_entriesOf : (entries.map Prod.fst).Nodup := by
  obtain ⟨ids, arranged, rfl⟩ := entriesOf_eq_ok_iff.mp entered
  rw [labelled, map_fst_filterMap_lookup]
  exact (nodup_of_arrange_eq_ok arranged).filter _

theorem mem_map_fst_entriesOf {id : String} : id ∈ entries.map Prod.fst ↔
    (id ∈ ctx.pinned ∨ ∃ m ∈ base.toList, m.id = id) ∧ id ∉ ctx.excluded ∧
      (statuses.lookup id).isSome = true := by
  obtain ⟨ids, arranged, rfl⟩ := entriesOf_eq_ok_iff.mp entered
  rw [labelled, map_fst_filterMap_lookup, List.mem_filter, mem_of_arrange_eq_ok arranged]
  simp only [List.mem_filter, List.mem_map, exists_exists_and_eq_and, Match.dated]
  tauto

theorem map_fst_entriesOf_eq_append : ∃ rest, entries.map Prod.fst =
      (distinct ctx.pinned).filter (fun id => decide (id ∈ entries.map Prod.fst)) ++ rest ∧
    ∀ id ∈ rest, id ∉ ctx.pinned := by
  have kept : ∀ id ∈ distinct ctx.pinned, decide (id ∈ entries.map Prod.fst) =
      ((statuses.lookup id).isSome && !ctx.excluded.contains id) := by
    intro id pin
    rw [Bool.eq_iff_iff, decide_eq_true_iff, mem_map_fst_entriesOf entered]
    simp [mem_distinct.mp pin, and_comm]
  obtain ⟨ids, arranged, rfl⟩ := entriesOf_eq_ok_iff.mp entered
  obtain ⟨rest, parts, later⟩ := eq_append_of_arrange_eq_ok arranged
  refine ⟨rest.filter fun id => (statuses.lookup id).isSome, ?_, fun id member pin => ?_⟩
  · rw [List.filter_congr kept, labelled, map_fst_filterMap_lookup, parts, List.filter_append,
      distinct_filter, List.filter_filter, List.filter_filter]
    simp only [Bool.and_comm, Bool.and_left_comm, Bool.and_self]
  · obtain ⟨among, known⟩ := List.mem_filter.mp member
    exact later id among (List.mem_filter.mpr ⟨pin, known⟩)

end Entered

end Listing

namespace Counts

theorem matched_ofStatuses {statuses : List String} (active : ∀ t ∈ statuses, t ∈ Status.active) :
    (ofStatuses statuses).matched = (ofStatuses statuses).published +
      (ofStatuses statuses).pending + (ofStatuses statuses).draft := by
  induction statuses with
  | nil => rfl
  | cons t ts ih =>
    have rest := ih fun u member => active u (List.mem_cons_of_mem _ member)
    have first := active t List.mem_cons_self
    simp only [Status.active, List.mem_cons, List.not_mem_nil, or_false] at first
    simp only [ofStatuses, List.length_cons, List.count_cons] at rest ⊢
    rcases first with rfl | rfl | rfl <;>
      simp [Status.published, Status.pending, Status.draft] at rest ⊢ <;> omega

end Counts

/-- The recipes that a collection is to list: active ones that match or are pinned, unless they are
excluded. -/
def Context.Admits (ctx : Context) (c : Catalog) (p : Predicate) (x : Recipe) : Prop :=
  x.IsActive ∧ (p.holds c x = true ∨ x.id ∈ ctx.pinned) ∧ x.id ∉ ctx.excluded

namespace Store

variable {s : Store} {p : Predicate} {ctx : Context} {base : Matches}
  {more : List (String × String)}

theorem mem_of_evaluate_eq_ok {excluded : List String}
    (finite : ∀ n ∈ p.numbers, n.isFinite = true)
    (evaluated : s.evaluate p excluded = .ok base) {m : Match} :
    m ∈ base.toList ↔ ∃ x ∈ s.catalog.recipes,
      x.IsActive ∧ p.holds s.catalog x = true ∧ x.id ∉ excluded ∧ x.toMatch = m := by
  obtain ⟨ms, listed, rfl⟩ := Attempt.map_eq_ok_iff.mp evaluated
  have finite : ∀ n ∈ (p.without excluded).numbers, n.isFinite = true :=
    fun n number => finite n (Predicate.numbers_without_subset p excluded number)
  rw [Matches.mem_toList_ofList, eq_of_listMatches_eq_ok finite listed]
  simp only [List.mem_map, mem_matching, Predicate.holds_without, Bool.and_eq_true,
    Bool.not_eq_true', List.contains_eq_mem, decide_eq_false_iff_not]
  constructor
  · rintro ⟨⟨x, ⟨row, active, holds, wanted⟩, rfl⟩, _⟩
    exact ⟨x, row, active, holds, wanted, rfl⟩
  · rintro ⟨x, row, active, holds, wanted, rfl⟩
    exact ⟨⟨x, ⟨row, active, holds, wanted⟩, rfl⟩, active⟩

theorem mem_of_statusOf_eq_ok {ids : List String} {statuses : List (String × String)}
    (found : s.statusOf ids = .ok statuses) {e : String × String} :
    e ∈ statuses ↔ ∃ x ∈ s.catalog.recipes, x.id ∈ ids ∧ (x.id, x.status) = e := by
  unfold statusOf at found
  split at found
  next nothing =>
    cases found
    simp [List.isEmpty_iff.mp nothing]
  next =>
    rw [eq_of_serve_eq_ok found]
    simp [and_assoc]

theorem mem_of_pinnedStatuses_eq_ok {ids : List String}
    (settled : s.pinnedStatuses ids = .ok more) {e : String × String} :
    e ∈ more ↔ ∃ x ∈ s.catalog.recipes, x.IsActive ∧ x.id ∈ ids ∧ (x.id, x.status) = e := by
  obtain ⟨statuses, found, kept⟩ := Attempt.bind_eq_ok_iff.mp settled
  obtain rfl := Except.ok.inj kept
  simp only [List.mem_filter, mem_of_statusOf_eq_ok found, List.contains_iff_mem]
  constructor
  · rintro ⟨⟨x, row, asked, rfl⟩, active⟩
    exact ⟨x, row, active, asked, rfl⟩
  · rintro ⟨x, row, active, asked, rfl⟩
    exact ⟨⟨x, row, asked, rfl⟩, active⟩

/-- Matches and unmatched pins together are the admitted recipes. -/
theorem mem_statuses_append (keyed : s.catalog.Keyed) (finite : ∀ n ∈ p.numbers, n.isFinite = true)
    (evaluated : s.evaluate p ctx.excluded = .ok base)
    (settled : s.pinnedStatuses (base.unmatchedPins ctx) = .ok more) {e : String × String} :
    e ∈ base.statuses ++ more ↔
      ∃ x ∈ s.catalog.recipes, ctx.Admits s.catalog p x ∧ (x.id, x.status) = e := by
  have matched : ∀ {e}, e ∈ base.statuses ↔ ∃ x ∈ s.catalog.recipes,
      x.IsActive ∧ p.holds s.catalog x = true ∧ x.id ∉ ctx.excluded ∧ (x.id, x.status) = e := by
    intro e
    simp only [Matches.statuses, List.mem_map, mem_of_evaluate_eq_ok finite evaluated]
    constructor
    · rintro ⟨_, ⟨x, row, active, holds, wanted, rfl⟩, rfl⟩
      exact ⟨x, row, active, holds, wanted, rfl⟩
    · rintro ⟨x, row, active, holds, wanted, rfl⟩
      exact ⟨_, ⟨x, row, active, holds, wanted, rfl⟩, rfl⟩
  rw [List.mem_append, matched, mem_of_pinnedStatuses_eq_ok settled]
  constructor
  · rintro (⟨x, row, active, holds, wanted, same⟩ | ⟨x, row, active, pin, same⟩)
    · exact ⟨x, row, ⟨active, .inl holds, wanted⟩, same⟩
    · simp only [Matches.unmatchedPins, List.mem_filter, Bool.and_eq_true, Bool.not_eq_true',
        List.contains_eq_mem, decide_eq_false_iff_not] at pin
      exact ⟨x, row, ⟨active, .inr pin.1, pin.2.2⟩, same⟩
  · rintro ⟨x, row, ⟨active, reason, wanted⟩, same⟩
    by_cases holds : p.holds s.catalog x = true
    · exact .inl ⟨x, row, active, holds, wanted, same⟩
    have pin : x.id ∈ ctx.pinned := reason.resolve_left holds
    -- Another row with this id would be a match under the same id.
    have unmatched : base.statuses.lookup x.id = none := by
      rw [Option.eq_none_iff_forall_ne_some]
      intro status found
      obtain ⟨y, other, _, holds', _, equal⟩ := matched.mp (mem_of_lookup_eq_some found)
      exact holds (keyed.eq_of_id other row (congrArg Prod.fst equal) ▸ holds')
    refine .inr ⟨x, row, active, ?_, same⟩
    simp [Matches.unmatchedPins, pin, unmatched, wanted]

theorem lookup_statuses_append (keyed : s.catalog.Keyed)
    (finite : ∀ n ∈ p.numbers, n.isFinite = true)
    (evaluated : s.evaluate p ctx.excluded = .ok base)
    (settled : s.pinnedStatuses (base.unmatchedPins ctx) = .ok more) {id status : String} :
    (base.statuses ++ more).lookup id = some status ↔
      ∃ x ∈ s.catalog.recipes, ctx.Admits s.catalog p x ∧ x.id = id ∧ x.status = status := by
  have admitted := fun e => @mem_statuses_append s p ctx base more keyed finite evaluated settled e
  simp only [← Prod.mk.injEq]
  constructor
  · exact fun found => (admitted _).mp (mem_of_lookup_eq_some found)
  · rintro ⟨x, row, admits, same⟩
    cases same
    refine lookup_eq_some_of_mem ((admitted _).mpr ⟨x, row, admits, rfl⟩) fun other found => ?_
    obtain ⟨y, among, _, equal⟩ := (admitted _).mp found
    have one : y = x := keyed.eq_of_id among row (congrArg Prod.fst equal)
    exact (congrArg Prod.snd equal).symm.trans (congrArg Recipe.status one)

/-- A listing is answered if everything that it is put together from is. -/
theorem listing_eq_ok_iff {s : Store} {r : Rule} {ctx : Context} {l : Listing} :
    s.listing r ctx = .ok l ↔ ∃ unresolved base more entries,
      s.checkReferences (fun k => (r.predicate ctx.links).references k) = .ok unresolved ∧
      s.evaluate (r.predicate ctx.links) ctx.excluded = .ok base ∧
      s.pinnedStatuses (base.unmatchedPins ctx) = .ok more ∧
      Listing.entriesOf s.catalog.zone.key? base ctx (base.statuses ++ more) = .ok entries ∧
      ⟨entries, .ofStatuses (entries.map Prod.snd), r.warnings ctx.links ++ unresolved,
        r.predicate ctx.links⟩ = l := by
  simp only [listing, Attempt.bind_eq_ok_iff, Except.ok.injEq, exists_and_left]

/-- A listing that is answered has each admitted recipe once and nothing else, every entry with the
status of its recipe.  The pinned recipes among them come first in the order in which they were
first pinned, and every entry is counted under its status. -/
theorem listing_exact {s : Store} {r : Rule} {ctx : Context} {l : Listing}
    (keyed : s.catalog.Keyed) (listed : s.listing r ctx = .ok l) :
    l.ids.Nodup ∧
    (∀ id, id ∈ l.ids ↔
      ∃ x ∈ s.catalog.recipes, x.id = id ∧ ctx.Admits s.catalog (r.predicate ctx.links) x) ∧
    (∀ e ∈ l.entries, ∀ x ∈ s.catalog.recipes, x.id = e.1 → x.status = e.2) ∧
    (∃ rest, l.ids = (distinct ctx.pinned).filter (fun id => decide (id ∈ l.ids)) ++ rest ∧
      ∀ id ∈ rest, id ∉ ctx.pinned) ∧
    l.counts.matched = l.entries.length ∧
    l.counts.matched = l.counts.published + l.counts.pending + l.counts.draft ∧
    l.counts.published = l.entries.countP (·.2 == Status.published) ∧
    l.counts.pending = l.entries.countP (·.2 == Status.pending) ∧
    l.counts.draft = l.entries.countP (·.2 == Status.draft) := by
  obtain ⟨unresolved, base, more, entries, _, evaluated, settled, entered, rfl⟩ :=
    listing_eq_ok_iff.mp listed
  have finite := r.isFinite_predicate ctx.links
  have status := fun id t =>
    @lookup_statuses_append s _ ctx base more keyed finite evaluated settled id t
  refine ⟨Listing.nodup_map_fst_entriesOf entered, fun id => ?_, fun e entry x row same => ?_,
    Listing.map_fst_entriesOf_eq_append entered, ?_, ?_, ?_, ?_, ?_⟩
  · rw [Listing.ids, Listing.mem_map_fst_entriesOf entered, Option.isSome_iff_exists]
    constructor
    · rintro ⟨_, _, t, known⟩
      obtain ⟨x, row, admits, rfl, _⟩ := (status id t).mp known
      exact ⟨x, row, rfl, admits⟩
    · rintro ⟨x, row, rfl, admits⟩
      obtain ⟨active, reason, wanted⟩ := admits
      refine ⟨reason.symm.imp_right fun holds => ?_, wanted,
        x.status, (status x.id x.status).mpr ⟨x, row, ⟨active, reason, wanted⟩, rfl, rfl⟩⟩
      exact ⟨x.toMatch, (mem_of_evaluate_eq_ok finite evaluated).mpr
        ⟨x, row, active, holds, wanted, rfl⟩, rfl⟩
  · obtain ⟨y, among, _, key, known⟩ :=
      (status e.1 e.2).mp (Listing.lookup_of_mem_entriesOf entered entry)
    exact keyed.eq_of_id row among (same.trans key.symm) ▸ known
  · simp [Counts.ofStatuses]
  · refine Counts.matched_ofStatuses fun t member => ?_
    obtain ⟨e, entry, rfl⟩ := List.mem_map.mp member
    obtain ⟨x, _, admits, _, known⟩ :=
      (status e.1 e.2).mp (Listing.lookup_of_mem_entriesOf entered entry)
    exact known ▸ admits.1
  · simp [Counts.ofStatuses, List.count, List.countP_map, Function.comp_def]
  · simp [Counts.ofStatuses, List.count, List.countP_map, Function.comp_def]
  · simp [Counts.ofStatuses, List.count, List.countP_map, Function.comp_def]

/-- One recipe matches; those that are pinned or excluded overlap with the others in every way. -/
def pantry : Store :=
  ⟨⟨.utc, [], [], [], [{ Recipe.bare "a" Status.published with cuisineId := some "it" },
    Recipe.bare "b" Status.pending, Recipe.bare "c" Status.draft, Recipe.bare "d" Status.archived,
    { Recipe.bare "e" Status.published with cuisineId := some "it" }]⟩, none⟩

def italian : Rule :=
  .custom [⟨none, [⟨some "cuisineId", some "eq", .str "it", none⟩]⟩] []

def pantryPins : Context := ⟨.unlinked, ["c", "b", "gone", "c", "d", "e"], ["e"]⟩

def pantryListing : Listing where
  entries := [("c", Status.draft), ("b", Status.pending), ("a", Status.published)]
  counts := ⟨3, 1, 1, 1⟩
  warnings := [Listing.unresolved .cuisine "it"]
  predicate := .relation .cuisine .eq ["it"]

theorem listing_exact_pantry :
    pantry.catalog.Keyed ∧ pantry.listing italian pantryPins = .ok pantryListing ∧
      ∀ id, id ∈ pantryListing.ids ↔ ∃ x ∈ pantry.catalog.recipes, x.id = id ∧
        pantryPins.Admits pantry.catalog (italian.predicate pantryPins.links) x := by
  have keyed : pantry.catalog.Keyed := by decide
  have listed : pantry.listing italian pantryPins = .ok pantryListing := by decide +kernel
  exact ⟨keyed, listed, (listing_exact keyed listed).2.1⟩

end Store

end Cookbook
