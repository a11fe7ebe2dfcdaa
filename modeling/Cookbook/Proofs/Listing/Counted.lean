import Cookbook.Proofs.Listing.Newest
import Cookbook.Proofs.Query.Simplified

/-!
# Counting and listing

Matches are counted by a query of their own, which groups the rows of every status and picks three
of the groups, while the list asks for three statuses and is divided afterwards.  Both ask the same
of a row, so the numbers are the sizes of the lists.  Exclusion becomes a part of the predicate and
may disappear in it, but selects the rows that would be left if it were made in the list.
-/

namespace Cookbook

namespace Matches

/-- Each status with the matches that are in it. -/
def byStatus (m : Matches) : List (String × List Match) :=
  [(Status.published, m.published), (Status.pending, m.pending), (Status.draft, m.draft)]

def sizes (m : Matches) : Counts where
  matched := (m.published.length + m.pending.length + m.draft.length : Nat)
  published := m.published.length
  pending := m.pending.length
  draft := m.draft.length

def apartFrom (m : Matches) (excluded : List String) : Matches where
  published := m.published.filter (·.id ∉ excluded)
  pending := m.pending.filter (·.id ∉ excluded)
  draft := m.draft.filter (·.id ∉ excluded)

variable {ms : List Match}

theorem byStatus_ofList (ms : List Match) : (ofList ms).byStatus =
    Status.active.map fun t => (t, ms.filter (·.status == t)) := rfl

theorem sizes_ofList (active : ∀ m ∈ ms, m.status ∈ Status.active) :
    (ofList ms).sizes = .ofStatuses (ms.map Match.status) := by
  have number (t : String) :
      (ms.filter (·.status == t)).length = (ms.map Match.status).count t := by
    rw [← List.countP_eq_length_filter, List.count, List.countP_map]
    rfl
  have states : ∀ t ∈ ms.map Match.status, t ∈ Status.active := List.forall_mem_map.mpr active
  have sum := Counts.matched_ofStatuses states
  simp only [Counts.ofStatuses] at sum
  simp only [sizes, ofList, number, Counts.ofStatuses, Counts.mk.injEq, and_true]
  omega

theorem ofList_filter (ms : List Match) (excluded : List String) :
    ofList (ms.filter (·.id ∉ excluded)) = (ofList ms).apartFrom excluded := by
  simp only [ofList, apartFrom, List.filter_filter, Bool.and_comm]

end Matches

namespace Listing

variable {key : Instant → Attempt Int} {base : Matches} {ctx : Context}
  {entries : List (String × String)}

/-- Among the matches alone a pin only moves an entry. -/
theorem perm_entriesOf_statuses (once : (base.toList.map Match.id).Nodup)
    (wanted : ∀ m ∈ base.toList, m.id ∉ ctx.excluded)
    (entered : entriesOf key base ctx base.statuses = .ok entries) :
    entries.Perm base.statuses := by
  have keys : base.statuses.map Prod.fst = base.toList.map Match.id := by
    rw [Matches.statuses, List.map_map]
    rfl
  have unique : (base.statuses.map Prod.fst).Nodup := keys ▸ once
  have entriesOnce := (nodup_map_fst_entriesOf entered).of_map
  refine (List.perm_ext_iff_of_nodup entriesOnce unique.of_map).mpr ?_
  rintro ⟨id, t⟩
  constructor
  · intro entry
    exact mem_of_lookup_eq_some (lookup_of_mem_entriesOf entered entry)
  · intro row
    obtain ⟨m, among, same⟩ := List.mem_map.mp row
    obtain rfl : m.id = id := congrArg Prod.fst same
    obtain ⟨⟨id, u⟩, entry, same⟩ := List.mem_map.mp ((mem_map_fst_entriesOf entered).mpr
      ⟨.inr ⟨m, among, rfl⟩, wanted m among, lookup_isSome_of_mem row⟩)
    obtain rfl : id = m.id := same
    have known := mem_of_lookup_eq_some (lookup_of_mem_entriesOf entered entry)
    obtain rfl : u = t :=
      congrArg Prod.snd (List.inj_on_of_nodup_map unique known row rfl)
    exact entry

end Listing

namespace Store

variable {s : Store} {p : Predicate}

/-- Excluding in the predicate is excluding from the list. -/
theorem found_without (s : Store) (p : Predicate) (excluded : List String) :
    s.found (p.without excluded) = (s.found p).filter (·.id ∉ excluded) := by
  have rows : s.matching (p.without excluded) =
      (s.matching p).filter fun x => decide (x.id ∉ excluded) := by
    simp only [matching, List.filter_filter]
    refine List.filter_congr fun x _ => ?_
    rw [Predicate.holds_without, ← Bool.and_assoc, Bool.and_comm (decide _) (_ && _)]
    simp [Bool.and_assoc]
  rw [found, rows, found, List.filter_map]
  rfl

section Finite

variable (finite : ∀ n ∈ p.numbers, n.isFinite = true)
include finite

theorem listMatches_eq_serve : s.listMatches p [] =
    s.serve .listMatches (p.parameters ++ Status.active.map .text) (s.found p) := by
  rw [listMatches, s.catalog.select_eq_filter finite]
  rfl

theorem count_eq_serve (status : String) : s.count p (some status) =
    s.serve .count (p.parameters ++ [.text status])
      ((s.catalog.recipes.filter (p.holds s.catalog)).filter (·.status == status)).length := by
  rw [count, s.catalog.select_eq_filter finite]
  rfl

theorem countByStatus_eq_serve : (s.countByStatus p).map Counts.ofTable =
    s.serve .countByStatus p.parameters (.ofStatuses ((s.found p).map Match.status)) := by
  rw [countByStatus, query, List.map_nil, List.append_nil, s.catalog.select_eq_filter finite,
    map_serve, Counts.ofTable_counts, List.filter_map, found, matching, List.map_map]
  congr 4
  funext x
  simp

theorem finite_without (excluded : List String) :
    ∀ n ∈ (p.without excluded).numbers, n.isFinite = true :=
  fun n number => finite n (p.numbers_without_subset excluded number)

theorem evaluate_eq_serve (excluded : List String) : s.evaluate p excluded =
    s.serve .listMatches ((p.without excluded).parameters ++ Status.active.map .text)
      (.ofList (s.found (p.without excluded))) := by
  rw [evaluate, listMatches_eq_serve (finite_without finite excluded), map_serve]

/-- Every status of the list has a number of its own. -/
theorem count_of_mem_byStatus {t : String} {ms : List Match}
    (part : (t, ms) ∈ (Matches.ofList (s.found p)).byStatus) :
    s.count p (some t) = s.serve .count (p.parameters ++ [.text t]) ms.length ∧
      ∀ m ∈ ms, m.status = t := by
  rw [Matches.byStatus_ofList] at part
  obtain ⟨t, active, rfl, rfl⟩ : ∃ u ∈ Status.active, u = t ∧
      (s.found p).filter (·.status == u) = ms := by
    obtain ⟨u, active, same⟩ := List.mem_map.mp part
    exact ⟨u, active, (Prod.mk.inj same).1, (Prod.mk.inj same).2⟩
  constructor
  · have rows : (s.matching p).filter (·.status == t) =
        (s.catalog.recipes.filter (p.holds s.catalog)).filter (·.status == t) := by
      rw [matching, List.filter_filter]
      refine List.filter_congr fun x _ => ?_
      by_cases same : x.status = t
      · simp [same, active]
      · simp [same]
    rw [count_eq_serve finite, ← rows, found, List.filter_map, List.length_map]
    rfl
  · intro m member
    simpa using (List.mem_filter.mp member).2

end Finite

/-- Excluding in the query selects what is left when the list of all matches is gone through, as far
as the query hands no values over that are refused. -/
theorem evaluate_eq_apartFrom (words : ∀ n ∈ p.numbers, n.isFinite = true ∧ n.FitsWord)
    {excluded : List String} (texts : ∀ t ∈ p.texts ++ excluded, s.refusal (.text t) = none) :
    s.evaluate p excluded = (s.evaluate p []).map (·.apartFrom excluded) := by
  have finite := fun n number => (words n number).1
  have taken (ids : List String) (some : ids ⊆ excluded) : s.evaluate p ids =
      s.serve .listMatches (Status.active.map .text) (.ofList (s.found (p.without ids))) := by
    rw [evaluate_eq_serve finite]
    refine query_eq_serve s _ _ _ (fun n number => (words n ?_).2) fun t text => texts t ?_
    · exact p.numbers_without_subset ids number
    · rcases List.mem_append.mp (p.texts_without_subset ids text) with own | out
      · exact List.mem_append_left _ own
      · exact List.mem_append_right _ (some out)
  have whole : s.found (p.without []) = s.found p := by simp [found_without]
  rw [taken excluded (List.Subset.refl _), taken [] (List.nil_subset _), map_serve, whole,
    found_without, Matches.ofList_filter]

/-- Counting agrees with listing: the counts that one query finds are the sizes of the three lists,
and the counts of the listing that has no pins.  A status by itself has as many rows as its list,
where every match has this status, and no match is in two lists or twice in one.  What is excluded
in the query is what leaves the lists of all matches.  Whichever operation is out of service fails
by itself, and the others answer the same; so does a query that has a text which the database
refuses, and only such a text can tell excluding in the query from excluding in the list. -/
theorem counting_agrees (keyed : s.catalog.Keyed)
    (words : ∀ n ∈ p.numbers, n.isFinite = true ∧ n.FitsWord) (excluded : List String) :
    ∃ base : Matches,
      s.evaluate p excluded =
        s.serve .listMatches ((p.without excluded).parameters ++ Status.active.map .text) base ∧
      s.matchCounts p excluded =
        s.serve .countByStatus (p.without excluded).parameters base.sizes ∧
      (∀ links key entries,
        Listing.entriesOf key base ⟨links, [], excluded⟩ base.statuses = .ok entries →
          Counts.ofStatuses (entries.map Prod.snd) = base.sizes) ∧
      (∀ t ms, (t, ms) ∈ base.byStatus →
        s.count (p.without excluded) (some t) =
            s.serve .count ((p.without excluded).parameters ++ [.text t]) ms.length ∧
          ∀ m ∈ ms, m.status = t) ∧
      (∀ m, m ∈ base.toList ↔ ∃ x ∈ s.catalog.recipes,
        x.IsActive ∧ p.holds s.catalog x = true ∧ x.id ∉ excluded ∧ x.toMatch = m) ∧
      (base.toList.map Match.id).Nodup ∧
      ((∀ t ∈ p.texts ++ excluded, s.refusal (.text t) = none) →
        s.evaluate p excluded = (s.evaluate p []).map (·.apartFrom excluded)) := by
  have finite := fun n number => (words n number).1
  have sizes := Matches.sizes_ofList (active_of_mem_found (s := s) (p := p.without excluded))
  have perm := Matches.perm_toList_ofList
    (active_of_mem_found (s := s) (p := p.without excluded))
  have once : ((Matches.ofList (s.found (p.without excluded))).toList.map Match.id).Nodup :=
    (perm.map Match.id).nodup_iff.mpr (nodup_matching_ids keyed _)
  have members (m : Match) : m ∈ (Matches.ofList (s.found (p.without excluded))).toList ↔
      ∃ x ∈ s.catalog.recipes,
        x.IsActive ∧ p.holds s.catalog x = true ∧ x.id ∉ excluded ∧ x.toMatch = m := by
    rw [perm.mem_iff, found]
    simp only [List.mem_map, mem_matching, Predicate.holds_without, Bool.and_eq_true,
      Bool.not_eq_true', List.contains_eq_mem, decide_eq_false_iff_not, and_assoc]
  refine ⟨.ofList (s.found (p.without excluded)), evaluate_eq_serve finite excluded, ?_, ?_,
    fun t ms part => count_of_mem_byStatus (finite_without finite excluded) part, members, once,
    evaluate_eq_apartFrom words⟩
  · rw [matchCounts, countByStatus_eq_serve (finite_without finite excluded), sizes]
  · intro links key entries entered
    have wanted : ∀ m ∈ (Matches.ofList (s.found (p.without excluded))).toList,
        m.id ∉ excluded := by
      intro m member
      obtain ⟨x, _, _, _, wanted, rfl⟩ := (members m).mp member
      exact wanted
    have entries := Listing.perm_entriesOf_statuses once wanted entered
    rw [Counts.ofStatuses_perm (entries.map Prod.snd), sizes, Matches.statuses, List.map_map]
    exact Counts.ofStatuses_perm (perm.map Match.status)

/-- Recipes in every state, and in one that is unknown. -/
def cellar : Store :=
  ⟨⟨.utc, [], [], [], [Recipe.bare "a" Status.published, Recipe.bare "b" Status.draft,
    Recipe.bare "c" Status.archived, Recipe.bare "d" Status.published, Recipe.bare "e" "lost",
    Recipe.bare "f" Status.pending]⟩, none⟩

/-- A constant, a number and an id check that is denied twice. -/
def cellarQuery : Predicate :=
  .and [.or [.none, .not (.not (.not (.ids ["f"])))], .numeric .cookTime .neq (.int 5), .all]

theorem counting_agrees_cellar :
    (cellar.catalog.Keyed ∧ ∀ n ∈ cellarQuery.numbers, n.isFinite = true ∧ n.FitsWord) ∧
      ∃ base : Matches, cellar.evaluate cellarQuery ["d", "gone", "d"] = .ok base ∧
        base.sizes = ⟨2, 1, 0, 1⟩ ∧
        cellar.matchCounts cellarQuery ["d", "gone", "d"] = .ok ⟨2, 1, 0, 1⟩ := by
  have keyed : cellar.catalog.Keyed := by decide
  have words : ∀ n ∈ cellarQuery.numbers, n.isFinite = true ∧ n.FitsWord := by decide
  obtain ⟨base, listed, counted, _⟩ := counting_agrees keyed words ["d", "gone", "d"]
  have unwanted : sortedSet ["d", "gone", "d"] = ["d", "gone"] := by
    simp [sortedSet, List.mergeSort, List.MergeSort.Internal.splitInTwo, distinct]
  have found : cellar.evaluate cellarQuery ["d", "gone", "d"] =
      .ok ⟨[(Recipe.bare "a" Status.published).toMatch], [],
        [(Recipe.bare "b" Status.draft).toMatch]⟩ := by
    rw [evaluate, Predicate.without, unwanted]
    decide +kernel
  obtain ⟨_, taken, rfl⟩ := serve_eq_ok_iff.mp (listed.symm.trans found)
  refine ⟨⟨keyed, words⟩, _, found, rfl, counted.trans (serve_eq_ok_iff.mpr ⟨by decide, ?_, rfl⟩)⟩
  exact fun v value => taken v (List.mem_append_left _ value)

end Store

end Cookbook
