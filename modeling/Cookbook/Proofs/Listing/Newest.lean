import Cookbook.Proofs.Listing.Answered
import Cookbook.Proofs.Listing.Exact
import Cookbook.Proofs.Listing.Merged
import Cookbook.Proofs.Listing.Recent
import Cookbook.Proofs.Zone
import Mathlib.Data.List.Sort

/-!
# Newest first, as far as the numbers of times tell

A list is sorted by the numbers of times, a query by the times themselves.  The two orders are one
where a later time has the greater number.  Where clocks are never changed it has no smaller one,
and within `2 ^ 33` seconds of the start of 1970 a greater one.  Farther away close times have one
number, and a list then has their recipes in the order of the ids, where a query has the later one
first; and where clocks are put forward a time that they skip has a greater number than later ones.
-/

namespace Cookbook

namespace Recipe

variable {key : Instant → Attempt Int} {x y : Recipe}

def dated (x : Recipe) : Dated := ⟨x.id, some x.createdAt⟩

/-- The recipe with the number of its time, if it has one. -/
def ranked (key : Instant → Attempt Int) (x : Recipe) : Ranked :=
  ⟨x.id, (key x.createdAt).toOption⟩

theorem ranked_of_eq_ok {k : Int} (number : key x.createdAt = .ok k) :
    x.ranked key = ⟨x.id, some k⟩ := by
  rw [ranked, number]
  rfl

theorem dated_ranked_of_eq_ok {k : Int} (number : key x.createdAt = .ok k) :
    x.dated.ranked key = .ok (x.ranked key) := by
  rw [ranked_of_eq_ok number]
  exact Attempt.map_eq_ok_iff.mpr ⟨k, number, rfl⟩

theorem precedes_iff_of_eq_ok {k l : Int} (number : key x.createdAt = .ok k)
    (number' : key y.createdAt = .ok l) :
    (x.ranked key).Precedes (y.ranked key) ↔ l < k ∨ k = l ∧ x.id < y.id := by
  rw [ranked_of_eq_ok number, ranked_of_eq_ok number']
  rfl

theorem precedes_asymm (precedes : (x.ranked key).Precedes (y.ranked key)) :
    ¬ (y.ranked key).Precedes (x.ranked key) := by
  intro back
  exact (Ranked.before_total _ _).elim (Ranked.precedes_iff_not_before.mp back)
    (Ranked.precedes_iff_not_before.mp precedes)

instance : Std.Antisymm fun x y : Recipe => (x.ranked key).Precedes (y.ranked key) :=
  ⟨fun _ _ precedes back => absurd back (precedes_asymm precedes)⟩

/-- Of two recipes of one time the query has the lower id first, and so has a list. -/
theorem precedes_of_newerFirst (newer : x.newerFirst y = true) (other : x.id ≠ y.id)
    (told : y.createdAt < x.createdAt → (x.ranked key).Precedes (y.ranked key)) :
    (x.ranked key).Precedes (y.ranked key) := by
  rcases newerFirst_iff.mp newer with later | ⟨same, le⟩
  · exact told later
  · have equal : (x.ranked key).key = (y.ranked key).key := by
      rw [ranked, ranked, same]
    exact Ranked.precedes_of_lt equal
      (String.not_le.mp fun back => other (String.le_antisymm le back))

section Steady

variable {z : Zone} (steady : z.changes = []) (number : ∃ k, z.key? x.createdAt = .ok k)
  (number' : ∃ k, z.key? y.createdAt = .ok k)
include steady number number'

/-- Where clocks are never changed, only one number for two times can put the later one behind. -/
theorem precedes_iff_of_steady (later : y.createdAt < x.createdAt) :
    x.dated.Precedes z.key? y.dated ↔
      (z.key? x.createdAt = z.key? y.createdAt → x.id < y.id) := by
  obtain ⟨k, number⟩ := number
  obtain ⟨l, number'⟩ := number'
  have le : l ≤ k := by
    rw [Instant.place_of_steady steady number, Instant.place_of_steady steady number']
    exact Instant.place_le_of_le (Int.add_le_add_right (Int.le_of_lt later) _)
  rw [Dated.precedes_iff (dated_ranked_of_eq_ok number) (dated_ranked_of_eq_ok number'),
    precedes_iff_of_eq_ok number number', number, number', Except.ok.injEq]
  constructor
  · rintro (less | ⟨_, lower⟩) tied
    · exact absurd tied less.ne'
    · exact lower
  · intro lower
    exact le.lt_or_eq.imp_right fun tied => ⟨tied.symm, lower tied.symm⟩

theorem precedes_of_gap {j : Nat} (few : j ≤ 5)
    (near : (x.createdAt.addSeconds (-z.offset)).Within (2 ^ (33 + j)))
    (near' : (y.createdAt.addSeconds (-z.offset)).Within (2 ^ (33 + j)))
    (gap : y.createdAt.addMicros (2 ^ j) ≤ x.createdAt) : x.dated.Precedes z.key? y.dated := by
  obtain ⟨k, number⟩ := number
  obtain ⟨l, number'⟩ := number'
  refine ⟨k, l, number, number', .inl ?_⟩
  rw [Instant.place_of_steady steady number, Instant.place_of_steady steady number']
  refine Instant.place_lt_of_gap near' near few ?_
  have gap : y.createdAt.micros + 2 ^ j ≤ x.createdAt.micros := gap
  change y.createdAt.micros + _ + 2 ^ j ≤ x.createdAt.micros + _
  omega

end Steady

end Recipe

namespace Recipe

variable {key : Instant → Attempt Int} {rows : List Recipe} {x y : Recipe}

theorem pairwise_mergeSort_ranked (once : (rows.map id).Nodup) :
    (rows.mergeSort fun x y => (x.ranked key).before (y.ranked key)).Pairwise
      fun x y => (x.ranked key).Precedes (y.ranked key) := by
  have sorted : (rows.mergeSort fun x y => (x.ranked key).before (y.ranked key)).Pairwise
      fun x y => (x.ranked key).before (y.ranked key) = true := by
    apply pairwise_mergeSort_of_iff
    · exact Iff.rfl
    · exact Ranked.before_trans
    · exact fun x y => Ranked.before_total (x.ranked key) (y.ranked key)
  have apart : (rows.mergeSort fun x y => (x.ranked key).before (y.ranked key)).Pairwise
      fun x y => x.id ≠ y.id :=
    List.pairwise_map.mp (((List.mergeSort_perm _ _).map id).nodup_iff.mpr once)
  exact (sorted.and apart).imp fun ⟨before, other⟩ => Ranked.precedes_of_before before other

theorem pair_sublist_of_precedes
    (sorted : rows.Pairwise fun x y => (x.ranked key).Precedes (y.ranked key))
    (first : x ∈ rows) (second : y ∈ rows)
    (precedes : (x.ranked key).Precedes (y.ranked key)) :
    [x.id, y.id].Sublist (rows.map id) := by
  have other : x ≠ y := by
    rintro rfl
    exact precedes_asymm precedes precedes
  have pair : [x, y].Subperm rows :=
    List.subperm_of_subset (by simpa using other) (by simp [first, second])
  exact (List.sublist_of_subperm_of_pairwise pair (by simpa using precedes) sorted).map id

/-- The order of the query is the order of the numbers exactly where of two recipes the later one
precedes the other. -/
theorem mergeSort_ranked_eq_iff (once : (rows.map id).Nodup)
    (newer : rows.Pairwise fun x y => x.newerFirst y = true) :
    (rows.mergeSort fun x y => (x.ranked key).before (y.ranked key)) = rows ↔
      ∀ x ∈ rows, ∀ y ∈ rows, y.createdAt < x.createdAt →
        (x.ranked key).Precedes (y.ranked key) := by
  have sorted := @pairwise_mergeSort_ranked key rows once
  constructor
  · intro same
    rw [same] at sorted
    refine List.Pairwise.forall_of_forall_of_flip (fun x _ later => ?_)
      (sorted.imp fun {x y} precedes (_ : y.createdAt < x.createdAt) => precedes)
      (newer.imp fun {x y} newer later => ?_)
    · exact absurd later (Int.lt_irrefl _)
    · rcases newerFirst_iff.mp newer with earlier | ⟨same, _⟩
      · exact absurd later (Int.lt_asymm earlier)
      · exact absurd (same ▸ later) (Int.lt_irrefl _)
  · intro told
    have apart : rows.Pairwise fun x y => x.id ≠ y.id := List.pairwise_map.mp once
    refine List.Perm.eq_of_pairwise' sorted ?_ (List.mergeSort_perm _ _)
    exact (newer.and apart).imp_of_mem fun {x y} first second ⟨newer, other⟩ =>
      precedes_of_newerFirst newer other (told x first y second)

/-- Recipes are told apart by their ids, and so are the orders that they stand in. -/
theorem eq_of_map_id_eq {order : List Recipe} (once : (rows.map id).Nodup) (perm : order.Perm rows)
    (same : order.map id = rows.map id) : order = rows := by
  refine List.ext_getElem perm.length_eq fun i first second => ?_
  refine List.inj_on_of_nodup_map once (perm.mem_iff.mp (List.getElem_mem first))
    (List.getElem_mem second) ?_
  have reached := congrArg (fun ids : List String => ids[i]?) same
  simpa [first, second] using reached

end Recipe

namespace Matches

/-- Grouping by status only reorders matches in active states. -/
theorem perm_toList_ofList {ms : List Match} (active : ∀ m ∈ ms, m.status ∈ Status.active) :
    (ofList ms).toList.Perm ms := by
  induction ms with
  | nil => exact List.Perm.refl _
  | cons m ms ih =>
    have rest := ih fun n member => active n (List.mem_cons_of_mem m member)
    have first := active m List.mem_cons_self
    simp only [Status.active, List.mem_cons, List.not_mem_nil, or_false] at first
    rcases first with same | same | same
    · simpa [ofList, toList, same, Status.published, Status.pending, Status.draft] using rest
    · rw [toList, List.append_assoc] at rest
      have moved := List.perm_middle.trans (rest.cons m)
      simpa [ofList, toList, same, Status.published, Status.pending, Status.draft] using moved
    · have moved := List.perm_middle.trans (rest.cons m)
      simpa [ofList, toList, same, Status.published, Status.pending, Status.draft] using moved

end Matches

namespace Listing

variable {key : Instant → Attempt Int} {base : Matches} {ctx : Context}
  {more entries : List (String × String)}

/-- Where nothing is pinned the entries are the matches, sorted. -/
theorem map_fst_entriesOf_of_unpinned (unpinned : ctx.pinned = [])
    (once : (base.toList.map Match.id).Nodup) (wanted : ∀ m ∈ base.toList, m.id ∉ ctx.excluded)
    (entered : entriesOf key base ctx (base.statuses ++ more) = .ok entries) :
    ∃ matched, (base.toList.map Match.dated).mapM (Dated.ranked key) = .ok matched ∧
      entries.map Prod.fst = (matched.mergeSort Ranked.before).map Ranked.id := by
  obtain ⟨_, arranged, rfl⟩ := entriesOf_eq_ok_iff.mp entered
  obtain ⟨matched, ranked, rfl⟩ := arrange_eq_ok_iff.mp arranged
  refine ⟨matched, ranked, ?_⟩
  have names := Dated.map_id_eq_of_mapM_eq_ok ranked
  generalize sorted : (matched.mergeSort Ranked.before).map Ranked.id = ids
  have perm : ids.Perm (base.toList.map Match.id) := by
    rw [← sorted]
    refine ((List.mergeSort_perm _ _).map Ranked.id).trans (List.Perm.of_eq ?_)
    rw [names, List.map_map]
    rfl
  have known (id : String) (member : id ∈ ids) : id ∉ ctx.excluded ∧
      ((base.statuses ++ more).lookup id).isSome = true := by
    obtain ⟨m, among, rfl⟩ := List.mem_map.mp (perm.mem_iff.mp member)
    have row : (m.id, m.status) ∈ base.statuses ++ more :=
      List.mem_append_left more (List.mem_map.mpr ⟨m, among, rfl⟩)
    exact ⟨wanted m among, lookup_isSome_of_mem row⟩
  have kept : ids.filter (fun id => !ctx.excluded.contains id) = ids :=
    List.filter_eq_self.mpr fun id member => by simp [(known id member).1]
  rw [labelled, map_fst_filterMap_lookup, unpinned, List.filter_nil, merge, List.nil_append]
  rw [sorted, kept, distinct_eq_self (perm.nodup_iff.mpr once),
    List.filter_eq_self.mpr fun id member => (known id member).2]

end Listing

namespace Store

variable {s : Store} {p : Predicate} {r : Rule} {ctx : Context} {l : Listing}

/-- The query for a list has the same values as the one for matches, so it is answered too. -/
theorem list_created_eq_ok (finite : ∀ n ∈ p.numbers, n.isFinite = true) {ms : List Match}
    (matched : s.listMatches p [] = .ok ms) (serving : s.down ≠ some (.operation .list)) :
    s.list p (some Status.active) 0 none .created =
      .ok ((s.matching p).mergeSort Recipe.newerFirst) := by
  obtain ⟨_, taken, _⟩ := serve_eq_ok_iff.mp matched
  refine Attempt.bind_eq_ok_iff.mpr ⟨_, serve_eq_ok_iff.mpr ⟨serving, taken, rfl⟩, ?_⟩
  rw [if_pos (by decide), s.catalog.select_eq_filter finite]
  rfl

theorem perm_of_evaluate_eq_ok {excluded : List String} {base : Matches}
    (finite : ∀ n ∈ p.numbers, n.isFinite = true) (evaluated : s.evaluate p excluded = .ok base) :
    base.toList.Perm ((s.matching (p.without excluded)).map Recipe.toMatch) := by
  obtain ⟨ms, listed, rfl⟩ := Attempt.map_eq_ok_iff.mp evaluated
  have finite : ∀ n ∈ (p.without excluded).numbers, n.isFinite = true :=
    fun n number => finite n (Predicate.numbers_without_subset p excluded number)
  rw [eq_of_listMatches_eq_ok finite listed]
  refine Matches.perm_toList_ofList fun m member => ?_
  obtain ⟨x, found, rfl⟩ := List.mem_map.mp member
  exact (mem_matching.mp found).2.1

/-- A listing without pins has the recipes of the query, but in the order of their numbers. -/
theorem ids_of_listing_eq_ok (keyed : s.catalog.Keyed) (unpinned : ctx.pinned = [])
    (serving : s.down ≠ some (.operation .list)) (listed : s.listing r ctx = .ok l) :
    ∃ rows, s.list (l.predicate.without ctx.excluded) (some Status.active) 0 none .created =
        .ok rows ∧
      (rows.map Recipe.id).Nodup ∧
      rows.Pairwise (fun x y => x.newerFirst y = true) ∧
      (∀ x ∈ rows, ∃ k, s.catalog.zone.key? x.createdAt = .ok k) ∧
      l.ids = (rows.mergeSort fun x y => (x.ranked s.catalog.zone.key?).before
        (y.ranked s.catalog.zone.key?)).map Recipe.id := by
  obtain ⟨_, base, more, entries, _, evaluated, settled, entered, rfl⟩ :=
    listing_eq_ok_iff.mp listed
  have finite := r.isFinite_predicate ctx.links
  have perm := perm_of_evaluate_eq_ok finite evaluated
  obtain ⟨ms, matched, _⟩ := Attempt.map_eq_ok_iff.mp evaluated
  have once := nodup_matching_ids keyed ((r.predicate ctx.links).without ctx.excluded)
  have wanted : ∀ m ∈ base.toList, m.id ∉ ctx.excluded := by
    intro m member
    obtain ⟨x, _, _, _, wanted, rfl⟩ := (mem_of_evaluate_eq_ok finite evaluated).mp member
    exact wanted
  obtain ⟨rs, ranked, ids⟩ := Listing.map_fst_entriesOf_of_unpinned unpinned
    ((perm.map Match.id).nodup_iff.mpr once) wanted entered
  have queried := list_created_eq_ok (fun n number =>
    finite n (Predicate.numbers_without_subset _ ctx.excluded number)) matched serving
  generalize (r.predicate ctx.links).without ctx.excluded = p at *
  have dated : (base.toList.map Match.dated).Perm
      (((s.matching p).mergeSort Recipe.newerFirst).map Recipe.dated) := by
    refine (perm.map _).trans ?_
    rw [List.map_map]
    exact ((List.mergeSort_perm _ _).map Recipe.dated).symm
  obtain ⟨rs', ranked', perm'⟩ :=
    List.perm_comp_forall₂ dated.symm (Attempt.mapM_eq_ok_iff.mp ranked)
  have numbered : ∀ x ∈ (s.matching p).mergeSort Recipe.newerFirst,
      ∃ k, s.catalog.zone.key? x.createdAt = .ok k := by
    intro x row
    obtain ⟨r, _, number⟩ := Attempt.exists_of_mem (Attempt.mapM_eq_ok_iff.mpr ranked')
      (List.mem_map_of_mem row)
    exact Dated.exists_ranked_iff.mp ⟨r, number⟩ _ rfl
  refine ⟨_, queried, ?_, ?_, fun x row => ?_, ?_⟩
  · rw [List.map_map] at once
    exact ((List.mergeSort_perm _ _).map Recipe.id).nodup_iff.mpr once
  · apply pairwise_mergeSort_of_iff
    · exact Iff.rfl
    · exact Recipe.newerFirst_trans
    · exact Recipe.newerFirst_total
  · exact numbered x row
  · have numbers : rs' = (((s.matching p).mergeSort Recipe.newerFirst).map
        (Recipe.ranked s.catalog.zone.key?)) := by
      have pairs := Attempt.mapM_eq_ok_iff.mpr (List.forall₂_map_left_iff.mp ranked')
      refine Attempt.eq_map_of_mapM_eq_ok (fun x row r number => ?_) pairs
      obtain ⟨k, found⟩ := numbered x row
      exact Except.ok.inj (number.symm.trans (Recipe.dated_ranked_of_eq_ok found))
    rw [Listing.ids, ids, mergeSort_before_eq_of_perm perm'.symm, numbers,
      ← List.map_mergeSort (r := fun x y : Recipe => (x.ranked s.catalog.zone.key?).before
        (y.ranked s.catalog.zone.key?)) (fun _ _ _ _ => rfl), List.map_map]
    rfl

/-- Without pins a listing has the recipes that the query lists, each once, sorted by the numbers of
their times.  They stand in the order of the query exactly where of two recipes the later one has
the greater number, or the same number and the lower id.  Where clocks are never changed the later
one never has the smaller number, and a recipe that is later by `2 ^ j` microseconds stands first
within `2 ^ (33 + j)` seconds of 1970.  So the two orders are one within `2 ^ 33` seconds, and in
all years of four digits times count as different that are 32 microseconds apart. -/
theorem listing_newest_first (keyed : s.catalog.Keyed) (unpinned : ctx.pinned = [])
    (serving : s.down ≠ some (.operation .list)) (listed : s.listing r ctx = .ok l) :
    ∃ rows, s.list (l.predicate.without ctx.excluded) (some Status.active) 0 none .created =
        .ok rows ∧
      l.ids.Nodup ∧ l.ids.Perm (rows.map Recipe.id) ∧
      (∀ x ∈ rows, ∀ y ∈ rows, x.dated.Precedes s.catalog.zone.key? y.dated →
        [x.id, y.id].Sublist l.ids) ∧
      (l.ids = rows.map Recipe.id ↔ ∀ x ∈ rows, ∀ y ∈ rows, y.createdAt < x.createdAt →
        x.dated.Precedes s.catalog.zone.key? y.dated) ∧
      (s.catalog.zone.changes = [] →
        (l.ids = rows.map Recipe.id ↔ ∀ x ∈ rows, ∀ y ∈ rows, y.createdAt < x.createdAt →
          s.catalog.zone.key? x.createdAt = s.catalog.zone.key? y.createdAt → x.id < y.id) ∧
        (∀ j ≤ 5, ∀ x ∈ rows, ∀ y ∈ rows,
          (x.createdAt.addSeconds (-s.catalog.zone.offset)).Within (2 ^ (33 + j)) →
          (y.createdAt.addSeconds (-s.catalog.zone.offset)).Within (2 ^ (33 + j)) →
          y.createdAt.addMicros (2 ^ j) ≤ x.createdAt → [x.id, y.id].Sublist l.ids) ∧
        ((∀ x ∈ rows, (x.createdAt.addSeconds (-s.catalog.zone.offset)).Within (2 ^ 33)) →
          l.ids = rows.map Recipe.id)) := by
  obtain ⟨rows, queried, once, newer, numbered, ids⟩ :=
    ids_of_listing_eq_ok keyed unpinned serving listed
  have sorted := @Recipe.pairwise_mergeSort_ranked s.catalog.zone.key? rows once
  have whole := @Recipe.mergeSort_ranked_eq_iff s.catalog.zone.key? rows once newer
  have perm := List.mergeSort_perm rows fun x y =>
    (x.ranked s.catalog.zone.key?).before (y.ranked s.catalog.zone.key?)
  generalize (rows.mergeSort fun x y => (x.ranked s.catalog.zone.key?).before
    (y.ranked s.catalog.zone.key?)) = order at *
  have told : ∀ x ∈ rows, ∀ y ∈ rows, x.dated.Precedes s.catalog.zone.key? y.dated ↔
      (x.ranked s.catalog.zone.key?).Precedes (y.ranked s.catalog.zone.key?) := by
    intro x row y row'
    obtain ⟨k, number⟩ := numbered x row
    obtain ⟨l, number'⟩ := numbered y row'
    exact Dated.precedes_iff (Recipe.dated_ranked_of_eq_ok number)
      (Recipe.dated_ranked_of_eq_ok number')
  have first : ∀ x ∈ rows, ∀ y ∈ rows, x.dated.Precedes s.catalog.zone.key? y.dated →
      [x.id, y.id].Sublist l.ids := by
    intro x row y row' precedes
    rw [ids]
    exact Recipe.pair_sublist_of_precedes sorted (perm.mem_iff.mpr row) (perm.mem_iff.mpr row')
      ((told x row y row').mp precedes)
  have alike : l.ids = rows.map Recipe.id ↔ ∀ x ∈ rows, ∀ y ∈ rows, y.createdAt < x.createdAt →
      x.dated.Precedes s.catalog.zone.key? y.dated := by
    have orders : l.ids = rows.map Recipe.id ↔ order = rows := by
      rw [ids]
      exact ⟨Recipe.eq_of_map_id_eq once perm, congrArg _⟩
    rw [orders, whole]
    exact forall₂_congr fun x row => forall₂_congr fun y row' => by rw [told x row y row']
  refine ⟨rows, queried, ?_, ?_, first, alike, fun steady => ?_⟩
  · rw [ids]
    exact (perm.map Recipe.id).nodup_iff.mpr once
  · rw [ids]
    exact perm.map Recipe.id
  have close : ∀ j ≤ 5, ∀ x ∈ rows, ∀ y ∈ rows,
      (x.createdAt.addSeconds (-s.catalog.zone.offset)).Within (2 ^ (33 + j)) →
      (y.createdAt.addSeconds (-s.catalog.zone.offset)).Within (2 ^ (33 + j)) →
      y.createdAt.addMicros (2 ^ j) ≤ x.createdAt →
      x.dated.Precedes s.catalog.zone.key? y.dated :=
    fun j few x row y row' near near' gap => Recipe.precedes_of_gap steady (numbered x row)
      (numbered y row') few near near' gap
  refine ⟨?_, fun j few x row y row' near near' gap =>
    first x row y row' (close j few x row y row' near near' gap), fun near => ?_⟩
  · rw [alike]
    exact forall₂_congr fun x row => forall₂_congr fun y row' => forall_congr' fun later =>
      Recipe.precedes_iff_of_steady steady (numbered x row) (numbered y row') later
  · refine alike.mpr fun x row y row' later => ?_
    exact close 0 (by decide) x row y row' (near x row) (near y row') later

def early : Recipe := { Recipe.bare "a" Status.published with createdAt := ⟨32503680000000000⟩ }

def late : Recipe := { Recipe.bare "b" Status.published with createdAt := ⟨32503680000000001⟩ }

/-- Two recipes of the first moments of the year 3000, a microsecond apart. -/
def farFuture : Store := ⟨⟨.utc, [], [], [], [early, late]⟩, none⟩

def anything : Rule := .custom [] []

def farListing : Listing where
  entries := [("a", Status.published), ("b", Status.published)]
  counts := ⟨2, 2, 0, 0⟩
  warnings := []
  predicate := .all

theorem listing_farFuture : farFuture.listing anything ⟨.unlinked, [], []⟩ = .ok farListing := by
  have checked : farFuture.checkReferences Predicate.all.references = .ok [] := by
    decide +kernel
  have evaluated : farFuture.evaluate .all [] = .ok ⟨[early.toMatch, late.toMatch], [], []⟩ := by
    decide +kernel
  have ranked : [early.dated, late.dated].mapM (Dated.ranked Zone.utc.key?) =
      .ok [early.ranked Zone.utc.key?, late.ranked Zone.utc.key?] := by decide +kernel
  have sorted : [early.ranked Zone.utc.key?, late.ranked Zone.utc.key?].mergeSort Ranked.before =
      [early.ranked Zone.utc.key?, late.ranked Zone.utc.key?] :=
    mergeSort_before_eq (List.Perm.refl _) (by decide +kernel)
  have merged : merge [early.ranked Zone.utc.key?, late.ranked Zone.utc.key?] [] [] =
      ["a", "b"] := by
    rw [merge, sorted]
    decide
  have entered : Listing.entriesOf Zone.utc.key? ⟨[early.toMatch, late.toMatch], [], []⟩
      ⟨.unlinked, [], []⟩ [("a", Status.published), ("b", Status.published)] =
        .ok farListing.entries :=
    Listing.entriesOf_eq_ok_iff.mpr
      ⟨["a", "b"], arrange_eq_ok_iff.mpr ⟨_, ranked, merged⟩, by decide⟩
  exact listing_eq_ok_iff.mpr ⟨[], _, [], _, checked, evaluated, by decide, entered, rfl⟩

theorem list_farFuture : farFuture.list (farListing.predicate.without []) (some Status.active) 0
    none .created = .ok [late, early] := by
  have whole : farListing.predicate.without [] = .all := by
    simp [farListing, Predicate.without, sortedSet]
  have sorted : [early, late].mergeSort Recipe.newerFirst = [late, early] := by
    have behind : early.newerFirst late = false := by decide
    simp [List.mergeSort, List.MergeSort.Internal.splitInTwo, behind]
  have matched : farFuture.listMatches .all [] = .ok [early.toMatch, late.toMatch] := by
    decide +kernel
  rw [whole, list_created_eq_ok (by decide) matched (by decide)]
  exact congrArg Except.ok sorted

theorem listing_newest_first_farFuture :
    farFuture.catalog.Keyed ∧ farFuture.down ≠ some (.operation .list) ∧
    farFuture.listing anything ⟨.unlinked, [], []⟩ = .ok farListing ∧
    ∃ rows, farFuture.list (farListing.predicate.without []) (some Status.active) 0 none .created =
        .ok rows ∧
      farListing.ids.Perm (rows.map Recipe.id) ∧
      (farListing.ids = rows.map Recipe.id ↔ ∀ x ∈ rows, ∀ y ∈ rows, y.createdAt < x.createdAt →
        Zone.utc.key? x.createdAt = Zone.utc.key? y.createdAt → x.id < y.id) := by
  have keyed : farFuture.catalog.Keyed := by decide
  have serving : farFuture.down ≠ some (.operation .list) := by decide
  obtain ⟨rows, queried, _, perm, _, _, steady⟩ :=
    listing_newest_first keyed rfl serving listing_farFuture
  exact ⟨keyed, serving, listing_farFuture, rows, queried, perm, (steady rfl).1⟩

/-- The times of two recipes may be rounded to one, and the later recipe then stands behind the
other, where the query has it first. -/
theorem later_behind_earlier :
    ¬ ∀ (s : Store) (r : Rule) (ctx : Context) (l : Listing), s.catalog.Keyed → ctx.pinned = [] →
      s.listing r ctx = .ok l → ∀ rows,
        s.list (l.predicate.without ctx.excluded) (some Status.active) 0 none .created = .ok rows →
        l.ids = rows.map Recipe.id ∧
        ∀ x ∈ rows, ∀ y ∈ rows, y.createdAt < x.createdAt → [x.id, y.id].Sublist l.ids := by
  intro agree
  have keyed : farFuture.catalog.Keyed := by decide
  have same := (agree farFuture anything ⟨.unlinked, [], []⟩ farListing keyed rfl
    listing_farFuture [late, early] list_farFuture).1
  exact absurd same (by decide)

end Store

end Cookbook
