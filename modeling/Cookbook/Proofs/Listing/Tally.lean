import Cookbook.Proofs.Listing.Answered

/-!
# Counts as tallies

A listing counts its entries, a query that groups by status counts rows, and a query for one status
counts the rows of that status.  All of them count recipes of the catalog by what is asked of them,
so they can be compared.
-/

namespace Cookbook

namespace Counts

instance : Add Counts := ⟨fun a b => ⟨a.matched + b.matched, a.published + b.published,
  a.pending + b.pending, a.draft + b.draft⟩⟩

theorem add_zero (a : Counts) : a + zero = a := by
  change Counts.mk (a.matched + 0) (a.published + 0) (a.pending + 0) (a.draft + 0) = a
  simp only [Int.add_zero]

theorem ofStatuses_append (xs ys : List String) :
    ofStatuses (xs ++ ys) = ofStatuses xs + ofStatuses ys := by
  change _ = Counts.mk _ _ _ _
  simp [ofStatuses]

theorem ofStatuses_perm {xs ys : List String} (perm : xs.Perm ys) :
    ofStatuses xs = ofStatuses ys := by
  simp only [ofStatuses, perm.length_eq, perm.count_eq]

theorem lookup_map_count {keys : List String} (number : String → Nat) {key : String}
    (listed : key ∈ keys) : (keys.map fun k => (k, number k)).lookup key = some (number key) := by
  refine lookup_eq_some_of_mem (List.mem_map.mpr ⟨key, listed, rfl⟩) ?_
  intro other found
  obtain ⟨k, _, same⟩ := List.mem_map.mp found
  obtain ⟨rfl, rfl⟩ := Prod.mk.inj same
  rfl

/-- A table of statuses counts the ones that are active. -/
theorem ofTable_counts (statuses : List String) :
    ofTable ((distinct statuses).map fun t => (t, statuses.count t)) =
      ofStatuses (statuses.filter fun t => decide (t ∈ Status.active)) := by
  have number : ∀ t, (((distinct statuses).map fun t => (t, statuses.count t)).lookup t).getD 0 =
      statuses.count t := by
    intro t
    by_cases listed : t ∈ distinct statuses
    · rw [lookup_map_count _ listed, Option.getD_some]
    · have missing : ((distinct statuses).map fun t => (t, statuses.count t)).lookup t = none := by
        rw [Option.eq_none_iff_forall_ne_some]
        intro value found
        obtain ⟨k, among, same⟩ := List.mem_map.mp (mem_of_lookup_eq_some found)
        exact listed ((Prod.mk.inj same).1 ▸ among)
      rw [missing, Option.getD_none,
        List.count_eq_zero.mpr fun row => listed (mem_distinct.mpr row)]
  have kept : ∀ t ∈ Status.active,
      (statuses.filter fun t => decide (t ∈ Status.active)).count t = statuses.count t := by
    intro t active
    exact List.count_filter (decide_eq_true active)
  have active : ∀ t ∈ statuses.filter fun t => decide (t ∈ Status.active), t ∈ Status.active := by
    simp
  have sum := matched_ofStatuses active
  have published := kept Status.published (by decide)
  have pending := kept Status.pending (by decide)
  have draft := kept Status.draft (by decide)
  simp only [ofStatuses] at sum
  simp only [ofTable, number, ofStatuses, published, pending, draft, Counts.mk.injEq, and_true]
  rw [sum, published, pending, draft]
  push_cast
  rfl

end Counts

namespace Catalog

/-- The recipes with a property, counted by status. -/
def tally (c : Catalog) (P : Recipe → Prop) [DecidablePred P] : Counts :=
  .ofStatuses ((c.recipes.filter fun x => decide (P x)).map Recipe.status)

variable (c : Catalog) {P Q R : Recipe → Prop} [DecidablePred P] [DecidablePred Q] [DecidablePred R]

theorem tally_eq_zero (nothing : ∀ x ∈ c.recipes, ¬ P x) : c.tally P = .zero := by
  have empty : (c.recipes.filter fun x => decide (P x)) = [] := by
    rw [List.filter_eq_nil_iff]
    intro x row
    simpa using nothing x row
  rw [tally, empty]
  rfl

/-- What falls into two parts is counted part by part. -/
theorem tally_add (parts : ∀ x ∈ c.recipes, P x ↔ Q x ∨ R x)
    (apart : ∀ x ∈ c.recipes, Q x → ¬ R x) : c.tally P = c.tally Q + c.tally R := by
  have first : (c.recipes.filter fun x => decide (P x)).filter (fun x => decide (Q x)) =
      c.recipes.filter fun x => decide (Q x) := by
    rw [List.filter_filter]
    refine List.filter_congr fun x row => ?_
    by_cases q : Q x <;> simp [q, parts x row]
  have second : (c.recipes.filter fun x => decide (P x)).filter (fun x => !decide (Q x)) =
      c.recipes.filter fun x => decide (R x) := by
    rw [List.filter_filter]
    refine List.filter_congr fun x row => ?_
    by_cases q : Q x
    · simp [q, apart x row q]
    · simp [q, parts x row]
  have split := List.filter_append_perm (fun x => decide (Q x))
    (c.recipes.filter fun x => decide (P x))
  rw [first, second] at split
  unfold tally
  rw [← Counts.ofStatuses_append, ← List.map_append]
  exact Counts.ofStatuses_perm (split.symm.map Recipe.status)

end Catalog

namespace Context

/-- The recipes that a collection lists only because they are pinned. -/
def AdmitsByPin (ctx : Context) (c : Catalog) (p : Predicate) (x : Recipe) : Prop :=
  x.IsActive ∧ x.id ∈ ctx.pinned ∧ x.id ∉ ctx.excluded ∧ p.holds c x = false

/-- The same collection with nothing pinned. -/
def unpinned (ctx : Context) : Context := { ctx with pinned := [] }

variable (ctx : Context) (c : Catalog) (p : Predicate)

instance : DecidablePred (ctx.Admits c p) := fun _ => inferInstanceAs (Decidable (_ ∧ _))

instance : DecidablePred (ctx.AdmitsByPin c p) := fun _ => inferInstanceAs (Decidable (_ ∧ _))

theorem admits_unpinned {ctx : Context} {c : Catalog} {p : Predicate} {x : Recipe} :
    ctx.unpinned.Admits c p x ↔ x.IsActive ∧ p.holds c x = true ∧ x.id ∉ ctx.excluded := by
  simp [Admits, unpinned]

theorem tally_admits :
    c.tally (ctx.Admits c p) =
      c.tally (ctx.unpinned.Admits c p) + c.tally (ctx.AdmitsByPin c p) := by
  apply Catalog.tally_add
  · intro x _
    rw [admits_unpinned, Admits, AdmitsByPin]
    by_cases holds : p.holds c x = true
    · simp [holds]
    · simp only [holds]
      tauto
  · intro x _ matched pinned
    rw [admits_unpinned] at matched
    exact Bool.noConfusion (pinned.2.2.2.symm.trans matched.2.1)

end Context

namespace Store

variable {s : Store} {r : Rule} {ctx : Context} {p : Predicate}

/-- The entries of a listing are the admitted recipes with their statuses, in some order. -/
theorem perm_entries_of_listing_eq_ok (keyed : s.catalog.Keyed) {l : Listing}
    (listed : s.listing r ctx = .ok l) :
    l.entries.Perm ((s.catalog.recipes.filter fun x =>
      decide (ctx.Admits s.catalog (r.predicate ctx.links) x)).map fun x => (x.id, x.status)) := by
  obtain ⟨base, more, evaluated, settled, entered, _⟩ := of_listing_eq_ok listed
  have finite := r.isFinite_predicate ctx.links
  have status {id t : String} := @lookup_statuses_append s (r.predicate ctx.links) ctx base more
    keyed finite evaluated settled id t
  have once : ((s.catalog.recipes.filter fun x =>
      decide (ctx.Admits s.catalog (r.predicate ctx.links) x)).map fun x =>
        (x.id, x.status)).Nodup := by
    apply List.Nodup.of_map Prod.fst
    rw [List.map_map]
    exact (List.filter_sublist.map Recipe.id).nodup (keyed .recipe)
  have entriesOnce := (Listing.nodup_map_fst_entriesOf entered).of_map
  refine (List.perm_ext_iff_of_nodup entriesOnce once).mpr ?_
  rintro ⟨id, t⟩
  simp only [List.mem_map, List.mem_filter, decide_eq_true_eq, Prod.mk.injEq]
  constructor
  · intro entry
    obtain ⟨x, row, admits, same⟩ := status.mp (Listing.lookup_of_mem_entriesOf entered entry)
    exact ⟨x, ⟨row, admits⟩, same⟩
  · rintro ⟨x, ⟨row, active, reason, wanted⟩, rfl, rfl⟩
    have known := status.mpr ⟨x, row, ⟨active, reason, wanted⟩, rfl, rfl⟩
    have source : x.id ∈ ctx.pinned ∨ ∃ m ∈ base.toList, m.id = x.id := by
      refine reason.symm.imp_right fun holds => ⟨x.toMatch, ?_, rfl⟩
      exact (mem_of_evaluate_eq_ok finite evaluated).mpr ⟨x, row, active, holds, wanted, rfl⟩
    obtain ⟨⟨id, t⟩, entry, same⟩ := List.mem_map.mp
      ((Listing.mem_map_fst_entriesOf entered).mpr ⟨source, wanted, Option.isSome_of_eq_some known⟩)
    obtain rfl : id = x.id := same
    have found := Listing.lookup_of_mem_entriesOf entered entry
    obtain rfl := Option.some.inj (known.symm.trans found)
    exact entry

theorem counts_of_listing_eq_ok (keyed : s.catalog.Keyed) {l : Listing}
    (listed : s.listing r ctx = .ok l) :
    l.counts = s.catalog.tally (ctx.Admits s.catalog (r.predicate ctx.links)) := by
  obtain ⟨_, _, _, _, _, counts⟩ := of_listing_eq_ok listed
  have perm := (perm_entries_of_listing_eq_ok keyed listed).map Prod.snd
  rw [counts, Counts.ofStatuses_perm perm, List.map_map]
  rfl

theorem counts_of_matchCounts_eq_ok (finite : ∀ n ∈ p.numbers, n.isFinite = true) {counts : Counts}
    (counted : s.matchCounts p ctx.excluded = .ok counts) :
    counts = s.catalog.tally (ctx.unpinned.Admits s.catalog p) := by
  obtain ⟨table, grouped, rfl⟩ := Attempt.map_eq_ok_iff.mp counted
  have finite : ∀ n ∈ (p.without ctx.excluded).numbers, n.isFinite = true :=
    fun n number => finite n (Predicate.numbers_without_subset p ctx.excluded number)
  rw [eq_of_query_eq_ok grouped, Counts.ofTable_counts, s.catalog.select_eq_filter finite,
    List.filter_map, List.filter_filter, Catalog.tally]
  congr 2
  refine List.filter_congr fun x _ => ?_
  rw [Bool.eq_iff_iff]
  simp [Context.admits_unpinned, Recipe.IsActive, Predicate.holds_without]

theorem eq_of_count_eq_ok (finite : ∀ n ∈ p.numbers, n.isFinite = true) (links : Rule.Links)
    {n : Nat} (counted : s.count p (some Status.published) = .ok n) :
    n = (s.catalog.tally ((Context.mk links [] []).Admits s.catalog p)).published := by
  have active : Status.published ∈ Status.active := by decide
  rw [eq_of_query_eq_ok counted, s.catalog.select_eq_filter finite, Catalog.tally,
    Counts.ofStatuses]
  dsimp only
  rw [List.count, List.countP_map, List.countP_filter, ← List.countP_eq_length_filter,
    List.countP_filter, List.countP_congr]
  intro x _
  by_cases published : x.status = Status.published
  · simp [published, Context.Admits, Recipe.IsActive, active]
  · simp [published]

end Store

end Cookbook
