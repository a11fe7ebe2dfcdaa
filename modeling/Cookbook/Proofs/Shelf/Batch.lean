import Cookbook.Proofs.Shelf.Refreshed
import Cookbook.Proofs.Shelf.Traceless

/-!
# Batches

The refreshes of a batch have nothing to do with each other: each one comes to what it would come to
alone, and a row that cannot be refreshed is reported and left as it was.  Only a row that cannot be
read back after its counts are committed is reported as a failure and has new counts.
-/

namespace Cookbook

/-- The rows differ in their counts and in the time of these at most. -/
def Collection.SameButCounts (c d : Collection) : Prop :=
  d = { c with cached := d.cached, cachedAt := d.cachedAt }

/-- What a batch says of a row and makes of it is what a refresh of the row alone does, be it asked
for by itself or as a batch of one. -/
structure RefreshDetail.Independent (env : Surroundings) (s t : Shelf) (c : Collection)
    (d : RefreshDetail) : Prop where
  id : d.id = c.id
  name : d.name = c.name
  outcome : d.outcome = ((Action.refresh c.id).run env s).1.map Snapshot.counts
  row : t.find? c.id = ((Action.refresh c.id).run env s).2.find? c.id
  alone : ∃ u, (Action.refreshCounts (some [c.id])).run env s = (.ok ⟨[d]⟩, u) ∧
    t.find? c.id = u.find? c.id
  taken : ∀ counts, d.outcome = .ok counts → t.find? c.id = some (c.store ⟨counts, env.now⟩)
  kept : ∀ f, d.outcome = .error f → (∀ l, ¬ s.Unread env c l) → t.find? c.id = some c
  unread : ∀ l, s.Unread env c l → d.outcome = .error Action.snapshotFailure ∧
    t.find? c.id = some (c.store ⟨l.counts, env.now⟩)

namespace Shelf

variable {env : Surroundings} {s t : Shelf}

/-- The shelf after a batch. -/
def recounted (env : Surroundings) (s : Shelf) (ids : Option (List String)) : Shelf :=
  s.mapRows fun c => if c.id ∈ (Action.batch s.collections ids).map Collection.id then
    Action.refreshed env (env.records s) c else c

theorem find?_recounted (keyed : s.Keyed) (ids : Option (List String)) {c : Collection}
    (row : c ∈ s.collections) : (s.recounted env ids).find? c.id =
      some (if c.id ∈ (Action.batch s.collections ids).map Collection.id then
        Action.refreshed env (env.records s) c else c) := by
  rw [recounted, find?_mapRows, keyed.find?_eq_some row, Option.map_some]
  intro d
  split
  · exact Action.id_refreshed env _ d
  · rfl

theorem mem_batch_ids {ids : Option (List String)} {c : Collection}
    (row : c ∈ s.collections) :
    c.id ∈ (Action.batch s.collections ids).map Collection.id ↔ Action.Selects ids c.id := by
  constructor
  · intro member
    obtain ⟨d, chosen, same⟩ := List.mem_map.mp member
    exact same ▸ (Action.mem_batch.mp chosen).2
  · exact fun chosen => List.mem_map_of_mem (Action.mem_batch.mpr ⟨row, chosen⟩)

/-- A batch of one row refreshes the row and reports it. -/
theorem run_refreshCounts_singleton (keyed : s.Keyed) {c : Collection} (row : c ∈ s.collections)
    (told : ∀ f, Action.snapshotOf env (env.records s) c = .error f → f.IsOwn) :
    (Action.refreshCounts (some [c.id])).run env s =
        (.ok ⟨[Action.reportOf env (env.records s) c]⟩, s.recounted env (some [c.id])) ∧
      (s.recounted env (some [c.id])).find? c.id =
        some (Action.refreshed env (env.records s) c) := by
  have single := Action.batch_singleton keyed row
  constructor
  · rw [Action.run_refreshCounts keyed, recounted, single]
    · rfl
    · intro d among named
      have only : d ∈ Action.batch s.collections (some [c.id]) :=
        Action.mem_batch.mpr ⟨among, named⟩
      rw [single] at only
      rwa [List.mem_singleton.mp only]
  · rw [find?_recounted keyed _ row, single]
    simp

theorem independent_of_mem_batch (keyed : s.Keyed) {ids : Option (List String)} {c : Collection}
    (chosen : c ∈ Action.batch s.collections ids) (fits : c.FitsColumns)
    (told : ∀ f, Action.snapshotOf env (env.records s) c = .error f → f.IsOwn) :
    (Action.reportOf env (env.records s) c).Independent env s (s.recounted env ids) c := by
  have row := (Action.mem_batch.mp chosen).1
  have after : (s.recounted env ids).find? c.id =
      some (Action.refreshed env (env.records s) c) := by
    rw [find?_recounted keyed ids row, if_pos (List.mem_map_of_mem chosen)]
  constructor
  case id => rfl
  case name => rfl
  case outcome => rw [Action.run_refresh keyed row]; rfl
  case row =>
    rw [Action.run_refresh keyed row, after, find?_put, keyed.find?_eq_some row, Option.map_some,
      if_pos (Action.id_refreshed env _ c).symm]
  case alone =>
    obtain ⟨ran, found⟩ := run_refreshCounts_singleton keyed row told
    exact ⟨_, ran, after.trans found.symm⟩
  case taken =>
    intro counts outcome
    obtain ⟨snapshot, taken, rfl⟩ := Attempt.map_eq_ok_iff.mp outcome
    obtain ⟨l, _, rfl⟩ := Action.of_snapshotOf_eq_ok taken
    rw [after, Action.refreshed_of_eq_ok taken]
  case kept =>
    intro f outcome read
    have failed := Action.takenOf_eq_error_of_read (Attempt.map_eq_error_iff.mp outcome) read
    rw [after, Action.refreshed_of_takenOf_eq_error failed]
  case unread =>
    intro l unread
    have taken := Action.takenOf_of_unread unread fits
    have failed : Action.snapshotOf env (env.records s) c = .error Action.snapshotFailure :=
      Action.snapshotOf_eq_error_iff.mpr (.inr ⟨⟨_, taken⟩, unread.withheld, rfl⟩)
    rw [after, Action.refreshed_of_takenOf_eq_ok taken]
    exact ⟨Attempt.map_eq_error_iff.mpr failed, rfl⟩

theorem sameButCounts_recounted (env : Surroundings) (s : Shelf) (ids : Option (List String)) :
    List.Forall₂ Collection.SameButCounts s.collections (s.recounted env ids).collections := by
  refine List.forall₂_map_right_iff.mpr (List.forall₂_same.mpr fun c _ => ?_)
  unfold Action.refreshed
  split
  · split <;> rfl
  · rfl

end Shelf

theorem RefreshReport.refreshed_add_failed (r : RefreshReport) : ∃ refreshed failed : Nat,
    r.toJson.getD "refreshed" = .int refreshed ∧ r.toJson.getD "failed" = .int failed ∧
      refreshed = r.details.countP RefreshDetail.succeeded ∧
      refreshed + failed = r.details.length := by
  refine ⟨_, _, rfl, rfl, List.countP_eq_length_filter.symm, ?_⟩
  have := List.length_filter_le RefreshDetail.succeeded r.details
  omega

/-- A batch in which no listing fails in a way that callers are not told about is answered, and a
session that has nothing pending comes to the same.  The report has each row that is asked for once,
by id.  What it says of a row and what becomes of the row is what a refresh of this row alone does
on the first shelf: the row has new counts with their time, or it has failed and is as it was, or it
has new counts that it could not be read back with and is reported as a failure.  No other row
changes, and nothing but counts and their times changes at all. -/
theorem Shelf.batch_independent {env : Surroundings} {s : Shelf} (keyed : s.Keyed)
    (columns : ∀ c ∈ s.collections, c.FitsColumns) (ids : Option (List String))
    (told : ∀ c ∈ s.collections, Action.Selects ids c.id → ∀ f,
      (env.records s).currentListing c = .error f → f.IsOwn) :
    ∃ report t, (Action.refreshCounts ids).run env s = (.ok report, t) ∧
      (Work.refreshCounts ids).run env (.of s) = (.ok report, .of t) ∧
      (report.details.map RefreshDetail.id).Pairwise (· < ·) ∧
      (∀ id, id ∈ report.details.map RefreshDetail.id ↔
        Action.Selects ids id ∧ id ∈ s.collections.map Collection.id) ∧
      (∀ d ∈ report.details, ∃ c ∈ s.collections, d.Independent env s t c) ∧
      (∀ c ∈ s.collections, ¬ Action.Selects ids c.id → t.find? c.id = some c) ∧
      List.Forall₂ Collection.SameButCounts s.collections t.collections ∧
      t.catalog = s.catalog ∧ t.drawn = s.drawn ∧
      ∃ refreshed failed : Nat, report.toJson.getD "refreshed" = .int refreshed ∧
        report.toJson.getD "failed" = .int failed ∧
        refreshed = report.details.countP RefreshDetail.succeeded ∧
        refreshed + failed = report.details.length := by
  have told : ∀ c ∈ s.collections, Action.Selects ids c.id → ∀ f,
      Action.snapshotOf env (env.records s) c = .error f → f.IsOwn :=
    fun c row chosen f => Action.isOwn_of_snapshotOf_eq_error (columns c row) (told c row chosen)
  have ran := Action.run_refreshCounts keyed ids told
  have reported : ((Action.batch s.collections ids).map
      (Action.reportOf env (env.records s))).map RefreshDetail.id =
        (Action.batch s.collections ids).map Collection.id := by
    rw [List.map_map]
    rfl
  refine ⟨_, s.recounted env ids, ran, ?_, ?_, ?_, ?_, ?_, sameButCounts_recounted env s ids, rfl,
    rfl, RefreshReport.refreshed_add_failed _⟩
  · have follows : Work.Follows env (Work.refreshCounts ids) _ := Work.follows_refreshCounts ids
    have agrees := follows s
    rw [ran] at agrees
    exact agrees.eq_of_ok
  · rw [reported]
    exact Action.pairwise_batch keyed ids
  · intro id
    rw [reported]
    constructor
    · intro member
      obtain ⟨c, chosen, rfl⟩ := List.mem_map.mp member
      obtain ⟨row, selected⟩ := Action.mem_batch.mp chosen
      exact ⟨selected, List.mem_map_of_mem row⟩
    · rintro ⟨selected, member⟩
      obtain ⟨c, row, rfl⟩ := List.mem_map.mp member
      exact (mem_batch_ids row).mpr selected
  · intro d member
    obtain ⟨c, chosen, rfl⟩ := List.mem_map.mp member
    obtain ⟨row, selected⟩ := Action.mem_batch.mp chosen
    exact ⟨c, row, independent_of_mem_batch keyed chosen (columns c row) (told c row selected)⟩
  · intro c row unselected
    rw [find?_recounted keyed ids row, if_neg fun member =>
      unselected ((mem_batch_ids row).mp member)]

namespace Shelf

/-- Two trattorie, and a ruin between them whose rule is none. -/
def street : Shelf where
  catalog := trattorie.catalog
  collections := [{ Collection.trattoria with cached := .zero },
    { Collection.trattoria with id := "ruin", slug := "ruin", rules := .null },
    { Collection.trattoria with id := "other", slug := "other", cached := .zero }]
  drawn := 0

/-- Two of the rows, one of them twice, and one that is unknown. -/
def asked : Option (List String) := some ["t", "gone", "ruin", "t"]

theorem batch_independent_street :
    street.Keyed ∧ (∀ c ∈ street.collections, c.FitsColumns) ∧
    (∀ c ∈ street.collections, Action.Selects asked c.id → ∀ f,
      ((Surroundings.standard 1).records street).currentListing c = .error f → f.IsOwn) ∧
    ∃ report t, (Action.refreshCounts asked).run (.standard 1) street = (.ok report, t) ∧
      (∀ id ∈ ["ruin", "t"], ∃ d ∈ report.details, ∃ c ∈ street.collections,
        d.id = id ∧ d.Independent (.standard 1) street t c) ∧
      (t.find? "ruin").map Collection.cachedAt = some (some ⟨0⟩) ∧
      (t.find? "t").map Collection.cached = some ⟨1, 1, 0, 0⟩ ∧
      t.find? "other" = street.find? "other" := by
  have keyed : street.Keyed := by decide
  have columns : ∀ c ∈ street.collections, c.FitsColumns := by decide
  have told : ∀ c ∈ street.collections, Action.Selects asked c.id → ∀ f,
      ((Surroundings.standard 1).records street).currentListing c = .error f → f.IsOwn := by
    have each : ∀ c ∈ street.collections, c.rules = .null ∨
        (((Surroundings.standard 1).records street).currentListing c).toOption.isSome := by
      decide +kernel
    intro c row _ f failed
    rcases each c row with none | listed
    · rw [Store.currentListing, none] at failed
      obtain rfl := Except.error.inj failed
      trivial
    · rw [failed] at listed
      cases listed
  obtain ⟨report, t, ran, _, _, ids, independent, unselected, _⟩ :=
    batch_independent keyed columns asked told
  have reported : ∀ id ∈ ["ruin", "t"], ∃ d ∈ report.details, ∃ c ∈ street.collections,
      d.id = id ∧ d.Independent (.standard 1) street t c := by
    intro id named
    have chosen : Action.Selects asked id ∧ id ∈ street.collections.map Collection.id := by
      refine ⟨fun given same _ => ?_, ?_⟩
      · obtain rfl := Option.some.inj same
        revert id
        decide
      · revert id
        decide
    obtain ⟨d, member, rfl⟩ := List.mem_map.mp ((ids id).mpr chosen)
    obtain ⟨c, row, alone⟩ := independent d member
    exact ⟨d, member, c, row, rfl, alone⟩
  have single : ∀ id ∈ ["ruin", "t"],
      t.find? id = ((Action.refresh id).run (.standard 1) street).2.find? id := by
    intro id named
    obtain ⟨d, _, c, _, rfl, alone⟩ := reported id named
    rw [alone.id]
    exact alone.row
  refine ⟨keyed, columns, told, report, t, ran, reported, ?_, ?_, ?_⟩
  · rw [single "ruin" (by decide)]
    decide +kernel
  · rw [single "t" (by decide)]
    decide +kernel
  · refine unselected { Collection.trattoria with
      id := "other", slug := "other", cached := .zero } (by decide) fun selected => ?_
    exact absurd (selected _ rfl (by decide)) (by decide)

/-- One row is not read back once it is committed. -/
def nearsighted : Surroundings := ⟨.standard, ⟨1⟩, some (.reread (some "t"))⟩

/-- The row is reported as a failure, and its counts and their time are new. -/
theorem failed_row_recounted : ∃ d t,
    (Action.refreshCounts (some ["t"])).run nearsighted street = (.ok ⟨[d]⟩, t) ∧
    d.id = "t" ∧ d.outcome = .error Action.snapshotFailure ∧
    (street.find? "t").map (fun c => (c.cached, c.cachedAt)) = some (.zero, some ⟨0⟩) ∧
    (t.find? "t").map (fun c => (c.cached, c.cachedAt)) = some (⟨1, 1, 0, 0⟩, some ⟨1⟩) := by
  let c : Collection := { Collection.trattoria with cached := .zero }
  have failed : Action.snapshotOf nearsighted (nearsighted.records street) c =
      .error Action.snapshotFailure := by decide +kernel
  have told : ∀ f, Action.snapshotOf nearsighted (nearsighted.records street) c = .error f →
      f.IsOwn := by
    rintro f same
    obtain rfl := Except.error.inj (failed.symm.trans same)
    trivial
  have keyed : street.Keyed := by decide
  have row : c ∈ street.collections := List.mem_cons_self
  obtain ⟨ran, left⟩ := run_refreshCounts_singleton keyed row told
  refine ⟨_, street.recounted nearsighted (some [c.id]), ran, rfl, ?_, by decide, ?_⟩
  · exact Attempt.map_eq_error_iff.mpr failed
  · change Option.map _ ((street.recounted nearsighted (some [c.id])).find? c.id) = _
    rw [left]
    decide +kernel

end Shelf

end Cookbook
