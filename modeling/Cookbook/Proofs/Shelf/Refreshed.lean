import Cookbook.Proofs.Shelf.Operations
import Cookbook.Proofs.Shelf.Reading

/-!
# What a refresh takes of a row

A listing reads a row and the catalog, and a refresh writes that row only.  A refresh has therefore
one equation, and a batch one over the shelf that it starts from.
-/

namespace Cookbook

/-- A refresh of the row stores these counts and cannot read the row back. -/
structure Shelf.Unread (env : Surroundings) (s : Shelf) (c : Collection) (l : Listing) : Prop where
  listed : s.records.currentListing c = .ok l
  readable : ¬ env.Withholds c.id
  withheld : env.WithholdsCommitted c.id

namespace Surroundings.WithholdsCommitted

variable {env : Surroundings} {id : String}

/-- All queries and commits are in service where rows are not read again. -/
theorem outage_ne_commit (withheld : env.WithholdsCommitted id) : env.outage ≠ some .commit := by
  rcases withheld with (every | one) | every | one
  · simp [every]
  · simp [one]
  · simp [every]
  · simp [one]

theorem records_eq (withheld : env.WithholdsCommitted id) (s : Shelf) :
    env.records s = s.records := by
  unfold Surroundings.records
  rcases withheld with (every | one) | every | one
  · rw [every]
    rfl
  · rw [one]
    rfl
  · rw [every]
    rfl
  · rw [one]
    rfl

end Surroundings.WithholdsCommitted

namespace Action

variable {env : Surroundings} {s : Shelf}

/-- What a refresh stores of a row. -/
def takenOf (env : Surroundings) (st : Store) (c : Collection) : Attempt Snapshot :=
  if env.Withholds c.id then .error reloadFailure
  else match st.currentListing c with
    | .error f => .error f
    | .ok l =>
      if env.outage = some .commit then .error snapshotFailure
      else if c.FitsColumns then .ok ⟨l.counts, env.now⟩
      else .error .overflow

/-- What a refresh answers: what it has stored, if the row is read back with it. -/
def snapshotOf (env : Surroundings) (st : Store) (c : Collection) : Attempt Snapshot := do
  let snapshot ← takenOf env st c
  if env.WithholdsCommitted c.id then .error snapshotFailure else .ok snapshot

/-- The row after a refresh: with new counts, or as it was. -/
def refreshed (env : Surroundings) (st : Store) (c : Collection) : Collection :=
  match takenOf env st c with
  | .ok snapshot => c.store snapshot
  | .error _ => c

/-- What a batch reports of a row. -/
def reportOf (env : Surroundings) (st : Store) (c : Collection) : RefreshDetail :=
  ⟨c.id, c.name, (snapshotOf env st c).map Snapshot.counts⟩

@[simp] theorem id_refreshed (env : Surroundings) (st : Store) (c : Collection) :
    (refreshed env st c).id = c.id := by
  unfold refreshed
  split <;> rfl

section Taken

variable {st : Store} {c : Collection} {snapshot : Snapshot} {f : Failure}

theorem refreshed_of_takenOf_eq_ok (taken : takenOf env st c = .ok snapshot) :
    refreshed env st c = c.store snapshot := by
  rw [refreshed, taken]

theorem refreshed_of_takenOf_eq_error (failed : takenOf env st c = .error f) :
    refreshed env st c = c := by
  rw [refreshed, failed]

/-- Counts are those of the listing, with the time of the refresh, of a row that can be read. -/
theorem of_takenOf_eq_ok (taken : takenOf env st c = .ok snapshot) :
    ∃ l, st.currentListing c = .ok l ∧ ¬ env.Withholds c.id ∧ snapshot = ⟨l.counts, env.now⟩ := by
  unfold takenOf at taken
  split at taken
  · cases taken
  next readable =>
    split at taken
    · cases taken
    next l listed =>
      split at taken
      · cases taken
      split at taken
      · exact ⟨l, listed, readable, (Except.ok.inj taken).symm⟩
      · cases taken

theorem takenOf_eq_ok {l : Listing} (readable : ¬ env.Withholds c.id)
    (listed : st.currentListing c = .ok l) (lasting : env.outage ≠ some .commit)
    (fits : c.FitsColumns) : takenOf env st c = .ok ⟨l.counts, env.now⟩ := by
  rw [takenOf, if_neg readable, listed]
  dsimp only
  rw [if_neg lasting, if_pos fits]

theorem takenOf_of_snapshotOf_eq_ok (answered : snapshotOf env st c = .ok snapshot) :
    takenOf env st c = .ok snapshot := by
  obtain ⟨taken, stored, seen⟩ := Attempt.bind_eq_ok_iff.mp answered
  split at seen
  · cases seen
  · rwa [← Except.ok.inj seen]

/-- A refresh fails before it stores anything, or because the row is not read back. -/
theorem snapshotOf_eq_error_iff : snapshotOf env st c = .error f ↔
    takenOf env st c = .error f ∨
      (∃ snapshot, takenOf env st c = .ok snapshot) ∧ env.WithholdsCommitted c.id ∧
        f = snapshotFailure := by
  unfold snapshotOf
  rw [Attempt.bind_eq_error_iff]
  refine or_congr_right ⟨?_, ?_⟩
  · rintro ⟨snapshot, stored, unseen⟩
    split at unseen
    next withheld => exact ⟨⟨snapshot, stored⟩, withheld, (Except.error.inj unseen).symm⟩
    next => cases unseen
  · rintro ⟨⟨snapshot, stored⟩, withheld, rfl⟩
    exact ⟨snapshot, stored, if_pos withheld⟩

theorem refreshed_of_eq_ok (answered : snapshotOf env st c = .ok snapshot) :
    refreshed env st c = c.store snapshot :=
  refreshed_of_takenOf_eq_ok (takenOf_of_snapshotOf_eq_ok answered)

/-- A snapshot has the counts of the listing and the time of the refresh. -/
theorem of_snapshotOf_eq_ok (answered : snapshotOf env st c = .ok snapshot) :
    ∃ l, st.currentListing c = .ok l ∧ snapshot = ⟨l.counts, env.now⟩ := by
  obtain ⟨l, listed, _, same⟩ := of_takenOf_eq_ok (takenOf_of_snapshotOf_eq_ok answered)
  exact ⟨l, listed, same⟩

theorem snapshotOf_of_service (service : env.outage = none) {l : Listing}
    (listed : st.currentListing c = .ok l) (fits : c.FitsColumns) :
    snapshotOf env st c = .ok ⟨l.counts, env.now⟩ := by
  have readable : ¬ env.WithholdsCommitted c.id := by
    simp [Surroundings.WithholdsCommitted, Surroundings.Withholds, service]
  rw [snapshotOf,
    takenOf_eq_ok (fun withheld => readable (.inl withheld)) listed (by simp [service]) fits]
  exact if_neg readable

/-- A row of a database is refreshed, or it fails as its listing or the database does. -/
theorem isOwn_of_snapshotOf_eq_error (fits : c.FitsColumns)
    (told : ∀ f, st.currentListing c = .error f → f.IsOwn)
    (failed : snapshotOf env st c = .error f) : f.IsOwn := by
  rcases snapshotOf_eq_error_iff.mp failed with early | ⟨_, _, rfl⟩
  · unfold takenOf at early
    simp only [if_pos fits] at early
    split at early
    · obtain rfl := Except.error.inj early
      trivial
    split at early
    next unlisted =>
      obtain rfl := Except.error.inj early
      exact told _ unlisted
    next =>
      split at early
      · obtain rfl := Except.error.inj early
        trivial
      · cases early
  · trivial

theorem takenOf_of_unread {l : Listing} (unread : s.Unread env c l) (fits : c.FitsColumns) :
    takenOf env (env.records s) c = .ok ⟨l.counts, env.now⟩ := by
  rw [unread.withheld.records_eq]
  exact takenOf_eq_ok unread.readable unread.listed unread.withheld.outage_ne_commit fits

/-- What is stored when a refresh fails is not read back. -/
theorem unread_of_snapshotOf_eq_error (failed : snapshotOf env (env.records s) c = .error f)
    (taken : takenOf env (env.records s) c = .ok snapshot) :
    f = snapshotFailure ∧ ∃ l, s.Unread env c l ∧ snapshot = ⟨l.counts, env.now⟩ := by
  rcases snapshotOf_eq_error_iff.mp failed with early | ⟨_, withheld, rfl⟩
  · exact nomatch early.symm.trans taken
  · obtain ⟨l, listed, readable, same⟩ := of_takenOf_eq_ok taken
    rw [withheld.records_eq] at listed
    exact ⟨rfl, l, ⟨listed, readable, withheld⟩, same⟩

theorem takenOf_eq_error_of_read (failed : snapshotOf env (env.records s) c = .error f)
    (read : ∀ l, ¬ s.Unread env c l) : takenOf env (env.records s) c = .error f := by
  rcases snapshotOf_eq_error_iff.mp failed with early | ⟨⟨snapshot, taken⟩, _, _⟩
  · exact early
  · obtain ⟨_, l, unread, _⟩ := unread_of_snapshotOf_eq_error failed taken
    exact absurd unread (read l)

end Taken

/-- A refresh answers what it takes of the row, and stores it before it reads the row back. -/
theorem run_refreshRow_eq (c : Collection) : (refreshRow c).run env s =
    (snapshotOf env (env.records s) c, match takenOf env (env.records s) c with
      | .ok snapshot => s.put (c.store snapshot)
      | .error _ => s) := by
  unfold snapshotOf takenOf refreshRow
  rw [run_bind, run_reload]
  by_cases withheld : env.Withholds c.id
  · simp only [if_pos withheld]
    rfl
  simp only [if_neg withheld]
  rw [run_bind, run_store]
  dsimp only
  rw [run_bind, run_attempt]
  cases (env.records s).currentListing c with
  | error f => rfl
  | ok l =>
    have fits : (c.store ⟨l.counts, env.now⟩).FitsColumns ↔ c.FitsColumns := Iff.rfl
    have same : (c.store ⟨l.counts, env.now⟩).id = c.id := rfl
    dsimp only
    rw [run_bind, run_now]
    dsimp only
    rw [run_bind, run_save_eq, run_readBack]
    simp only [fits, same]
    by_cases down : env.outage = some .commit
    · simp only [if_pos down]
      rfl
    by_cases word : c.FitsColumns
    · simp only [if_neg down, if_pos word]
      by_cases unseen : env.WithholdsCommitted c.id
      · simp only [if_pos unseen]
        rfl
      · simp only [if_neg unseen]
        rfl
    · simp only [if_neg down, if_neg word]
      rfl

theorem run_refreshRow (keyed : s.Keyed) {c : Collection} (row : c ∈ s.collections) :
    (refreshRow c).run env s =
      (snapshotOf env (env.records s) c, s.put (refreshed env (env.records s) c)) := by
  rw [run_refreshRow_eq, refreshed]
  cases takenOf env (env.records s) c with
  | ok snapshot => rfl
  | error f => exact Prod.ext rfl (Shelf.put_eq_self keyed row).symm

theorem run_refresh (keyed : s.Keyed) {c : Collection} (row : c ∈ s.collections) :
    (refresh c.id).run env s =
      (snapshotOf env (env.records s) c, s.put (refreshed env (env.records s) c)) := by
  rw [refresh, run_bind, run_require, required_of_mem keyed row]
  exact run_refreshRow keyed row

theorem run_refreshDetail_eq (keyed : s.Keyed) {c : Collection} (row : c ∈ s.collections)
    (told : ∀ f, snapshotOf env (env.records s) c = .error f → f.IsOwn) :
    (refreshDetail c).run env s =
      (.ok (reportOf env (env.records s) c), s.put (refreshed env (env.records s) c)) := by
  rw [refreshDetail, run_tryCatch, run_bind, run_refreshRow keyed row, reportOf]
  cases taken : snapshotOf env (env.records s) c with
  | ok snapshot => rfl
  | error f =>
    dsimp only
    rw [if_pos (told f taken)]
    rfl

theorem mem_put_refreshed {c d : Collection} (row : d ∈ s.collections) (other : d.id ≠ c.id)
    (st : Store) : d ∈ (s.put (refreshed env st c)).collections := by
  apply Shelf.mem_put_of_mem row
  rwa [id_refreshed]

/-- The refresh of the first row leaves the rows that a batch has still to refresh. -/
theorem rest_mem_put_refreshed {c : Collection} {cs : List Collection}
    (fresh : c.id ∉ cs.map Collection.id) (rows : ∀ d ∈ c :: cs, d ∈ s.collections) (st : Store) :
    ∀ d ∈ cs, d ∈ (s.put (refreshed env st c)).collections := by
  intro d member
  apply mem_put_refreshed (rows d (List.mem_cons_of_mem _ member))
  intro same
  exact fresh (same ▸ List.mem_map_of_mem member)

/-- The rows of a batch are refreshed over the shelf that the batch starts from. -/
theorem run_mapM_refreshDetail_eq {cs : List Collection} (apart : (cs.map Collection.id).Nodup) :
    ∀ s : Shelf, s.Keyed → (∀ c ∈ cs, c ∈ s.collections) →
      (∀ c ∈ cs, ∀ f, snapshotOf env (env.records s) c = .error f → f.IsOwn) →
      (cs.mapM refreshDetail).run env s = (.ok (cs.map (reportOf env (env.records s))),
        s.mapRows fun c =>
          if c.id ∈ cs.map Collection.id then refreshed env (env.records s) c else c) := by
  induction cs with
  | nil =>
    intro s _ _ _
    exact Prod.ext rfl (Shelf.mapRows_eq_self fun c _ => if_neg List.not_mem_nil).symm
  | cons c cs ih =>
    intro s keyed rows told
    obtain ⟨fresh, apart⟩ := List.nodup_cons.mp apart
    have row := rows c List.mem_cons_self
    have others := @rest_mem_put_refreshed env s c cs fresh rows (env.records s)
    have rest := ih apart _ (keyed.put _) others fun d member =>
      told d (List.mem_cons_of_mem _ member)
    rw [List.mapM_cons, run_bind, run_refreshDetail_eq keyed row (told c List.mem_cons_self)]
    dsimp only
    rw [run_bind, rest]
    refine Prod.ext rfl ?_
    change (s.put _).mapRows _ = _
    rw [Shelf.put, Shelf.mapRows, Shelf.mapRows, List.map_map]
    refine congrArg (Shelf.mk s.catalog · s.drawn) (List.map_congr_left fun d member => ?_)
    simp only [Function.comp_apply, id_refreshed, List.map_cons, List.mem_cons]
    by_cases same : d.id = c.id
    · obtain rfl := List.inj_on_of_nodup_map keyed member row same
      simp [fresh]
    · simp [same]
      rfl

/-- A batch takes the rows by id, each once. -/
theorem pairwise_batch (keyed : s.Keyed) (ids : Option (List String)) :
    ((batch s.collections ids).map Collection.id).Pairwise (· < ·) := by
  have sorted : (batch s.collections ids).Pairwise fun c d => c.id ≤ d.id :=
    pairwise_mergeSort_key Collection.id _
  rw [List.pairwise_map]
  exact (sorted.and (List.pairwise_map.mp (nodup_batch keyed ids))).imp fun ⟨le, ne⟩ =>
    Std.lt_of_le_of_ne le ne

theorem run_refreshCounts (keyed : s.Keyed) (ids : Option (List String))
    (told : ∀ c ∈ s.collections, Selects ids c.id → ∀ f,
      snapshotOf env (env.records s) c = .error f → f.IsOwn) :
    (refreshCounts ids).run env s =
      (.ok ⟨(batch s.collections ids).map (reportOf env (env.records s))⟩,
        s.mapRows fun c => if c.id ∈ (batch s.collections ids).map Collection.id then
          refreshed env (env.records s) c else c) := by
  have each := run_mapM_refreshDetail_eq (nodup_batch keyed ids) s keyed
    (fun c chosen => (mem_batch.mp chosen).1)
    (fun c chosen => told c (mem_batch.mp chosen).1 (mem_batch.mp chosen).2)
  rw [refreshCounts, run_bind, run_get]
  dsimp only
  rw [run_bind, each]
  rfl

theorem batch_singleton (keyed : s.Keyed) {c : Collection} (row : c ∈ s.collections) :
    batch s.collections (some [c.id]) = [c] := by
  have apart : (batch s.collections (some [c.id])).Nodup := (nodup_batch keyed _).of_map
  refine List.perm_singleton.mp ((List.perm_ext_iff_of_nodup apart (List.nodup_singleton c)).mpr ?_)
  intro d
  rw [mem_batch, List.mem_singleton]
  constructor
  · rintro ⟨among, chosen⟩
    have same : d.id = c.id := by simpa using chosen [c.id] rfl (List.cons_ne_nil _ _)
    exact List.inj_on_of_nodup_map keyed among row same
  · rintro rfl
    refine ⟨row, fun named given _ => ?_⟩
    obtain rfl := Option.some.inj given
    exact List.mem_singleton_self _

/-- However it ends, it leaves the row as a refresh of the row does. -/
theorem shelf_refreshDetail (keyed : s.Keyed) {c : Collection} (row : c ∈ s.collections) :
    ((refreshDetail c).run env s).2 = s.put (refreshed env (env.records s) c) := by
  rw [refreshDetail, run_tryCatch, run_bind, run_refreshRow keyed row]
  cases snapshotOf env (env.records s) c with
  | ok snapshot => rfl
  | error f =>
    dsimp only
    split <;> rfl

/-- A batch that stops half way has refreshed some of its rows, over the shelf that it started
from, and has left the others. -/
theorem find?_mapM_refreshDetail {cs : List Collection} (apart : (cs.map Collection.id).Nodup)
    (keyed : s.Keyed) (rows : ∀ c ∈ cs, c ∈ s.collections) {b : Collection}
    (row : b ∈ s.collections) :
    ((cs.mapM refreshDetail).run env s).2.find? b.id = some b ∨
      b ∈ cs ∧ ((cs.mapM refreshDetail).run env s).2.find? b.id =
        some (refreshed env (env.records s) b) := by
  induction cs generalizing s b with
  | nil => exact .inl (keyed.find?_eq_some row)
  | cons c cs ih =>
    obtain ⟨fresh, distinct⟩ := List.nodup_cons.mp apart
    have among := rows c List.mem_cons_self
    have first := @shelf_refreshDetail env s keyed c among
    have rest := @rest_mem_put_refreshed env s c cs fresh rows (env.records s)
    rw [List.mapM_cons, run_bind]
    generalize (refreshDetail c).run env s = outcome at first
    obtain ⟨answer, t⟩ := outcome
    obtain rfl : t = s.put (refreshed env (env.records s) c) := first
    by_cases same : b.id = c.id
    · obtain rfl := List.inj_on_of_nodup_map keyed row among same
      have new := Shelf.mem_put_self row (id_refreshed env (env.records s) b).symm
      refine .inr ⟨List.mem_cons_self, ?_⟩
      rw [← id_refreshed env (env.records s) b]
      cases answer with
      | error f => exact (keyed.put _).find?_eq_some new
      | ok x =>
        dsimp only
        rw [shelf_bind_pure]
        refine (ih distinct (keyed.put _) rest new).resolve_right fun ⟨member, _⟩ => fresh ?_
        exact id_refreshed env (env.records s) b ▸ List.mem_map_of_mem member
    · have old : b ∈ (s.put (refreshed env (env.records s) c)).collections :=
        mem_put_refreshed row same _
      cases answer with
      | error f => exact .inl ((keyed.put _).find?_eq_some old)
      | ok x =>
        dsimp only
        rw [shelf_bind_pure]
        exact (ih distinct (keyed.put _) rest old).imp_right fun ⟨member, taken⟩ =>
          ⟨List.mem_cons_of_mem _ member, taken⟩

/-- A batch leaves a row as it was, or as a refresh of the row does. -/
theorem find?_refreshCounts (keyed : s.Keyed) (ids : Option (List String)) {c : Collection}
    (row : c ∈ s.collections) :
    ((refreshCounts ids).run env s).2.find? c.id = some c ∨ Selects ids c.id ∧
      ((refreshCounts ids).run env s).2.find? c.id =
        some (refreshed env (env.records s) c) := by
  rw [refreshCounts, run_bind, run_get]
  dsimp only
  rw [shelf_bind_pure]
  exact (find?_mapM_refreshDetail (nodup_batch keyed ids) keyed
    (fun d chosen => (mem_batch.mp chosen).1) row).imp_right fun ⟨chosen, taken⟩ =>
      ⟨(mem_batch.mp chosen).2, taken⟩

end Action

end Cookbook
