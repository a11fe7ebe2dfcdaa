import Cookbook.Proofs.Shelf.Rows

/-!
# The algebra of overrides

An override is answered with the lists that it stores, and nothing else of the shelf changes but the
times of the row.  The new lists are the old ones with ids added or taken out, so that one override
can undo another.
-/

namespace Cookbook

namespace Collection

variable {current ids : List String}

/-- The ids that are not among the current ones, each once and in the order in which they are asked
for first. -/
structure Newcomers (current ids new : List String) : Prop where
  mem_iff : ∀ id, id ∈ new ↔ id ∈ ids ∧ id ∉ current
  inOrder : new.Pairwise fun a b => ids.idxOf a < ids.idxOf b

theorem pairwise_idxOf_distinct (ids : List String) :
    (distinct ids).Pairwise fun a b => ids.idxOf a < ids.idxOf b := by
  induction ids with
  | nil => exact .nil
  | cons x xs ih =>
    have others : ∀ a ∈ (distinct xs).filter (· ≠ x), a ≠ x := by
      intro a member
      simpa using (List.mem_filter.mp member).2
    refine List.pairwise_cons.mpr ⟨fun a member => ?_, ?_⟩
    · rw [List.idxOf_cons_self, List.idxOf_cons_ne _ (others a member).symm]
      exact Nat.succ_pos _
    · refine (ih.filter _).imp_of_mem fun {a b} first second before => ?_
      rw [List.idxOf_cons_ne _ (others a first).symm, List.idxOf_cons_ne _ (others b second).symm]
      exact Nat.succ_lt_succ before

theorem newcomers_exact (current ids : List String) :
    Newcomers current ids (newcomers current ids) where
  mem_iff id := by simp [newcomers]
  inOrder := (pairwise_idxOf_distinct ids).filter _

theorem newcomers_eq_nil (known : ids ⊆ current) : newcomers current ids = [] := by
  refine List.filter_eq_nil_iff.mpr fun id asked => ?_
  simpa using known (mem_distinct.mp asked)

theorem removing_eq_filter (current ids : List String) :
    removing current ids = current.filter (· ∉ ids) := by
  simp [removing]

theorem removing_append (current more ids : List String) :
    removing (current ++ more) ids = removing current ids ++ removing more ids :=
  List.filter_append ..

theorem removing_newcomers (current ids : List String) :
    removing (newcomers current ids) ids = [] := by
  refine List.filter_eq_nil_iff.mpr fun id new => ?_
  simpa using ((newcomers_exact current ids).mem_iff id).mp new |>.1

/-- Ids that were added and are taken out again leave no trace. -/
theorem removing_append_newcomers (current ids : List String) :
    removing (current ++ newcomers current ids) ids = removing current ids := by
  rw [removing_append, removing_newcomers, List.append_nil]

end Collection

/-- The list with new ids at this place. -/
def Position.join (p : Position) (new current : List String) : List String :=
  match p with
  | .start => new ++ current
  | .finish => current ++ new

namespace Collection

variable {c : Collection} {ids : List String}

theorem pinnedWith_eq_join (p : Position) :
    c.pinnedWith ids p = p.join (newcomers c.pinnedIds ids) c.pinnedIds := by
  cases p <;> rfl

theorem subset_pinnedWith (p : Position) : ids ⊆ c.pinnedWith ids p := by
  intro id asked
  have new := (newcomers_exact c.pinnedIds ids).mem_iff id
  by_cases old : id ∈ c.pinnedIds
  · cases p <;> simp [pinnedWith, old]
  · cases p <;> simp [pinnedWith, new, old, asked]

theorem pinnedWith_eq_self (known : ids ⊆ c.pinnedIds) (p : Position) :
    c.pinnedWith ids p = c.pinnedIds := by
  rw [pinnedWith_eq_join, newcomers_eq_nil known]
  cases p <;> simp [Position.join]

theorem removing_pinnedWith (p : Position) :
    removing (c.pinnedWith ids p) ids = removing c.pinnedIds ids := by
  cases p with
  | start => rw [pinnedWith, removing_append, removing_newcomers, List.nil_append]
  | finish => exact removing_append_newcomers c.pinnedIds ids

/-- Without repetitions, the same ids in another order are a permutation. -/
theorem reorders_iff_perm (once : c.pinnedIds.Nodup) : c.Reorders ids ↔ ids.Perm c.pinnedIds := by
  constructor
  · rintro ⟨single, old, kept⟩
    exact (List.perm_ext_iff_of_nodup single once).mpr fun id => ⟨old id, kept id⟩
  · intro perm
    exact ⟨perm.nodup_iff.mpr once, fun id => perm.mem_iff.mp, fun id => perm.mem_iff.mpr⟩

/-- The row with these lists, its counts without a time. -/
def relisted (c : Collection) (pinned excluded : Option (List String)) (now : Instant) :
    Collection :=
  { c with pinned := pinned, excluded := excluded, cachedAt := none, updatedAt := now }

end Collection

namespace Shelf

variable {s : Shelf} {c : Collection}

theorem put_put {d e : Collection} (same : d.id = e.id) : (s.put d).put e = s.put e := by
  have twice : ∀ b : Collection, (if (if b.id = d.id then d else b).id = e.id then e
      else if b.id = d.id then d else b) = if b.id = e.id then e else b := by
    intro b
    by_cases replaced : b.id = d.id
    · rw [if_pos replaced, if_pos same, if_pos (replaced.trans same)]
    · rw [if_neg replaced]
  simp only [put, List.map_map, Function.comp_def, twice]

/-- The lists that were put in place last are the ones that stay. -/
theorem put_relisted (s : Shelf) (c : Collection) (pinned excluded pinned' excluded' :
    Option (List String)) (now now' : Instant) :
    (s.put (c.relisted pinned excluded now)).put
        ((c.relisted pinned excluded now).relisted pinned' excluded' now') =
      s.put (c.relisted pinned' excluded' now') :=
  put_put rfl

/-- Only the overrides of the row have changed, and with them its times. -/
structure Overridden (s : Shelf) (now : Instant) (c : Collection)
    (pinned excluded : Option (List String)) (t : Shelf) : Prop where
  row : t.find? c.id = some
    { c with pinned := pinned, excluded := excluded, cachedAt := none, updatedAt := now }
  others : ∀ id, id ≠ c.id → t.find? id = s.find? id
  ids : t.collections.map Collection.id = s.collections.map Collection.id
  catalog : t.catalog = s.catalog
  drawn : t.drawn = s.drawn

theorem overridden_put (keyed : s.Keyed) (row : c ∈ s.collections) (now : Instant)
    (pinned excluded : Option (List String)) :
    s.Overridden now c pinned excluded (s.put (c.relisted pinned excluded now)) where
  row := by
    rw [find?_put, keyed.find?_eq_some row]
    exact congrArg some (if_pos rfl)
  others id other := find?_put_of_ne other
  ids := map_id_put s _
  catalog := rfl
  drawn := rfl

end Shelf

namespace Action

variable {env : Surroundings} {s : Shelf} {c : Collection} {ids : List String}

theorem run_requireRecipes (service : env.outage = none)
    (known : ∀ id ∈ ids, id ∈ s.catalog.idsOf .recipe) :
    (requireRecipes ids).run env s = (.ok (), s) := by
  obtain ⟨existing, found⟩ := Store.exists_existingIds (s := s.records) rfl .recipe ids
  have complete : ∀ id ∈ ids, id ∈ existing := fun id asked =>
    (Store.mem_of_existingIds_eq_ok found).mpr ⟨asked, known id asked⟩
  have nothing : (distinct ids).filter (fun id => !existing.contains id) = [] := by
    simpa using complete
  rw [requireRecipes, run_bind, run_store, records_of_outage_eq_none service]
  dsimp only
  rw [run_bind, run_attempt, found]
  dsimp only
  rw [nothing]
  rfl

theorem run_override_of_service (service : env.outage = none) {d : Collection}
    (fits : d.FitsColumns) : (override d).run env s = (.ok (), s.put (d.overridden env.now)) := by
  rw [run_override]
  exact run_save service _ fits

section Runs

variable (service : env.outage = none) (keyed : s.Keyed) (row : c ∈ s.collections)
  (fits : c.FitsColumns)
include service keyed row fits

theorem run_pin (known : ∀ id ∈ ids, id ∈ s.catalog.idsOf .recipe) (p : Position) :
    (pin c.id ⟨ids, p⟩).run env s =
      (.ok ⟨c.pinnedWith ids p, none,
        countedText "Pinned" (Collection.newcomers c.pinnedIds ids).length⟩,
      s.put (c.relisted (some (c.pinnedWith ids p)) c.excluded env.now)) := by
  have stored : (override (c.withPinned (c.pinnedWith ids p))).run env s = (.ok (), s.put _) :=
    run_override_of_service service fits
  simp only [pin, run_bind, run_require, required_of_mem keyed row,
    run_requireRecipes service known, stored, run_pure]
  rfl

theorem run_unpin (ids : List String) : (unpin c.id ids).run env s =
    (.ok ⟨Collection.removing c.pinnedIds ids, none, countedText "Unpinned" ids.length⟩,
      s.put (c.relisted (some (Collection.removing c.pinnedIds ids)) c.excluded env.now)) := by
  have stored : (override (c.withPinned (Collection.removing c.pinnedIds ids))).run env s =
      (.ok (), s.put _) := run_override_of_service service fits
  simp only [unpin, run_bind, run_require, required_of_mem keyed row, stored, run_pure]
  rfl

theorem run_reorder_of_reorders (same : c.Reorders ids) : (reorder c.id ids).run env s =
    (.ok ⟨ids, none, "Pinned order updated"⟩,
      s.put (c.relisted (some ids) c.excluded env.now)) := by
  have stored : (override (c.withPinned ids)).run env s = (.ok (), s.put _) :=
    run_override_of_service service fits
  simp only [reorder, run_bind, run_require, required_of_mem keyed row, not_true_eq_false, same,
    if_false, stored, run_pure]
  rfl

theorem run_exclude (known : ∀ id ∈ ids, id ∈ s.catalog.idsOf .recipe) :
    (exclude c.id ids).run env s =
      (.ok ⟨Collection.removing c.pinnedIds ids,
        some (c.excludedIds ++ Collection.newcomers c.excludedIds ids),
        countedText "Excluded" (Collection.newcomers c.excludedIds ids).length⟩,
      s.put (c.relisted (some (Collection.removing c.pinnedIds ids))
        (some (c.excludedIds ++ Collection.newcomers c.excludedIds ids)) env.now)) := by
  have stored : (override ((c.withPinned (Collection.removing c.pinnedIds ids)).withExcluded
      (c.excludedIds ++ Collection.newcomers c.excludedIds ids))).run env s = (.ok (), s.put _) :=
    run_override_of_service service fits
  simp only [exclude, run_bind, run_require, required_of_mem keyed row,
    run_requireRecipes service known, stored, run_pure]
  rfl

theorem run_unexclude (ids : List String) : (unexclude c.id ids).run env s =
    (.ok ⟨c.pinnedIds, some (Collection.removing c.excludedIds ids),
        countedText "Restored" ids.length⟩,
      s.put (c.relisted c.pinned (some (Collection.removing c.excludedIds ids)) env.now)) := by
  have stored : (override (c.withExcluded (Collection.removing c.excludedIds ids))).run env s =
      (.ok (), s.put _) := run_override_of_service service fits
  simp only [unexclude, run_bind, run_require, required_of_mem keyed row, stored, run_pure]
  rfl

/-! A second override finds the row as the first one has left it. -/

variable (pinned excluded : Option (List String)) (now : Instant)

theorem run_pin_relisted (known : ∀ id ∈ ids, id ∈ s.catalog.idsOf .recipe)
    (pins : ids ⊆ pinned.getD []) (p : Position) :
    ∃ text, (pin c.id ⟨ids, p⟩).run env (s.put (c.relisted pinned excluded now)) =
      (.ok ⟨pinned.getD [], none, text⟩,
        s.put (c.relisted (some (pinned.getD [])) excluded env.now)) := by
  have there := Shelf.mem_put_self (d := c.relisted pinned excluded now) row rfl
  have ran := run_pin service (keyed.put _) there fits known p
  have same : (c.relisted pinned excluded now).pinnedWith ids p = pinned.getD [] :=
    Collection.pinnedWith_eq_self pins p
  rw [same, Shelf.put_relisted] at ran
  exact ⟨_, ran⟩

theorem run_unpin_relisted (ids : List String) :
    (unpin c.id ids).run env (s.put (c.relisted pinned excluded now)) =
      (.ok ⟨Collection.removing (pinned.getD []) ids, none, countedText "Unpinned" ids.length⟩,
        s.put (c.relisted (some (Collection.removing (pinned.getD []) ids)) excluded
          env.now)) := by
  have there := Shelf.mem_put_self (d := c.relisted pinned excluded now) row rfl
  have ran := run_unpin service (keyed.put _) there fits ids
  rw [Shelf.put_relisted] at ran
  exact ran

theorem run_unexclude_relisted (ids : List String) :
    (unexclude c.id ids).run env (s.put (c.relisted pinned excluded now)) =
      (.ok ⟨pinned.getD [], some (Collection.removing (excluded.getD []) ids),
          countedText "Restored" ids.length⟩,
        s.put (c.relisted pinned (some (Collection.removing (excluded.getD []) ids))
          env.now)) := by
  have there := Shelf.mem_put_self (d := c.relisted pinned excluded now) row rfl
  have ran := run_unexclude service (keyed.put _) there fits ids
  rw [Shelf.put_relisted] at ran
  exact ran

end Runs

theorem run_reorder_of_not_reorders (keyed : s.Keyed) (row : c ∈ s.collections)
    (other : ¬ c.Reorders ids) : (reorder c.id ids).run env s = (.error (.badOverride
      "Reordering cannot add or remove pinned recipes; use pin/unpin instead"), s) := by
  simp [reorder, run_require, required_of_mem keyed row, other, fail]

section Laws

variable {env' : Surroundings} (keyed : s.Keyed) (row : c ∈ s.collections) (fits : c.FitsColumns)
  (service : env.outage = none) (service' : env'.outage = none)
include keyed row fits service service'

/-- What is pinned already stays where it is, and to take the ids out again is to take them out of
the old pins. -/
theorem pin_laws (known : ∀ id ∈ ids, id ∈ s.catalog.idsOf .recipe) (p : Position) :
    ∃ new text t, Collection.Newcomers c.pinnedIds ids new ∧
      (pin c.id ⟨ids, p⟩).run env s = (.ok ⟨p.join new c.pinnedIds, none, text⟩, t) ∧
      s.Overridden env.now c (some (p.join new c.pinnedIds)) c.excluded t ∧
      (∀ p', ∃ text u,
        (pin c.id ⟨ids, p'⟩).run env' t = (.ok ⟨p.join new c.pinnedIds, none, text⟩, u) ∧
        s.Overridden env'.now c (some (p.join new c.pinnedIds)) c.excluded u) ∧
      (unpin c.id ids).run env' t = (unpin c.id ids).run env' s := by
  have pinned := run_pin service keyed row fits known p
  have stored : ids ⊆ c.pinnedWith ids p := Collection.subset_pinnedWith p
  have undone := run_unpin_relisted service' keyed row fits (some (c.pinnedWith ids p)) c.excluded
    env.now ids
  rw [Option.getD_some, Collection.removing_pinnedWith] at undone
  rw [Collection.pinnedWith_eq_join] at pinned stored undone
  refine ⟨_, _, _, Collection.newcomers_exact c.pinnedIds ids, pinned,
    s.overridden_put keyed row _ _ _, fun p' => ?_, ?_⟩
  · obtain ⟨text, again⟩ := run_pin_relisted service' keyed row fits
      (some (p.join (Collection.newcomers c.pinnedIds ids) c.pinnedIds)) c.excluded env.now known
      stored p'
    exact ⟨text, _, again, s.overridden_put keyed row _ _ _⟩
  · rw [undone, run_unpin service' keyed row fits ids]

/-- What is excluded is not pinned, and to include it again does not pin it again. -/
theorem exclude_laws (known : ∀ id ∈ ids, id ∈ s.catalog.idsOf .recipe) :
    ∃ new text t, Collection.Newcomers c.excludedIds ids new ∧
      (exclude c.id ids).run env s = (.ok ⟨c.pinnedIds.filter (· ∉ ids),
        some (c.excludedIds ++ new), text⟩, t) ∧
      s.Overridden env.now c (some (c.pinnedIds.filter (· ∉ ids)))
        (some (c.excludedIds ++ new)) t ∧
      ∃ text u, (unexclude c.id ids).run env' t = (.ok ⟨c.pinnedIds.filter (· ∉ ids),
          some (c.excludedIds.filter (· ∉ ids)), text⟩, u) ∧
        s.Overridden env'.now c (some (c.pinnedIds.filter (· ∉ ids)))
          (some (c.excludedIds.filter (· ∉ ids))) u := by
  have excluded := run_exclude service keyed row fits known
  have included := run_unexclude_relisted service' keyed row fits
    (some (Collection.removing c.pinnedIds ids))
    (some (c.excludedIds ++ Collection.newcomers c.excludedIds ids)) env.now ids
  rw [Option.getD_some, Option.getD_some, Collection.removing_append_newcomers] at included
  simp only [Collection.removing_eq_filter] at excluded included
  exact ⟨_, _, _, Collection.newcomers_exact c.excludedIds ids, excluded,
    s.overridden_put keyed row _ _ _, _, _, included, s.overridden_put keyed row _ _ _⟩

end Laws

end Action

namespace Shelf

/-- Pinning adds the ids that are not pinned yet, in the order in which they are asked for first, in
front of the pins or behind them; to pin them again changes no list, and to unpin them afterwards is
to unpin them without.  A new order is stored if and only if it is a permutation of the pins.
Excluding adds the ids that are not excluded yet and unpins all of them, and to include them again
takes them from the excluded ids as it would have done without, but pins nothing.  Every call is
answered with the lists that it stores, and changes only these and the times of the row. -/
theorem overrides_algebra {s : Shelf} (keyed : s.Keyed) {c : Collection} (row : c ∈ s.collections)
    (fits : c.FitsColumns) (once : c.pinnedIds.Nodup) {ids : List String}
    (known : ∀ id ∈ ids, id ∈ s.catalog.idsOf .recipe) {env env' : Surroundings}
    (service : env.outage = none) (service' : env'.outage = none) :
    (∀ p, ∃ new text t, Collection.Newcomers c.pinnedIds ids new ∧
      (Action.pin c.id ⟨ids, p⟩).run env s = (.ok ⟨p.join new c.pinnedIds, none, text⟩, t) ∧
      s.Overridden env.now c (some (p.join new c.pinnedIds)) c.excluded t ∧
      (∀ p', ∃ text u,
        (Action.pin c.id ⟨ids, p'⟩).run env' t = (.ok ⟨p.join new c.pinnedIds, none, text⟩, u) ∧
        s.Overridden env'.now c (some (p.join new c.pinnedIds)) c.excluded u) ∧
      (Action.unpin c.id ids).run env' t = (Action.unpin c.id ids).run env' s) ∧
    (∃ text t, (Action.unpin c.id ids).run env s =
        (.ok ⟨c.pinnedIds.filter (· ∉ ids), none, text⟩, t) ∧
      s.Overridden env.now c (some (c.pinnedIds.filter (· ∉ ids))) c.excluded t) ∧
    (∀ order : List String,
      (order.Perm c.pinnedIds →
        ∃ text t, (Action.reorder c.id order).run env s = (.ok ⟨order, none, text⟩, t) ∧
          s.Overridden env.now c (some order) c.excluded t) ∧
      (¬ order.Perm c.pinnedIds →
        ∃ text, (Action.reorder c.id order).run env s = (.error (.badOverride text), s))) ∧
    (∃ new text t, Collection.Newcomers c.excludedIds ids new ∧
      (Action.exclude c.id ids).run env s = (.ok ⟨c.pinnedIds.filter (· ∉ ids),
        some (c.excludedIds ++ new), text⟩, t) ∧
      s.Overridden env.now c (some (c.pinnedIds.filter (· ∉ ids)))
        (some (c.excludedIds ++ new)) t ∧
      ∃ text u, (Action.unexclude c.id ids).run env' t = (.ok ⟨c.pinnedIds.filter (· ∉ ids),
          some (c.excludedIds.filter (· ∉ ids)), text⟩, u) ∧
        s.Overridden env'.now c (some (c.pinnedIds.filter (· ∉ ids)))
          (some (c.excludedIds.filter (· ∉ ids))) u) ∧
    ∃ text t, (Action.unexclude c.id ids).run env s =
        (.ok ⟨c.pinnedIds, some (c.excludedIds.filter (· ∉ ids)), text⟩, t) ∧
      s.Overridden env.now c c.pinned (some (c.excludedIds.filter (· ∉ ids))) t := by
  refine ⟨fun p => Action.pin_laws keyed row fits service service' known p, ?unpin, ?reorder,
    Action.exclude_laws keyed row fits service service' known, ?unexclude⟩
  case unpin =>
    have unpinned := Action.run_unpin service keyed row fits ids
    rw [Collection.removing_eq_filter] at unpinned
    exact ⟨_, _, unpinned, overridden_put keyed row _ _ _⟩
  case reorder =>
    refine fun order => ⟨fun perm => ?_, fun other => ?_⟩
    · have same := (Collection.reorders_iff_perm once).mpr perm
      exact ⟨_, _, Action.run_reorder_of_reorders service keyed row fits same,
        overridden_put keyed row _ _ _⟩
    · have different := (Collection.reorders_iff_perm once).not.mpr other
      exact ⟨_, Action.run_reorder_of_not_reorders keyed row different⟩
  case unexclude =>
    have included := Action.run_unexclude service keyed row fits ids
    rw [Collection.removing_eq_filter] at included
    exact ⟨_, _, included, overridden_put keyed row _ _ _⟩

/-- One recipe is pinned, one is excluded, and one is neither; the counts are taken. -/
def counter : Shelf where
  catalog := ⟨.utc, [], [], [], ["a", "b", "d", "e"].map (Recipe.bare · Status.published)⟩
  collections := [{ Collection.ofNew ⟨"Any", "any", Collection.themeType, Status.draft, none, none,
    Rule.emptyJson, .unlinked, ["b", "e"], ["d", "a"], 1, 2, 0⟩ Rule.emptyJson "t" ⟨0⟩ with
    cachedAt := some ⟨0⟩ }]
  drawn := 0

theorem overrides_algebra_counter : ∃ c ∈ counter.collections,
    counter.Keyed ∧ c.FitsColumns ∧ c.pinnedIds.Nodup ∧
    (∀ id ∈ ["a", "b", "d", "a"], id ∈ counter.catalog.idsOf .recipe) ∧
    (∃ new text t, Collection.Newcomers c.pinnedIds ["a", "b", "d", "a"] new ∧
      (Action.pin "t" ⟨["a", "b", "d", "a"], .start⟩).run ⟨.standard, ⟨1⟩, none⟩ counter =
        (.ok ⟨new ++ ["b", "e"], none, text⟩, t) ∧
      (Action.unpin "t" ["a", "b", "d", "a"]).run ⟨.standard, ⟨2⟩, none⟩ t =
        (Action.unpin "t" ["a", "b", "d", "a"]).run ⟨.standard, ⟨2⟩, none⟩ counter) ∧
    ∃ new text t, Collection.Newcomers c.excludedIds ["a", "b", "d", "a"] new ∧
      (Action.exclude "t" ["a", "b", "d", "a"]).run ⟨.standard, ⟨1⟩, none⟩ counter =
        (.ok ⟨["e"], some (["d", "a"] ++ new), text⟩, t) ∧
      ∃ text u, (Action.unexclude "t" ["a", "b", "d", "a"]).run ⟨.standard, ⟨2⟩, none⟩ t =
        (.ok ⟨["e"], some [], text⟩, u) := by
  have keyed : counter.Keyed := by decide
  have known : ∀ id ∈ ["a", "b", "d", "a"], id ∈ counter.catalog.idsOf .recipe := by decide
  obtain ⟨pins, _, _, exclusions, _⟩ := overrides_algebra keyed List.mem_cons_self (by decide)
    (by decide) known (show Surroundings.outage ⟨.standard, ⟨1⟩, none⟩ = none from rfl)
    (show Surroundings.outage ⟨.standard, ⟨2⟩, none⟩ = none from rfl)
  obtain ⟨new, text, t, newcomers, pinned, _, _, undone⟩ := pins .start
  obtain ⟨more, text', t', newcomers', excluded, _, text'', u, included, _⟩ := exclusions
  exact ⟨_, List.mem_cons_self, keyed, by decide, by decide, known,
    ⟨new, text, t, newcomers, pinned, undone⟩, more, text', t', newcomers', excluded, text'', u,
    included⟩

end Shelf

end Cookbook
