import Cookbook.Proofs.Shelf.Publication
import Cookbook.Proofs.Shelf.Refreshed
import Cookbook.Proofs.Shelf.Synced
import Cookbook.Proofs.Shelf.Updates

/-!
# What an event makes of the counts of a row

An event leaves the counts of a row and their time as they are, or it clears the time and keeps the
counts, or it takes the counts anew.  The time is cleared by the calls for overrides and by changes
of what the listing depends on, and nothing but a refresh of the row and its publication takes
counts.  Either may fail when the counts are taken already.
-/

namespace Cookbook

/-- It is about the overrides of the row with this id, whatever it makes of them. -/
def Call.Overrides (id : String) : Call → Prop
  | pin other _ => other = id
  | unpin other _ => other = id
  | reorder other _ => other = id
  | exclude other _ => other = id
  | unexclude other _ => other = id
  | _ => False

/-- The definitions that a source comes to. -/
def DefinitionSource.Yields : DefinitionSource → List Definition → Prop
  | packaged, ds => ds = Definition.packaged
  | missing, _ => False
  | folder yaml f, ds =>
    ∃ ss, ((Loading.ofFolder yaml f).run .empty).1 = .ok ss ∧ ds = Sheet.definitions ss

/-- With everything before it in place, one of the definitions changes what the listing of the row
depends on. -/
def Shelf.RewrittenBy (env : Surroundings) (s : Shelf) (id : String) (ds : List Definition) :
    Prop :=
  ∃ before d after, ds = before ++ d :: after ∧
    ∃ a t, (Action.syncDefinitions before).run env s = (.ok a, t) ∧
      ∃ b c, t.find? id = some b ∧
        ((Action.syncDefinitions (before ++ [d])).run env s).2.find? id = some c ∧
        Collection.InputsDiffer b c

namespace Event

/-- The definitions that an event puts in place. -/
def Syncs (env : Surroundings) : Event → List Definition → Prop
  | define given, ds => ds = given
  | load source, ds => source.Yields ds
  | startUp source, ds => env.settings.syncOnStartup = true ∧ source.Yields ds
  | _, _ => False

/-- The event changes what the listing of the row depends on.  Of a sync each definition counts, for
a later one may put back what it changes. -/
inductive Rewrites (env : Surroundings) (s : Shelf) (id : String) : Event → Prop where
  | update {c d : Collection} {ch : Changes} (found : s.find? id = some c)
      (left : ((Event.call (.update id ch)).leaves env s).find? id = some d)
      (differ : Collection.InputsDiffer c d) : Rewrites env s id (.call (.update id ch))
  | sync {e : Event} {ds : List Definition} (syncs : e.Syncs env ds)
      (rewritten : s.RewrittenBy env id ds) : Rewrites env s id e

/-- The event is to refresh the row, alone or in a batch. -/
inductive RefreshesRow (id : String) : Event → Prop where
  | refresh : RefreshesRow id (.refresh id)
  | batch {ids : Option (List String)} (asked : Action.Selects ids id) :
      RefreshesRow id (.call (.refreshCounts ids))

/-- The event refreshes the row with success, alone or in a batch that comes to the row, or it
publishes the row, which is not published, and stores the publication; or it stores what a refresh
has counted and cannot read the row back. -/
inductive TakesCounts (env : Surroundings) (s : Shelf) (id : String) : Event → Prop where
  | refresh {snapshot : Snapshot}
      (taken : ((Action.refresh id).run env s).1 = .ok snapshot) :
      TakesCounts env s id (.refresh id)
  | batch {ids : Option (List String)} {c : Collection} {snapshot : Snapshot}
      (asked : Action.Selects ids id)
      (taken : ((Action.refresh id).run env s).1 = .ok snapshot) (found : s.find? id = some c)
      (stored : ((Event.call (.refreshCounts ids)).leaves env s).find? id =
        some (c.store snapshot)) : TakesCounts env s id (.call (.refreshCounts ids))
  | publish {c : Collection} {counts : Counts} (force : Bool) (found : s.find? id = some c)
      (unpublished : ¬ c.IsPublished)
      (stored : ((Event.call (.publish id force)).leaves env s).find? id =
        some (c.published counts env.now)) : TakesCounts env s id (.call (.publish id force))
  | unread {e : Event} {c : Collection} {l : Listing} (asked : e.RefreshesRow id)
      (unread : s.Unread env c l) (found : s.find? id = some c)
      (stored : (e.leaves env s).find? id = some (c.store ⟨l.counts, env.now⟩)) :
      TakesCounts env s id e

end Event

/-- Counts with their time are as they were, and so is what they depend on, or they are only the
last known ones. -/
structure Collection.KeepsCounts (P : Prop) (c d : Collection) : Prop where
  cached : d.cached = c.cached
  cachedAt : d.cachedAt = c.cachedAt ∧ ¬ InputsDiffer c d ∨ d.cachedAt = none ∧ P

theorem Collection.not_inputsDiffer_trans {b c d : Collection} (first : ¬ InputsDiffer b c)
    (second : ¬ InputsDiffer c d) : ¬ InputsDiffer b d := by
  simp only [InputsDiffer, not_or, not_not] at *
  obtain ⟨rules, links, pinned, excluded⟩ := first
  rw [← rules, ← links, ← pinned, ← excluded]
  exact second

namespace Collection.KeepsCounts

variable {P Q : Prop} {b c d : Collection}

theorem refl (P : Prop) (c : Collection) : KeepsCounts P c c :=
  ⟨rfl, .inl ⟨rfl, not_inputsDiffer_self c⟩⟩

theorem trans (first : KeepsCounts P b c) (second : KeepsCounts P c d) : KeepsCounts P b d where
  cached := second.cached.trans first.cached
  cachedAt := by
    rcases second.cachedAt with ⟨same, inputs⟩ | cleared
    · rw [same]
      exact first.cachedAt.imp_left fun ⟨same', inputs'⟩ =>
        ⟨same', not_inputsDiffer_trans inputs' inputs⟩
    · exact .inr cleared

theorem imp (keeps : KeepsCounts P c d) (implies : P → Q) : KeepsCounts Q c d where
  cached := keeps.cached
  cachedAt := by
    apply keeps.cachedAt.imp_right
    rintro ⟨cleared, holds⟩
    exact ⟨cleared, implies holds⟩

end Collection.KeepsCounts

theorem Collection.keepsCounts_change (c : Collection) (ch : Changes) (now : Instant) :
    KeepsCounts (InputsDiffer c (c.change ch now)) c (c.change ch now) := by
  rw [change_eq]
  refine ⟨rfl, ?_⟩
  by_cases differ : InputsDiffer c (c.edited ch)
  · exact .inr ⟨if_pos differ, differ⟩
  · exact .inl ⟨if_neg differ, differ⟩

/-- A call that is none of these takes no counts and clears the time of overridden ones only. -/
theorem Revises.keepsCounts {s : Shelf} {now : Instant} {c d : Collection} {call : Call}
    (revises : Revises s now c call d) (update : ∀ ch, call ≠ .update c.id ch)
    (refresh : ∀ ids, call ≠ .refreshCounts ids) (publish : ∀ force, call ≠ .publish c.id force) :
    Collection.KeepsCounts (call.Overrides c.id) c d := by
  cases revises with
  | update => exact absurd rfl (update _)
  | refresh => exact absurd rfl (refresh _)
  | publish force => exact absurd rfl (publish force)
  | unpublish => exact ⟨rfl, .inl ⟨rfl, Collection.not_inputsDiffer_self c⟩⟩
  | _ => exact ⟨rfl, .inr ⟨rfl, rfl⟩⟩

/-- Where the same changes are made once or more often, the row is as it was or they are made. -/
theorem Shelf.Reaches.changes_row {env : Surroundings} {C : Shelf → Shelf → Prop} {ch : Changes}
    {s t : Shelf} {c : Collection} (reached : Reaches C s t) (keyed : s.Keyed)
    (row : c ∈ s.collections)
    (step : ∀ s t, C s t → ∃ call, Commit env call s t ∧
      ((∃ n, call = .create n) ∨ ∃ id, call = .update id ch)) :
    ∃ d, t.find? c.id = some d ∧ (d = c ∨ ∃ ch', d = c.change ch' env.now) := by
  have kept : ∃ d, t.find? c.id = some d ∧ (d = c ∨ ∃ rules : Option Rule,
      ch.rules.map Rule.accept = rules.map Except.ok ∧
        d = c.change { ch with rules := rules.map Rule.toJson } env.now) := by
    apply reached.keeps_row env keyed row (.inl rfl)
    intro s t taken
    obtain ⟨call, commit, kind⟩ := step s t taken
    refine ⟨call, commit, ?_, ?_⟩
    · rintro rfl
      obtain ⟨_, ⟨⟩⟩ | ⟨_, ⟨⟩⟩ := kind
    · intro b b' _ revises before
      obtain ⟨n, rfl⟩ | ⟨id, rfl⟩ := kind
      · cases revises
      cases revises with
      | @update _ rules accepted _ =>
        obtain rfl | ⟨rules', accepted', rfl⟩ := before
        · exact .inr ⟨rules, accepted, rfl⟩
        · have same : rules = rules' :=
            Option.map_injective (fun _ _ => Except.ok.inj) (accepted.symm.trans accepted')
          subst same
          exact .inr ⟨rules, accepted, Collection.change_change ..⟩
  obtain ⟨d, found, rfl | ⟨rules, _, rfl⟩⟩ := kept
  · exact ⟨d, found, .inl rfl⟩
  · exact ⟨_, found, .inr ⟨_, rfl⟩⟩

namespace Action

variable {env : Surroundings} {s : Shelf}

/-- One definition makes at most its own changes of a row. -/
theorem exists_row_of_define (keyed : s.Keyed) {c : Collection} (row : c ∈ s.collections)
    (a : SyncAnswer) (d : Definition) :
    ∃ b, ((define a d).run env s).2.find? c.id = some b ∧
      Collection.KeepsCounts (Collection.InputsDiffer c b) c b := by
  have steps : Steps env (Defines env d) (fun _ => True) (define a d) fun _ _ => True :=
    steps_define a d
  have made : ∀ t u, Defines env d t u → ∃ call, Commit env call t u ∧
      ((∃ n, call = .create n) ∨ ∃ id, call = .update id d.toChanges) := by
    intro t u defines
    cases defines with
    | create commit => exact ⟨_, commit, .inl ⟨_, rfl⟩⟩
    | update commit => exact ⟨_, commit, .inr ⟨_, rfl⟩⟩
  obtain ⟨b, found, rfl | ⟨ch, rfl⟩⟩ := (steps s trivial).1.changes_row keyed row made
  · exact ⟨b, found, .refl _ b⟩
  · exact ⟨_, found, Collection.keepsCounts_change ..⟩

/-- A sync keeps the counts of a row, and their time unless it changes the inputs. -/
theorem exists_row_of_syncDefinitions (keyed : s.Keyed) {c : Collection}
    (row : c ∈ s.collections) (ds : List Definition) :
    ∃ b, ((syncDefinitions ds).run env s).2.find? c.id = some b ∧
      Collection.KeepsCounts (s.RewrittenBy env c.id ds) c b := by
  induction ds using List.reverseRecOn with
  | nil => exact ⟨c, keyed.find?_eq_some row, .refl _ c⟩
  | append_singleton ds d ih =>
    obtain ⟨b, found, keeps⟩ := ih
    have apart : ((syncDefinitions ds).run env s).2.Keyed :=
      Shelf.keyed_leaves keyed env (.define ds)
    have longer : s.RewrittenBy env c.id ds → s.RewrittenBy env c.id (ds ++ [d]) := by
      rintro ⟨before, e, after, rfl, changed⟩
      exact ⟨before, e, after ++ [d], by simp, changed⟩
    have whole := syncDefinitions_append_singleton ds d
    rcases ran : (syncDefinitions ds).run env s with ⟨f | a, t⟩
    · rw [whole, run_bind, ran]
      rw [ran] at found
      exact ⟨b, found, keeps.imp longer⟩
    · rw [ran] at apart found
      obtain ⟨same, among⟩ := Shelf.mem_of_find?_eq_some found
      obtain ⟨b', left, keeps'⟩ := exists_row_of_define apart among a d
      have after : ((syncDefinitions (ds ++ [d])).run env s).2.find? c.id = some b' := by
        rw [whole, run_bind, ran, ← same]
        exact left
      refine ⟨b', after, (keeps.imp longer).trans (keeps'.imp ?_)⟩
      intro differ
      exact ⟨ds, d, [], rfl, a, t, ran, b, b', found, after, differ⟩

/-- What a sync of sheets leaves is what a sync of their definitions leaves. -/
theorem shelf_foldlM_place (sheets : List Sheet) (a : SyncAnswer) (s : Shelf) :
    ((sheets.foldlM place a).run env s).2 =
      (((Sheet.definitions sheets).foldlM define a).run env s).2 := by
  induction sheets generalizing a s with
  | nil => rfl
  | cons sheet sheets ih =>
    rw [List.foldlM_cons, run_bind, Sheet.definitions]
    cases written : sheet.written with
    | ok d =>
      dsimp only
      rw [run_place written, List.foldlM_cons, run_bind]
      rcases (define a d).run env s with ⟨e | b, t⟩
      · rfl
      · exact ih b t
    | error e =>
      rw [run_place_of_unwritten written]
      rfl

theorem shelf_syncSource (env : Surroundings) (s : Shelf) (source : DefinitionSource) :
    ((syncSource source).run env s).2 = s ∨ ∃ ds, source.Yields ds ∧
      ((syncSource source).run env s).2 = ((syncDefinitions ds).run env s).2 := by
  cases source with
  | packaged => exact .inr ⟨_, rfl, rfl⟩
  | missing => exact .inl rfl
  | folder yaml f =>
    rw [syncSource, run_bind, run_attempt]
    cases loaded : ((Loading.ofFolder yaml f).run .empty).1 with
    | ok ss => exact .inr ⟨_, ⟨ss, loaded, rfl⟩, shelf_foldlM_place ss .nothing s⟩
    | error e => exact .inl rfl

theorem shelf_startUp (env : Surroundings) (s : Shelf) (source : DefinitionSource) :
    ((startUp source).run env s).2 = if env.settings.syncOnStartup then
      ((syncSource source).run env s).2 else s := by
  rw [startUp, run_bind, run_settings]
  dsimp only
  split
  · exact shelf_bind_pure env s (fun _ => ()) (syncSource source)
  · rfl

end Action

namespace Event

variable {env : Surroundings} {s : Shelf} {e : Event} {c d : Collection}

theorem exists_row_of_sync (keyed : s.Keyed) (row : c ∈ s.collections)
    (syncs : e.leaves env s = s ∨ ∃ ds, e.Syncs env ds ∧
      e.leaves env s = ((Action.syncDefinitions ds).run env s).2) :
    ∃ b, (e.leaves env s).find? c.id = some b ∧
      Collection.KeepsCounts (e.Rewrites env s c.id) c b := by
  rcases syncs with same | ⟨ds, syncs, same⟩
  · rw [same]
    exact ⟨c, keyed.find?_eq_some row, .refl _ c⟩
  · obtain ⟨b, found, keeps⟩ := Action.exists_row_of_syncDefinitions keyed row ds
    rw [same]
    exact ⟨b, found, keeps.imp (.sync syncs)⟩

/-- A call that is none of these takes no counts of the row. -/
theorem exists_row_of_call {call : Call} (keyed : s.Keyed) (row : c ∈ s.collections)
    (delete : call ≠ .delete c.id) (update : ∀ ch, call ≠ .update c.id ch)
    (refresh : ∀ ids, call ≠ .refreshCounts ids) (publish : ∀ force, call ≠ .publish c.id force) :
    ∃ b, ((Event.call call).leaves env s).find? c.id = some b ∧
      Collection.KeepsCounts (call.Overrides c.id) c b := by
  apply ((Event.call call).reaches env keyed).keeps_row env keyed row (.refl _ c)
  rintro t u ⟨call', asks, commit⟩
  obtain rfl := eq_of_asks_call asks
  refine ⟨call', commit, delete, ?_⟩
  intro b b' same revises before
  apply before.trans
  rw [← same] at update publish ⊢
  exact revises.keepsCounts update refresh publish

theorem exists_row_of_update (keyed : s.Keyed) (row : c ∈ s.collections) (ch : Changes) :
    ∃ b, ((Event.call (.update c.id ch)).leaves env s).find? c.id = some b ∧
      Collection.KeepsCounts ((Event.call (.update c.id ch)).Rewrites env s c.id) c b := by
  have made : ∀ t u, (∃ call, (Event.call (.update c.id ch)).Asks call ∧ Commit env call t u) →
      ∃ call, Commit env call t u ∧
        ((∃ n, call = .create n) ∨ ∃ id, call = .update id ch) := by
    rintro t u ⟨call, asks, commit⟩
    exact ⟨call, commit, .inr ⟨c.id, eq_of_asks_call asks⟩⟩
  obtain ⟨b, left, rfl | ⟨ch', rfl⟩⟩ :=
    ((Event.call (.update c.id ch)).reaches env keyed).changes_row keyed row made
  · exact ⟨b, left, .refl _ b⟩
  · refine ⟨_, left, (Collection.keepsCounts_change ..).imp ?_⟩
    intro differ
    exact .update (keyed.find?_eq_some row) left differ

/-- What takes the time from the counts of a row: a call about its overrides, or a change of what
its listing depends on. -/
inductive Clears (env : Surroundings) (s : Shelf) (id : String) : Event → Prop where
  | override {call : Call} (overrides : call.Overrides id) : Clears env s id (.call call)
  | inputs {e : Event} (rewrites : e.Rewrites env s id) : Clears env s id e

/-- What an event can make of the counts of a row. -/
inductive Treats (env : Surroundings) (s : Shelf) (e : Event) (c d : Collection) : Prop where
  | keeps (kept : Collection.KeepsCounts (e.Clears env s c.id) c d)
  | takes (cachedAt : d.cachedAt = some env.now) (inputs : ¬ Collection.InputsDiffer c d)
      (taken : e.TakesCounts env s c.id)

theorem treats_refreshed (keyed : s.Keyed) (row : c ∈ s.collections) (asked : e.RefreshesRow c.id)
    (taken : ∀ snapshot, ((Action.refresh c.id).run env s).1 = .ok snapshot →
      Action.refreshed env (env.records s) c = c.store snapshot → e.TakesCounts env s c.id)
    (left : (e.leaves env s).find? c.id = some (Action.refreshed env (env.records s) c)) :
    e.Treats env s c (Action.refreshed env (env.records s) c) := by
  cases stores : Action.takenOf env (env.records s) c with
  | error f =>
    rw [Action.refreshed_of_takenOf_eq_error stores]
    exact .keeps (.refl _ c)
  | ok snapshot =>
    have stored := Action.refreshed_of_takenOf_eq_ok stores
    have time : snapshot.takenAt = env.now := by
      obtain ⟨_, _, _, rfl⟩ := Action.of_takenOf_eq_ok stores
      rfl
    have takes : e.TakesCounts env s c.id := by
      cases outcome : Action.snapshotOf env (env.records s) c with
      | ok answered =>
        have same : answered = snapshot :=
          Except.ok.inj ((Action.takenOf_of_snapshotOf_eq_ok outcome).symm.trans stores)
        apply taken snapshot _ stored
        rw [Action.run_refresh keyed row, outcome, same]
      | error f =>
        obtain ⟨_, l, unread, rfl⟩ := Action.unread_of_snapshotOf_eq_error outcome stores
        exact .unread asked unread (keyed.find?_eq_some row) (stored ▸ left)
    rw [stored]
    exact .takes (congrArg some time) (Collection.not_inputsDiffer_self c) takes

theorem exists_row_of_refreshCounts (keyed : s.Keyed) (row : c ∈ s.collections)
    (ids : Option (List String)) :
    ∃ d, ((Event.call (.refreshCounts ids)).leaves env s).find? c.id = some d ∧
      (Event.call (.refreshCounts ids)).Treats env s c d := by
  have same : (Event.call (.refreshCounts ids)).leaves env s =
      ((Action.refreshCounts ids).run env s).2 := Action.shelf_bind_pure env s _ _
  have found := @Action.find?_refreshCounts env s keyed ids c row
  rw [← same] at found
  rcases found with left | ⟨asked, left⟩
  · exact ⟨c, left, .keeps (.refl _ c)⟩
  · refine ⟨_, left, treats_refreshed keyed row (.batch asked) ?_ left⟩
    intro snapshot taken stored
    exact .batch asked taken (keyed.find?_eq_some row) (stored ▸ left)

theorem find?_refresh (keyed : s.Keyed) (row : c ∈ s.collections) :
    ((Event.refresh c.id).leaves env s).find? c.id =
      some (Action.refreshed env (env.records s) c) := by
  rw [leaves, Action.run_refresh keyed row, Shelf.find?_put, keyed.find?_eq_some row]
  exact congrArg some (if_pos (Action.id_refreshed ..).symm)

theorem exists_row_of_refresh (keyed : s.Keyed) (row : c ∈ s.collections) (id : String) :
    ∃ d, ((Event.refresh id).leaves env s).find? c.id = some d ∧
      (Event.refresh id).Treats env s c d := by
  by_cases other : c.id = id
  · subst other
    have left := @find?_refresh env s c keyed row
    refine ⟨_, left, treats_refreshed keyed row .refresh ?_ left⟩
    intro snapshot taken _
    exact .refresh taken
  · have first : (Event.refresh id).Treats env s c c := .keeps (.refl _ c)
    apply ((Event.refresh id).reaches env keyed).keeps_row env keyed row first
    rintro t u ⟨call, asks, commit⟩
    obtain rfl : call = .refreshCounts (some [id]) := by
      cases asks with
      | refresh => rfl
      | create placed => exact placed.elim
      | update placed => exact placed.elim
    refine ⟨_, commit, nofun, ?_⟩
    intro b b' same revises _
    cases revises with
    | refresh chosen =>
      have asked := chosen [id] rfl (List.cons_ne_nil _ _)
      exact absurd (same.symm.trans (List.mem_singleton.mp asked)) other

theorem exists_row_of_publish (keyed : s.Keyed) (row : c ∈ s.collections) (force : Bool) :
    ∃ d, ((Event.call (.publish c.id force)).leaves env s).find? c.id = some d ∧
      (Event.call (.publish c.id force)).Treats env s c d := by
  rcases find?_publish keyed row force with left | ⟨unpublished, counts, left⟩
  · exact ⟨c, left, .keeps (.refl _ c)⟩
  · have takes := TakesCounts.publish force (keyed.find?_eq_some row) unpublished left
    exact ⟨_, left, .takes rfl (Collection.not_inputsDiffer_self c) takes⟩

/-- Only its deletion ends a row, and of its counts an event makes what its kind of event can. -/
theorem exists_row (keyed : s.Keyed) (row : c ∈ s.collections) (other : e ≠ .call (.delete c.id)) :
    ∃ d, (e.leaves env s).find? c.id = some d ∧ e.Treats env s c d := by
  have kept {P : Prop} (implies : P → e.Clears env s c.id)
      (exists_row : ∃ d, (e.leaves env s).find? c.id = some d ∧ Collection.KeepsCounts P c d) :
      ∃ d, (e.leaves env s).find? c.id = some d ∧ e.Treats env s c d := by
    obtain ⟨d, left, keeps⟩ := exists_row
    exact ⟨d, left, .keeps (keeps.imp implies)⟩
  cases e with
  | call call =>
    by_cases updates : ∃ ch, call = .update c.id ch
    · obtain ⟨ch, rfl⟩ := updates
      exact kept .inputs (exists_row_of_update keyed row ch)
    by_cases refreshes : ∃ ids, call = .refreshCounts ids
    · obtain ⟨ids, rfl⟩ := refreshes
      exact exists_row_of_refreshCounts keyed row ids
    by_cases publishes : ∃ force, call = .publish c.id force
    · obtain ⟨force, rfl⟩ := publishes
      exact exists_row_of_publish keyed row force
    apply kept .override
    apply exists_row_of_call keyed row
    · exact fun same => other (congrArg Event.call same)
    · exact fun ch same => updates ⟨ch, same⟩
    · exact fun ids same => refreshes ⟨ids, same⟩
    · exact fun force same => publishes ⟨force, same⟩
  | refresh id => exact exists_row_of_refresh keyed row id
  | define ds =>
    apply kept .inputs
    exact exists_row_of_sync keyed row (.inr ⟨ds, rfl, rfl⟩)
  | load source =>
    apply kept .inputs
    exact exists_row_of_sync keyed row (Action.shelf_syncSource env s source)
  | startUp source =>
    apply kept .inputs
    apply exists_row_of_sync keyed row
    rw [leaves, Action.shelf_startUp]
    by_cases wanted : env.settings.syncOnStartup = true
    · rw [if_pos wanted]
      rcases Action.shelf_syncSource env s source with same | ⟨ds, yields, same⟩
      · exact .inl same
      · exact .inr ⟨ds, ⟨wanted, yields⟩, same⟩
    · exact .inl (if_neg wanted)

/-- Everything that an event can make of the counts of a row that is there before and after it. -/
theorem treats (keyed : s.Keyed) (row : c ∈ s.collections)
    (still : d ∈ (e.leaves env s).collections) (same : d.id = c.id) : e.Treats env s c d := by
  by_cases deletes : e = .call (.delete c.id)
  · subst deletes
    have old := collections_subset_of_delete keyed d still
    obtain rfl := List.inj_on_of_nodup_map keyed old row same
    exact .keeps (.refl _ d)
  · obtain ⟨b, left, treats⟩ := exists_row keyed row deletes
    have found := (Shelf.keyed_leaves keyed env e).find?_eq_some still
    rw [same, left] at found
    exact Option.some.inj found ▸ treats

/-- Counts that are taken are as old as the event. -/
theorem TakesCounts.cachedAt_eq (taken : e.TakesCounts env s c.id) (keyed : s.Keyed)
    (row : c ∈ s.collections) (left : (e.leaves env s).find? c.id = some d) :
    d.cachedAt = some env.now := by
  have dated {snapshot : Snapshot}
      (taken : ((Action.refresh c.id).run env s).1 = .ok snapshot) :
      Action.refreshed env (env.records s) c = c.store snapshot ∧ snapshot.takenAt = env.now := by
    rw [Action.run_refresh keyed row] at taken
    obtain ⟨l, _, rfl⟩ := Action.of_snapshotOf_eq_ok taken
    exact ⟨Action.refreshed_of_eq_ok taken, rfl⟩
  cases taken with
  | refresh taken =>
    obtain ⟨stored, time⟩ := dated taken
    rw [find?_refresh keyed row, stored] at left
    obtain rfl := Option.some.inj left
    exact congrArg some time
  | batch _ taken _ stored =>
    obtain rfl := Option.some.inj (stored.symm.trans left)
    exact congrArg some (dated taken).2
  | publish force _ _ stored =>
    obtain rfl := Option.some.inj (stored.symm.trans left)
    rfl
  | unread _ _ _ stored =>
    obtain rfl := Option.some.inj (stored.symm.trans left)
    rfl

end Event

/-- The row is there, and its counts have no time. -/
def Shelf.Clear (id : String) (s : Shelf) : Prop := ∃ d, s.find? id = some d ∧ d.cachedAt = none

namespace Action

variable {env : Surroundings} {P : Shelf → Prop} {id : String}

theorem run_override (s : Shelf) (c : Collection) :
    (override c).run env s = (save .database (c.overridden env.now)).run env s := by
  rw [override, run_bind, run_now]

theorem clears_override {α : Type} {d : Collection} (x : α)
    (row : ∀ s, P s → ∃ c, s.find? id = some c ∧ d.id = c.id) :
    Steps env (fun _ _ => True) P (do override d; return x) fun _ t => t.Clear id := by
  refine Steps.bind (T := fun _ t => t.Clear id) ?_ fun _ => Steps.pure fun _ clear => clear
  intro s before
  refine ⟨.single trivial, ?_⟩
  intro u answered
  obtain ⟨c, found, same⟩ := row s before
  obtain ⟨rfl, _⟩ := Shelf.mem_of_find?_eq_some found
  rw [run_override] at answered ⊢
  have stored : ((save .database (d.overridden env.now)).run env s).2 =
      s.put (d.overridden env.now) := of_save_eq_ok (Prod.ext answered rfl)
  rw [stored]
  refine ⟨d.overridden env.now, ?_, rfl⟩
  rw [Shelf.find?_put, found]
  exact congrArg some (if_pos same.symm)

theorem clears_pin (r : PinRequest) :
    Steps env (fun _ _ => True) P (pin id r) fun _ t => t.Clear id :=
  (Steps.require id).bind fun c => (steps_requireRecipes r.ids).bind fun _ =>
    clears_override _ fun _ ⟨⟨_, found⟩, _⟩ => ⟨c, found, rfl⟩

theorem clears_unpin (ids : List String) :
    Steps env (fun _ _ => True) P (unpin id ids) fun _ t => t.Clear id :=
  (Steps.require id).bind fun c => clears_override _ fun _ ⟨_, found⟩ => ⟨c, found, rfl⟩

theorem clears_reorder (ids : List String) :
    Steps env (fun _ _ => True) P (reorder id ids) fun _ t => t.Clear id := by
  refine (Steps.require id).bind fun c => ?_
  dsimp only
  split
  · exact Steps.throw_bind _ _
  · exact clears_override _ fun _ ⟨_, found⟩ => ⟨c, found, rfl⟩

theorem clears_exclude (ids : List String) :
    Steps env (fun _ _ => True) P (exclude id ids) fun _ t => t.Clear id :=
  (Steps.require id).bind fun c => (steps_requireRecipes ids).bind fun _ =>
    clears_override _ fun _ ⟨⟨_, found⟩, _⟩ => ⟨c, found, rfl⟩

theorem clears_unexclude (ids : List String) :
    Steps env (fun _ _ => True) P (unexclude id ids) fun _ t => t.Clear id :=
  (Steps.require id).bind fun c => clears_override _ fun _ ⟨_, found⟩ => ⟨c, found, rfl⟩

/-- An override that is answered has cleared the time of the counts, even if it has changed nothing
else. -/
theorem clears_perform {call : Call} (overrides : call.Overrides id) :
    Steps env (fun _ _ => True) P call.perform fun _ t => t.Clear id := by
  have answered {α : Type} {a : Action α} (json : α → Json)
      (steps : Steps env (fun _ _ => True) P a fun _ t => t.Clear id) :
      Steps env (fun _ _ => True) P (do return json (← a)) fun _ t => t.Clear id :=
    steps.bind fun _ => Steps.pure fun _ clear => clear
  cases call with
  | pin other r => exact answered _ (overrides ▸ clears_pin r)
  | unpin other ids => exact answered _ (overrides ▸ clears_unpin ids)
  | reorder other ids => exact answered _ (overrides ▸ clears_reorder ids)
  | exclude other ids => exact answered _ (overrides ▸ clears_exclude ids)
  | unexclude other ids => exact answered _ (overrides ▸ clears_unexclude ids)
  | _ => exact overrides.elim

end Action

end Cookbook
