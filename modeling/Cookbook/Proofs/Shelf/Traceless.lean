import Cookbook.Proofs.Shelf.Quiet
import Cookbook.Proofs.Shelf.Refreshed

/-!
# Failures without a trace

What callers are told about is found out before anything is committed, so a call that fails in this
way leaves the shelf as it was.  There is one exception: counts are committed, alone or together
with a publication, and when the row cannot be read back afterwards the call fails with them in
place.
-/

namespace Cookbook

namespace Action

variable {α β : Type} {env : Surroundings}

/-- A failure that callers are told about leaves the shelf as it was. -/
def Traceless (env : Surroundings) (a : Action α) : Prop :=
  ∀ s f t, a.run env s = (.error f, t) → f.IsOwn → t = s

namespace Traceless

theorem of_quiet {a : Action α} (quiet : Quiet env a) : Traceless env a :=
  fun s f t failed own => absurd own (quiet s f t failed)

theorem of_reads {a : Action α} {Q : α → Shelf → Prop}
    (reads : Steps env (fun _ _ => False) (fun _ => True) a Q) : Traceless env a := by
  intro s f t failed _
  have same := reads.shelf_eq (s := s) trivial
  rw [failed] at same
  exact same

/-- Up to the end of the reading everything is as it was. -/
theorem reads_bind {a : Action β} {g : β → Action α} {Q : β → Shelf → Prop}
    (reads : Steps env (fun _ _ => False) (fun _ => True) a Q)
    (next : ∀ x s, Q x s → Traceless env (g x)) : Traceless env (a >>= g) := by
  intro s f t failed own
  rcases run_bind_eq_error_iff.mp failed with early | ⟨x, u, ran, late⟩
  · exact of_reads reads s f t early own
  · obtain ⟨rfl, found⟩ := reads.unchanged trivial ran
    exact next x u found u f t late own

/-- Nothing that comes after fails in a way that callers are told about. -/
theorem bind_quiet {a : Action β} {g : β → Action α} (first : Traceless env a)
    (next : ∀ x, Quiet env (g x)) : Traceless env (a >>= g) := by
  intro s f t failed own
  rcases run_bind_eq_error_iff.mp failed with early | ⟨x, u, _, late⟩
  · exact first s f t early own
  · exact absurd own (next x u f t late)

end Traceless

theorem traceless_create (n : NewCollection) : Traceless env (create n) := by
  unfold create
  refine .reads_bind (steps_checkedRules n.rules) fun rules _ _ => ?_
  refine .reads_bind (steps_requireFree n.slug) fun _ _ _ => .of_quiet ?_
  exact Quiet.drawId.bind fun _ => Quiet.now.bind fun _ => (quiet_insert _).bind fun _ => .pure _

theorem traceless_update (id : String) (ch : Changes) : Traceless env (update id ch) := by
  unfold update
  refine .reads_bind (steps_require id) fun c _ _ => ?_
  refine .reads_bind (steps_checkedChanges ch) fun checked _ _ => ?_
  have saved : Quiet env (do
      let d := c.change checked (← now)
      save .database d
      return d) :=
    Quiet.now.bind fun _ => (quiet_save (by decide) _).bind fun _ => .pure _
  dsimp only
  split
  next slug _ =>
    split
    · exact .reads_bind (steps_requireFree slug) fun _ _ _ => .of_quiet saved
    · exact .of_quiet saved
  · exact .of_quiet saved

theorem traceless_delete (id : String) : Traceless env (delete id) := by
  unfold delete
  refine .reads_bind (steps_require id) fun c _ _ => .of_quiet ?_
  refine (Quiet.attempt fun _ => not_isOwn_of_viewed).bind fun shown => ?_
  exact (Quiet.commit (by decide) (by simp)).bind fun _ => .pure _

theorem traceless_pin (id : String) (r : PinRequest) : Traceless env (pin id r) := by
  unfold pin
  refine .reads_bind (steps_require id) fun c _ _ => ?_
  refine .reads_bind (steps_requireRecipes r.ids) fun _ _ _ => .of_quiet ?_
  exact (quiet_override _).bind fun _ => .pure _

theorem traceless_unpin (id : String) (ids : List String) : Traceless env (unpin id ids) := by
  unfold unpin
  refine .reads_bind (steps_require id) fun c _ _ => .of_quiet ?_
  exact (quiet_override _).bind fun _ => .pure _

theorem traceless_reorder (id : String) (ids : List String) :
    Traceless env (reorder id ids) := by
  unfold reorder
  refine .reads_bind (steps_require id) fun c _ _ => ?_
  dsimp only
  split
  · exact .reads_bind (Steps.throw (Q := fun _ _ => False) _) fun _ _ absurd => absurd.elim
  · exact .of_quiet ((quiet_override _).bind fun _ => .pure _)

theorem traceless_exclude (id : String) (ids : List String) :
    Traceless env (exclude id ids) := by
  unfold exclude
  refine .reads_bind (steps_require id) fun c _ _ => ?_
  refine .reads_bind (steps_requireRecipes ids) fun _ _ _ => .of_quiet ?_
  exact (quiet_override _).bind fun _ => .pure _

theorem traceless_unexclude (id : String) (ids : List String) :
    Traceless env (unexclude id ids) := by
  unfold unexclude
  refine .reads_bind (steps_require id) fun c _ _ => .of_quiet ?_
  exact (quiet_override _).bind fun _ => .pure _

theorem traceless_unpublish (id : String) : Traceless env (unpublish id) := by
  unfold unpublish
  refine .reads_bind (steps_require id) fun c _ _ => ?_
  refine .reads_bind (steps_storedAnswer c _ _) fun answer _ _ => .of_quiet ?_
  split
  · exact Quiet.now.bind fun _ => (quiet_save (by decide) _).bind fun _ => .pure _
  · exact .pure _

/-- As long as the row can be read back, the saving fails before anything is committed. -/
theorem traceless_save {failure : Failure} {c : Collection}
    (served : ¬ env.WithholdsCommitted c.id) : Traceless env (save failure c) := by
  intro s f t failed own
  rw [run_save_eq] at failed
  split at failed
  · exact (Prod.mk.inj failed).2.symm
  split at failed
  · rw [run_readBack, if_neg served] at failed
    exact nomatch failed
  · exact (Prod.mk.inj failed).2.symm

theorem traceless_publish {id : String} (served : ¬ env.WithholdsCommitted id) (force : Bool) :
    Traceless env (publish id force) := by
  unfold publish
  refine .reads_bind (steps_require id) fun c s found => ?_
  obtain ⟨_, same, _⟩ := found
  split
  · exact .of_reads (steps_storedAnswer c _ _)
  · refine .reads_bind (steps_liveRead c) fun read _ _ => .reads_bind .now fun t _ _ => ?_
    have served : ¬ env.WithholdsCommitted (c.published read.listing.counts t).id := same ▸ served
    exact (traceless_save served).bind_quiet fun _ => .pure _

section Unread

variable {s t : Shelf} {id : String} {c : Collection} {force : Bool} {f : Failure}

/-- Only a listed row that is published and cannot be read back can leave a trace. -/
theorem shelf_eq_of_publish_eq_error
    (served : ∀ c l, s.find? id = some c → ¬ c.IsPublished →
      s.records.currentListing c = .ok l → ¬ env.WithholdsCommitted id)
    (failed : (publish id force).run env s = (.error f, t)) (own : f.IsOwn) : t = s := by
  cases found : s.find? id with
  | none =>
    unfold publish at failed
    rw [run_bind, run_require, required, found] at failed
    exact (Prod.mk.inj failed).2.symm
  | some c =>
    by_cases published : c.IsPublished
    · have same : ((publish id force).run env s).2 = s :=
        shelf_publish_of_isPublished found published force
      rw [failed] at same
      exact same
    have run := failed
    rw [run_publish_of_not_isPublished found published] at run
    rcases run_bind_eq_error_iff.mp run with early | ⟨read, u, live, _⟩
    · exact Traceless.of_reads (steps_liveRead c) s f t early own
    · obtain ⟨_, listed, _⟩ := of_liveRead_eq_ok live
      exact traceless_publish (served c read.listing found published listed) force s f t failed own

/-- The publication has been committed when the row is not read back. -/
theorem of_publish_eq_error_of_withheld (found : s.find? c.id = some c)
    (unpublished : ¬ c.IsPublished) {l : Listing} (listed : s.records.currentListing c = .ok l)
    (withheld : env.WithholdsCommitted c.id)
    (failed : (publish c.id force).run env s = (.error f, t)) (own : f.IsOwn) : f = snapshotFailure ∧ t = s.put (c.published l.counts env.now) := by
  rw [run_publish_of_not_isPublished found unpublished] at failed
  rcases run_bind_eq_error_iff.mp failed with early | ⟨read, u, live, late⟩
  · rw [run_liveRead, withheld.records_eq, liveReadOf, listed] at early
    rcases Attempt.bind_eq_error_iff.mp (Prod.mk.inj early).1 with unlisted | ⟨_, ⟨⟩, unmeasured⟩
    · cases unlisted
    rcases Attempt.bind_eq_error_iff.mp unmeasured with failure | ⟨_, _, answered⟩
    · exact absurd own (not_isOwn_of_progress failure)
    · cases answered
  obtain ⟨rfl, listed', _⟩ := of_liveRead_eq_ok live
  obtain rfl : l = read.listing := Except.ok.inj (listed.symm.trans listed')
  rcases run_bind_eq_error_iff.mp late with unsaved | ⟨_, v, _, returned⟩
  · rw [run_save_eq, if_neg withheld.outage_ne_commit] at unsaved
    split at unsaved
    · have unread : env.WithholdsCommitted (c.published read.listing.counts env.now).id := withheld
      rw [run_readBack, if_pos unread] at unsaved
      obtain ⟨rfl, rfl⟩ := unsaved
      exact ⟨rfl, rfl⟩
    · obtain ⟨rfl, _⟩ := unsaved
      exact absurd own (by decide)
  · exact nomatch returned

theorem run_refresh_of_find? (found : s.find? id = some c) :
    (refresh id).run env s = (refreshRow c).run env s := by
  rw [refresh, run_bind, run_require_of_find? found]

/-- Only counts that a row is not read back with can leave a trace. -/
theorem shelf_eq_of_refresh_eq_error (read : ∀ c l, s.find? id = some c → ¬ s.Unread env c l)
    (failed : (refresh id).run env s = (.error f, t)) : t = s := by
  cases found : s.find? id with
  | none =>
    unfold refresh at failed
    rw [run_bind, run_require, required, found] at failed
    exact (Prod.mk.inj failed).2.symm
  | some c =>
    rw [run_refresh_of_find? found, run_refreshRow_eq] at failed
    obtain ⟨answer, left⟩ := Prod.mk.inj failed
    rw [takenOf_eq_error_of_read answer fun l => read c l found] at left
    exact left.symm

/-- The counts have been committed when the row is not read back. -/
theorem of_refresh_eq_error_of_unread (found : s.find? id = some c) {l : Listing}
    (unread : s.Unread env c l) (failed : (refresh id).run env s = (.error f, t)) (own : f.IsOwn) :
    f = snapshotFailure ∧ t = s.put (c.store ⟨l.counts, env.now⟩) := by
  rw [run_refresh_of_find? found, run_refreshRow_eq] at failed
  obtain ⟨answer, left⟩ := Prod.mk.inj failed
  by_cases fits : c.FitsColumns
  · have taken := takenOf_of_unread unread fits
    rw [taken] at left
    exact ⟨(unread_of_snapshotOf_eq_error answer taken).1, left.symm⟩
  · have refused : takenOf env (env.records s) c = .error .overflow := by
      rw [takenOf, if_neg unread.readable, unread.withheld.records_eq, unread.listed]
      dsimp only
      rw [if_neg unread.withheld.outage_ne_commit, if_neg fits]
    rw [snapshotOf, refused] at answer
    obtain rfl := Except.error.inj answer
    exact absurd own (by decide)

end Unread

theorem traceless_shown {a : Action Collection} (traceless : Traceless env a) :
    Traceless env (Call.shown a) :=
  traceless.bind_quiet fun _ =>
    (Quiet.attempt fun _ => not_isOwn_of_viewed).bind fun _ => .pure _

end Action

theorem Call.traceless_perform {env : Surroundings} (call : Call)
    (other : ∀ id force, call ≠ .publish id force) : Action.Traceless env call.perform := by
  have answered {α : Type} {a : Action α} (json : α → Json) (traceless : Action.Traceless env a) :
      Action.Traceless env (do return json (← a)) :=
    traceless.bind_quiet fun _ => .pure _
  cases call with
  | list q => exact answered _ (.of_reads (Action.steps_list q))
  | create n => exact Action.traceless_shown (Action.traceless_create n)
  | preview r => exact answered _ (.of_reads (Action.steps_preview r))
  | refreshCounts ids => exact answered _ (.of_quiet (Action.quiet_refreshCounts ids))
  | syncLinked => exact answered _ (.of_quiet Action.quiet_syncLinked)
  | qualified type limit => exact answered _ (.of_reads (Action.steps_qualified type limit))
  | detail id => exact answered _ (.of_reads (Action.steps_detail id))
  | update id changes => exact Action.traceless_shown (Action.traceless_update id changes)
  | delete id => exact answered _ (Action.traceless_delete id)
  | testRules id test => exact answered _ (.of_reads (Action.steps_testRules id test))
  | publish id force => exact absurd rfl (other id force)
  | unpublish id => exact answered _ (Action.traceless_unpublish id)
  | pin id request => exact answered _ (Action.traceless_pin id request)
  | unpin id recipes => exact answered _ (Action.traceless_unpin id recipes)
  | reorder id recipes => exact answered _ (Action.traceless_reorder id recipes)
  | exclude id recipes => exact answered _ (Action.traceless_exclude id recipes)
  | unexclude id recipes => exact answered _ (Action.traceless_unexclude id recipes)

namespace Event

variable {env : Surroundings} {s : Shelf} {e : Event}

/-- A call, or the refresh of one row. -/
inductive IsSingle : Event → Prop where
  | call (c : Call) : IsSingle (.call c)
  | refresh (id : String) : IsSingle (.refresh id)

/-- The event stores this row and cannot read it back. -/
inductive GoesUnread (env : Surroundings) (s : Shelf) : Event → Collection → Prop where
  | publish {c : Collection} {l : Listing} (force : Bool) (row : s.find? c.id = some c)
      (unpublished : ¬ c.IsPublished) (listed : s.records.currentListing c = .ok l)
      (withheld : env.WithholdsCommitted c.id) :
      GoesUnread env s (.call (.publish c.id force)) (c.published l.counts env.now)
  | refresh {c : Collection} {l : Listing} (row : s.find? c.id = some c)
      (unread : s.Unread env c l) :
      GoesUnread env s (.refresh c.id) (c.store ⟨l.counts, env.now⟩)

theorem leaves_eq (e : Event) : e.leaves env s = (e.perform.run env s).2 := by
  cases e with
  | call c => rfl
  | refresh id => exact (Action.shelf_bind_pure env s _ _).symm
  | define ds => exact (Action.shelf_bind_pure env s _ _).symm
  | load source => exact (Action.shelf_bind_pure env s _ _).symm
  | startUp source => exact (Action.shelf_bind_pure env s _ _).symm

/-- Only an event that stores what it cannot read back leaves a trace. -/
theorem shelf_eq_of_perform_eq_error (single : e.IsSingle) (read : ∀ d, ¬ e.GoesUnread env s d)
    {f : Failure} {t : Shelf} (failed : e.perform.run env s = (.error f, t)) (own : f.IsOwn) :
    t = s := by
  cases single with
  | call call =>
    by_cases publishes : ∃ id force, call = .publish id force
    · obtain ⟨id, force, rfl⟩ := publishes
      rcases Action.run_bind_eq_error_iff.mp failed with early | ⟨_, _, _, returned⟩
      · refine Action.shelf_eq_of_publish_eq_error ?_ early own
        intro c l found unpublished listed withheld
        obtain ⟨rfl, _⟩ := Shelf.mem_of_find?_eq_some found
        exact read _ (.publish force found unpublished listed withheld)
      · exact nomatch returned
    · have other : ∀ id force, call ≠ .publish id force :=
        fun id force same => publishes ⟨id, force, same⟩
      exact call.traceless_perform other s f t failed own
  | refresh id =>
    rcases Action.run_bind_eq_error_iff.mp failed with early | ⟨_, _, _, returned⟩
    · refine Action.shelf_eq_of_refresh_eq_error ?_ early
      intro c l found unread
      obtain ⟨rfl, _⟩ := Shelf.mem_of_find?_eq_some found
      exact read _ (.refresh found unread)
    · exact nomatch returned

theorem of_perform_eq_error_of_goesUnread {d : Collection} (unread : e.GoesUnread env s d)
    {f : Failure} {t : Shelf} (failed : e.perform.run env s = (.error f, t)) (own : f.IsOwn) :
    f = Action.snapshotFailure ∧ t = s.put d := by
  cases unread with
  | publish force row unpublished listed withheld =>
    rcases Action.run_bind_eq_error_iff.mp failed with early | ⟨_, _, _, returned⟩
    · exact Action.of_publish_eq_error_of_withheld row unpublished listed withheld early own
    · exact nomatch returned
  | refresh row unread =>
    rcases Action.run_bind_eq_error_iff.mp failed with early | ⟨_, _, _, returned⟩
    · exact Action.of_refresh_eq_error_of_unread row unread early own
    · exact nomatch returned

/-- A call or the refresh of one row that fails in a way that callers are told about fails in this
way in a session with nothing pending too.  It leaves nothing pending and the shelf as it was, and
the session answers whatever comes later as if nothing had been asked.  A row that is published or
refreshed and stays unread is the only exception, and always one: it is reported as not written and
stored all the same. -/
theorem failure_leaves_no_trace (single : e.IsSingle) {f : Failure} (own : f.IsOwn)
    (failed : (e.perform.run env s).1 = .error f) :
    ∃ σ, e.work.run env (.of s) = (.error f, σ) ∧ σ.stored = e.leaves env s ∧
      ((∀ d, ¬ e.GoesUnread env s d) → σ = .of s ∧
        ∀ later, σ.answers later = (Session.of s).answers later) ∧
      ∀ d, e.GoesUnread env s d → f = Action.snapshotFailure ∧ σ = .of (s.put d) := by
  have run : e.perform.run env s = (.error f, e.leaves env s) := by
    rw [leaves_eq]
    exact Prod.ext failed rfl
  have follows : Work.Follows env e.work e.perform := e.follows_work
  have agrees := follows s
  rw [run] at agrees
  refine ⟨.of (e.leaves env s), agrees.eq_of_isOwn own, rfl, ?_, ?_⟩
  · intro read
    have same := shelf_eq_of_perform_eq_error single read run own
    rw [same]
    exact ⟨rfl, fun _ => rfl⟩
  · intro d unread
    obtain ⟨reported, left⟩ := of_perform_eq_error_of_goesUnread unread run own
    rw [left]
    exact ⟨reported, rfl⟩

/-- No row is read again. -/
def blinded (now : Int) : Surroundings := ⟨.standard, ⟨now⟩, some (.reload none)⟩

/-- No row is read back once it is committed. -/
def unseeing (now : Int) : Surroundings := ⟨.standard, ⟨now⟩, some (.reread none)⟩

def issuing : Event := .call (.publish "t" false)

def recounting : Event := .refresh "t"

def withdrawing : Event := .call (.unpublish "t")

def reordering : Event := .call (.reorder "t" ["b"])

theorem trattoria_listed : ∃ l, l.counts = ⟨1, 1, 0, 0⟩ ∧
    Shelf.trattorie.records.currentListing .trattoria = .ok l := by
  have counted : (Shelf.trattorie.records.currentListing .trattoria).map Listing.counts =
      .ok ⟨1, 1, 0, 0⟩ := by decide +kernel
  obtain ⟨l, listed, counts⟩ := Attempt.map_eq_ok_iff.mp counted
  exact ⟨l, counts, listed⟩

theorem failure_leaves_no_trace_trattorie :
    (∃ f σ, f.IsOwn ∧ reordering.work.run (blinded 1) (.of .trattorie) = (.error f, σ) ∧
      σ = .of .trattorie ∧ σ.answers [(.standard 2, withdrawing)] =
        (Session.of .trattorie).answers [(.standard 2, withdrawing)]) ∧
    (∃ σ, issuing.work.run (blinded 1) (.of .trattorie) = (.error Action.snapshotFailure, σ) ∧
      σ.stored = Shelf.trattorie.put (Collection.trattoria.published ⟨1, 1, 0, 0⟩ ⟨1⟩)) ∧
    ∃ σ, recounting.work.run (unseeing 1) (.of .trattorie) =
        (.error Action.snapshotFailure, σ) ∧
      σ.stored = Shelf.trattorie.put (Collection.trattoria.store ⟨⟨1, 1, 0, 0⟩, ⟨1⟩⟩) := by
  have refused : (reordering.perform.run (blinded 1) .trattorie).1 = .error (.badOverride
      "Reordering cannot add or remove pinned recipes; use pin/unpin instead") := by decide +kernel
  have unwritten : (issuing.perform.run (blinded 1) .trattorie).1 =
      .error Action.snapshotFailure := by decide +kernel
  have uncounted : (recounting.perform.run (unseeing 1) .trattorie).1 =
      .error Action.snapshotFailure := by decide +kernel
  obtain ⟨l, counts, listed⟩ := trattoria_listed
  refine ⟨?_, ?_, ?_⟩
  · obtain ⟨σ, run, _, traceless, _⟩ :=
      failure_leaves_no_trace (.call _) (by exact trivial) refused
    obtain ⟨same, later⟩ := traceless fun d unread => nomatch unread
    exact ⟨.badOverride _, σ, trivial, run, same, later _⟩
  · obtain ⟨σ, run, _, _, trace⟩ :=
      failure_leaves_no_trace (.call _) (by exact trivial) unwritten
    obtain ⟨_, published⟩ :=
      trace _ (.publish (c := .trattoria) false (by decide) (by decide) listed (by decide))
    refine ⟨σ, run, ?_⟩
    rw [published, counts]
    rfl
  · obtain ⟨σ, run, _, _, trace⟩ :=
      failure_leaves_no_trace (.refresh _) (by exact trivial) uncounted
    obtain ⟨_, stored⟩ :=
      trace _ (.refresh (c := .trattoria) (by decide) ⟨listed, by decide, by decide⟩)
    refine ⟨σ, run, ?_⟩
    rw [stored, counts]
    rfl

/-- What is reported as not written has been stored: a publication, which the next request finds,
and the counts of a refresh. -/
theorem unread_publication_stays :
    (∃ f, f.IsOwn ∧ (issuing.perform.run (blinded 1) .trattorie).1 = .error f ∧
      issuing.leaves (blinded 1) .trattorie ≠ .trattorie ∧
      (issuing.work.run (blinded 1) (.of .trattorie)).2.answers [(.standard 2, withdrawing)] ≠
        (Session.of .trattorie).answers [(.standard 2, withdrawing)]) ∧
    ∃ f, f.IsOwn ∧ (recounting.perform.run (unseeing 1) .trattorie).1 = .error f ∧
      recounting.leaves (unseeing 1) .trattorie ≠ .trattorie := by
  constructor
  · refine ⟨Action.snapshotFailure, trivial, by decide +kernel, by decide +kernel, ?_⟩
    decide +kernel
  · exact ⟨Action.snapshotFailure, trivial, by decide +kernel, by decide +kernel⟩

end Event

end Cookbook
