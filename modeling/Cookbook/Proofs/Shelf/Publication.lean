import Cookbook.Proofs.Shelf.Snapshots

/-!
# The life of a publication

A row carries the time at which it was first published.  Only publishing sets that time, and nothing
clears or moves it as long as the row exists, however the state of the row goes back and forth.
-/

namespace Cookbook

namespace Action

variable {env : Surroundings} {s t : Shelf} {id : String} {c : Collection}

theorem run_require_of_find? (found : s.find? id = some c) :
    (require id).run env s = (.ok c, s) := by
  rw [run_require, required, found]

theorem shelf_storedAnswer (c : Collection) (published : Bool) (message : String) :
    ((storedAnswer c published message).run env s).2 = s :=
  (steps_storedAnswer c published message).shelf_eq (P := fun _ => True) trivial

/-- A published row is not published again. -/
theorem shelf_publish_of_isPublished (found : s.find? id = some c) (published : c.IsPublished)
    (force : Bool) : ((publish id force).run env s).2 = s := by
  unfold publish
  rw [run_bind, run_require_of_find? found]
  dsimp only
  rw [if_pos published]
  exact shelf_storedAnswer c _ _

theorem shelf_unpublish_of_not_isPublished (found : s.find? id = some c)
    (unpublished : ¬ c.IsPublished) : ((unpublish id).run env s).2 = s := by
  have same : ((storedAnswer c false "Collection is not published").run env s).2 = s :=
    shelf_storedAnswer c _ _
  unfold unpublish
  rw [run_bind, run_require_of_find? found]
  dsimp only
  rw [run_bind]
  generalize (storedAnswer c false "Collection is not published").run env s = outcome at same
  obtain ⟨answer, u⟩ := outcome
  cases answer with
  | ok a =>
    dsimp only
    rw [if_neg unpublished]
    exact same
  | error f => exact same

/-- What a publication answers. -/
def publication (c : Collection) (read : LiveRead) (force : Bool) : PublishAnswer :=
  ⟨true, Status.published, read.progress, read.listing.counts.published, c.minRequired,
    "Collection published", if read.progress.qualified || force then none
      else some (shortageText read.listing.counts.published c.minRequired)⟩

theorem run_publish_of_not_isPublished (found : s.find? id = some c)
    (unpublished : ¬ c.IsPublished) (force : Bool) :
    (publish id force).run env s = (do
      let read ← liveRead c
      save snapshotFailure (c.published read.listing.counts env.now)
      return publication c read force : Action PublishAnswer).run env s := by
  unfold publish
  rw [run_bind, run_require_of_find? found]
  dsimp only
  rw [if_neg unpublished]
  simp only [run_bind, run_now, publication]

theorem of_liveRead_eq_ok {read : LiveRead} (live : (liveRead c).run env s = (.ok read, t)) :
    t = s ∧ s.records.currentListing c = .ok read.listing ∧
      Progress.of read.listing.counts c.minRequired c.targetCount env.settings.nearThreshold =
        .ok read.progress := by
  rw [run_liveRead] at live
  obtain ⟨answered, rfl⟩ := Prod.mk.inj live
  have restored : (env.records s).restored = s.records := rfl
  have extended := liveReadOf_extends (env.records s) env.settings c read answered
  rw [restored] at extended
  exact ⟨rfl, liveReadOf_eq_ok_iff.mp extended⟩

/-- However it ends, the publication of a row stores all of it or nothing. -/
theorem shelf_publish_of_not_isPublished (found : s.find? id = some c)
    (unpublished : ¬ c.IsPublished) (force : Bool) :
    ((publish id force).run env s).2 = s ∨ ∃ counts,
      ((publish id force).run env s).2 = s.put (c.published counts env.now) := by
  rw [run_publish_of_not_isPublished found unpublished, run_bind, run_liveRead]
  cases liveReadOf (env.records s) env.settings c with
  | error f => exact .inl rfl
  | ok read =>
    dsimp only
    rw [run_bind, run_save_eq]
    by_cases down : env.outage = some .commit
    · rw [if_pos down]
      exact .inl rfl
    by_cases fits : (c.published read.listing.counts env.now).FitsColumns
    · rw [if_neg down, if_pos fits]
      refine .inr ⟨read.listing.counts, ?_⟩
      generalize ((readBack snapshotFailure _).run env s).1 = seen
      cases seen <;> rfl
    · rw [if_neg down, if_neg fits]
      exact .inl rfl

theorem of_publish_eq_ok (found : s.find? id = some c) (unpublished : ¬ c.IsPublished)
    {force : Bool} {a : PublishAnswer} (answered : (publish id force).run env s = (.ok a, t)) :
    ∃ read : LiveRead, s.records.currentListing c = .ok read.listing ∧
      Progress.of read.listing.counts c.minRequired c.targetCount env.settings.nearThreshold =
        .ok read.progress ∧
      t = s.put (c.published read.listing.counts env.now) ∧ a = publication c read force := by
  rw [run_publish_of_not_isPublished found unpublished] at answered
  obtain ⟨read, u, live, stored⟩ := run_bind_eq_ok_iff.mp answered
  obtain ⟨rfl, listed, measured⟩ := of_liveRead_eq_ok live
  obtain ⟨_, v, saved, returned⟩ := run_bind_eq_ok_iff.mp stored
  obtain rfl := of_save_eq_ok saved
  obtain ⟨answer, rfl⟩ := Prod.mk.inj returned
  exact ⟨read, listed, measured, rfl, (Except.ok.inj answer).symm⟩

theorem of_unpublish_eq_ok (found : s.find? id = some c) (published : c.IsPublished)
    {a : PublishAnswer} (answered : (unpublish id).run env s = (.ok a, t)) :
    t = s.put (c.unpublished env.now) := by
  unfold unpublish at answered
  rw [run_bind, run_require_of_find? found] at answered
  obtain ⟨stored, u, read, changed⟩ := run_bind_eq_ok_iff.mp answered
  have same : ((storedAnswer c false "Collection is not published").run env s).2 = s :=
    shelf_storedAnswer c _ _
  rw [read] at same
  obtain rfl : s = u := same.symm
  rw [if_pos published, run_bind, run_now] at changed
  obtain ⟨_, v, saved, returned⟩ := run_bind_eq_ok_iff.mp changed
  obtain rfl := of_save_eq_ok saved
  exact (Prod.mk.inj returned).2.symm

end Action

/-- Nothing but publishing touches the time of the publication. -/
theorem Revises.publishedAt_eq {s : Shelf} {now : Instant} {c d : Collection} {call : Call}
    (revises : Revises s now c call d) (other : ∀ force, call ≠ .publish c.id force) :
    d.publishedAt = c.publishedAt := by
  cases revises with
  | update =>
    unfold Collection.change
    dsimp only
    split <;> rfl
  | publish force => exact absurd rfl (other force)
  | _ => rfl

namespace Event

variable {env : Surroundings} {s : Shelf} {e : Event} {id : String} {c d : Collection}

/-- The event is no publication of this row, and so none of its commits is. -/
theorem not_asks_publish (other : ∀ force, e ≠ .call (.publish id force)) {call : Call}
    (asks : e.Asks call) (force : Bool) : call ≠ .publish id force := by
  rintro rfl
  cases asks with
  | call => exact other force rfl

/-- A row that is new starts without a time, and no event but its publication gives it one. -/
theorem publishedAt_eq_none_of_new (keyed : s.Keyed) (new : s.find? id = none)
    (other : ∀ force, e ≠ .call (.publish id force))
    (found : (e.leaves env s).find? id = some d) : d.publishedAt = none := by
  have kept : ∀ c ∈ (e.leaves env s).collections, c.id = id → c.publishedAt = none := by
    refine (e.reaches env keyed).keeps
      (I := fun t => ∀ c ∈ t.collections, c.id = id → c.publishedAt = none) ?_ ?_
    · rintro t u ⟨call, asks, commit⟩ before c row same
      cases commit.arises row with
      | kept old => exact before c old same
      | created => rfl
      | linked => rfl
      | @revised _ b _ old revises =>
        have from_b : b.id = id := revises.id_eq.symm.trans same
        rw [revises.publishedAt_eq (from_b ▸ not_asks_publish other asks)]
        exact before b old from_b
    · intro c row same
      have among := keyed.find?_eq_some row
      rw [same, new] at among
      cases among
  obtain ⟨same, row⟩ := Shelf.mem_of_find?_eq_some found
  exact kept d row same

/-- A deletion leaves the rows that it leaves as they are. -/
theorem collections_subset_of_delete (keyed : s.Keyed) :
    ∀ c ∈ ((Event.call (.delete id)).leaves env s).collections, c ∈ s.collections := by
  refine ((Event.call (.delete id)).reaches env keyed).keeps
    (I := fun t => ∀ c ∈ t.collections, c ∈ s.collections) ?_ fun _ row => row
  rintro t u ⟨call, asks, commit⟩ before c row
  cases asks with
  | create placed => exact placed.elim
  | update placed => exact placed.elim
  | call =>
    cases commit.arises row with
    | kept old => exact before c old
    | revised _ revises => cases revises

theorem publishedAt_eq_of_find? (keyed : s.Keyed) (other : ∀ force, e ≠ .call (.publish id force))
    (found : s.find? id = some c) (still : (e.leaves env s).find? id = some d) :
    d.publishedAt = c.publishedAt := by
  obtain ⟨rfl, row⟩ := Shelf.mem_of_find?_eq_some found
  obtain ⟨stays, member⟩ := Shelf.mem_of_find?_eq_some still
  by_cases deleted : e = .call (.delete c.id)
  · subst deleted
    have old := collections_subset_of_delete keyed d member
    have equal := List.inj_on_of_nodup_map keyed old row stays
    rw [equal]
  have continued : ∃ b, (e.leaves env s).find? c.id = some b ∧ b.publishedAt = c.publishedAt := by
    refine (e.reaches env keyed).keeps_row env keyed row rfl ?_
    rintro t u ⟨call, asks, commit⟩
    refine ⟨call, commit, ?_, fun b b' same revises time => ?_⟩
    · rintro rfl
      cases asks with
      | call => exact deleted rfl
    · rw [revises.publishedAt_eq (same ▸ not_asks_publish other asks), time]
  obtain ⟨b, left, time⟩ := continued
  rw [Option.some.inj (still.symm.trans left), time]

theorem leaves_publish (force : Bool) : (Event.call (.publish id force)).leaves env s =
    ((Action.publish id force).run env s).2 :=
  Action.shelf_bind_pure env s PublishAnswer.toJson (Action.publish id force)

/-- A row is only published when it was not, and then with counts of its own. -/
theorem find?_publish (keyed : s.Keyed) (row : c ∈ s.collections) (force : Bool) :
    ((Event.call (.publish c.id force)).leaves env s).find? c.id = some c ∨
      ¬ c.IsPublished ∧ ∃ counts, ((Event.call (.publish c.id force)).leaves env s).find? c.id =
        some (c.published counts env.now) := by
  have found := keyed.find?_eq_some row
  rw [leaves_publish]
  by_cases published : c.IsPublished
  · rw [Action.shelf_publish_of_isPublished found published]
    exact .inl found
  obtain same | ⟨counts, stored⟩ := Action.shelf_publish_of_not_isPublished found published force
  · rw [same]
    exact .inl found
  · refine .inr ⟨published, counts, ?_⟩
    rw [stored, Shelf.find?_put, found]
    exact congrArg some (if_pos rfl)

/-- The first publication of a row. -/
structure Publishes (env : Surroundings) (s : Shelf) (e : Event) (id : String) (time : Instant) :
    Prop where
  event : ∃ force, e = .call (.publish id force)
  row : ∃ c, s.find? id = some c ∧ ¬ c.IsPublished ∧ c.publishedAt = none
  time : time = env.now

/-- An event leaves the time of a row as it is, unless it is the first publication of the row. -/
theorem publishedAt_cases (keyed : s.Keyed) (found : s.find? id = some c)
    (still : (e.leaves env s).find? id = some d) :
    d.publishedAt = c.publishedAt ∨
      d.publishedAt = some env.now ∧ Publishes env s e id env.now := by
  by_cases publishes : ∃ force, e = .call (.publish id force)
  · obtain ⟨force, rfl⟩ := publishes
    obtain ⟨rfl, row⟩ := Shelf.mem_of_find?_eq_some found
    rcases find?_publish keyed row force with same | ⟨unpublished, counts, stored⟩
    · left
      rw [Option.some.inj (still.symm.trans same)]
    obtain rfl := Option.some.inj (still.symm.trans stored)
    cases time : c.publishedAt with
    | none =>
      right
      constructor
      · simp [Collection.published, time]
      · exact ⟨⟨force, rfl⟩, ⟨c, found, unpublished, time⟩, rfl⟩
    | some t => exact .inl (by simp [Collection.published, time])
  · left
    apply publishedAt_eq_of_find? keyed _ found still
    intro force same
    exact publishes ⟨force, same⟩

/-- A time of publication is as it was before the event, unless the event has set it. -/
theorem publishedAt_of_find? (keyed : s.Keyed) (still : (e.leaves env s).find? id = some d)
    {time : Instant} (published : d.publishedAt = some time) :
    (∃ c, s.find? id = some c ∧ c.publishedAt = some time) ∨ Publishes env s e id time := by
  cases found : s.find? id with
  | none =>
    have absent : ∀ force, e ≠ .call (.publish id force) := by
      rintro force rfl
      have missing : ((Action.publish id force).run env s).2 = s := by
        unfold Action.publish
        rw [Action.run_bind, Action.run_require, Action.required, found]
      rw [leaves_publish, missing, found] at still
      cases still
    rw [publishedAt_eq_none_of_new keyed found absent still] at published
    cases published
  | some c =>
    rcases publishedAt_cases keyed found still with kept | ⟨set, publishes⟩
    · exact .inl ⟨c, rfl, kept.symm.trans published⟩
    · right
      obtain rfl := Option.some.inj (set.symm.trans published)
      exact publishes

end Event

namespace Shelf

variable {id : String}

/-- The row is there before and after every event. -/
def Persists (id : String) : Shelf → List (Surroundings × Event) → Prop
  | s, [] => (s.find? id).isSome
  | s, e :: rest => (s.find? id).isSome ∧ Persists id (e.2.leaves e.1 s) rest

instance decidablePersists (id : String) :
    (s : Shelf) → (events : List (Surroundings × Event)) → Decidable (Persists id s events)
  | s, [] => inferInstanceAs (Decidable ((s.find? id).isSome = true))
  | s, e :: rest =>
    have := decidablePersists id (e.2.leaves e.1 s) rest
    inferInstanceAs (Decidable ((s.find? id).isSome = true ∧ Persists id (e.2.leaves e.1 s) rest))

theorem Persists.isSome {s : Shelf} {events : List (Surroundings × Event)}
    (persists : Persists id s events) : (s.find? id).isSome := by
  cases events with
  | nil => exact persists
  | cons e rest => exact persists.1

/-- A time of publication stays through every run that does not end the row. -/
theorem publishedAt_after {s : Shelf} (keyed : s.Keyed) {events : List (Surroundings × Event)}
    (persists : Persists id s events) {c d : Collection} (found : s.find? id = some c)
    (still : (s.after events).find? id = some d) {time : Instant}
    (published : c.publishedAt = some time) : d.publishedAt = some time := by
  induction events generalizing s c with
  | nil =>
    obtain rfl := Option.some.inj (found.symm.trans still)
    exact published
  | cons e rest ih =>
    obtain ⟨b, between⟩ := Option.isSome_iff_exists.mp persists.2.isSome
    apply ih (keyed_leaves keyed e.1 e.2) persists.2 between still
    rcases Event.publishedAt_cases keyed found between with kept | ⟨_, publishes⟩
    · rw [kept, published]
    · obtain ⟨b, found', _, unset⟩ := publishes.row
      obtain rfl := Option.some.inj (found.symm.trans found')
      rw [published] at unset
      cases unset

/-- Somewhere in the run the row is published for the first time. -/
def PublishedWithin (s : Shelf) (events : List (Surroundings × Event)) (id : String)
    (time : Instant) : Prop :=
  ∃ before env e rest, events = before ++ (env, e) :: rest ∧
    Event.Publishes env (s.after before) e id time

/-- Every time of publication was there from the start or comes from a publication. -/
theorem publishedAt_origin {s : Shelf} (keyed : s.Keyed) {events : List (Surroundings × Event)}
    {d : Collection} (found : (s.after events).find? id = some d) {time : Instant}
    (published : d.publishedAt = some time) :
    (∃ c, s.find? id = some c ∧ c.publishedAt = some time) ∨ s.PublishedWithin events id time := by
  induction events generalizing s with
  | nil => exact .inl ⟨d, found, published⟩
  | cons e rest ih =>
    rcases ih (keyed_leaves keyed e.1 e.2) found with ⟨b, between, set⟩ | within
    · rcases Event.publishedAt_of_find? keyed between set with old | publishes
      · exact .inl old
      · exact .inr ⟨[], e.1, e.2, rest, rfl, publishes⟩
    · obtain ⟨before, env, f, after, rfl, publishes⟩ := within
      exact .inr ⟨e :: before, env, f, after, rfl, publishes⟩

end Shelf

/-- After any run of events, a row that was there all along still has its time of publication if it
had one, and every time of publication comes from the first publication of its row.  To publish a
published row or to withdraw another one changes nothing.  A publication that is answered stores the
counts of the listing as it is now and says of them what it answers; a withdrawal that is answered
stores the state of a draft.  Neither changes anything else. -/
theorem Shelf.publication_lifecycle {s : Shelf} (keyed : s.Keyed)
    (events : List (Surroundings × Event)) (id : String) :
    (Persists id s events → ∀ c d, s.find? id = some c → (s.after events).find? id = some d →
      ∀ time, c.publishedAt = some time → d.publishedAt = some time) ∧
    (∀ d, (s.after events).find? id = some d → ∀ time, d.publishedAt = some time →
      (∃ c, s.find? id = some c ∧ c.publishedAt = some time) ∨
        s.PublishedWithin events id time) ∧
    ∀ env c, (s.after events).find? id = some c →
      (c.IsPublished →
        (∀ force, ((Action.publish id force).run env (s.after events)).2 = s.after events) ∧
        ∀ a t, (Action.unpublish id).run env (s.after events) = (.ok a, t) →
          t = (s.after events).put { c with status := Status.draft, updatedAt := env.now }) ∧
      (¬ c.IsPublished →
        ((Action.unpublish id).run env (s.after events)).2 = s.after events ∧
        ∀ force a t, (Action.publish id force).run env (s.after events) = (.ok a, t) →
          ∃ l, (s.after events).records.currentListing c = .ok l ∧
            t = (s.after events).put { c with
              status := Status.published
              publishedAt := some (c.publishedAt.getD env.now)
              cached := l.counts
              cachedAt := some env.now
              updatedAt := env.now } ∧
            a.publishedCount = l.counts.published ∧
            a.progress.qualified = decide (c.minRequired ≤ l.counts.published) ∧
            (a.warning ≠ none ↔ l.counts.published < c.minRequired ∧ force = false)) := by
  refine ⟨?stays, ?origin, ?calls⟩
  case stays =>
    intro persists c d found still time published
    exact publishedAt_after keyed persists found still published
  case origin =>
    intro d found time published
    exact publishedAt_origin keyed found published
  case calls =>
    intro env c found
    constructor
    · intro published
      refine ⟨Action.shelf_publish_of_isPublished found published, ?_⟩
      intro a t answered
      exact Action.of_unpublish_eq_ok found published answered
    · intro unpublished
      refine ⟨Action.shelf_unpublish_of_not_isPublished found unpublished, ?_⟩
      intro force a t answered
      obtain ⟨read, listed, measured, stored, rfl⟩ :=
        Action.of_publish_eq_ok found unpublished answered
      have qualified := (Progress.of_of_eq_ok measured).2.1
      refine ⟨read.listing, listed, stored, rfl, qualified, ?_⟩
      cases force <;> simp [Action.publication, qualified]

namespace Shelf

def issued : List (Surroundings × Event) := [(.standard 1, .call (.publish "t" false))]

def moreRequired : Changes :=
  ⟨none, none, none, some Status.archived, none, none, none, none, none, none, none, none, some 2,
    none, none⟩

/-- Withdrawn, and archived with a greater minimum. -/
def retired : List (Surroundings × Event) :=
  [(.standard 2, .call (.unpublish "t")), (.standard 3, .call (.update "t" moreRequired))]

theorem publication_lifecycle_retired :
    trattorie.Keyed ∧ Persists "t" (trattorie.after issued) retired ∧
    trattorie.PublishedWithin issued "t" ⟨1⟩ ∧
    ∃ d a t, ((trattorie.after issued).after retired).find? "t" = some d ∧ ¬ d.IsPublished ∧
      d.publishedAt = some ⟨1⟩ ∧
      (Action.publish "t" false).run (.standard 4) ((trattorie.after issued).after retired) =
        (.ok a, t) ∧
      t = ((trattorie.after issued).after retired).put { d with
        status := Status.published
        cached := ⟨1, 1, 0, 0⟩
        cachedAt := some ⟨4⟩
        updatedAt := ⟨4⟩ } ∧
      a.publishedCount = 1 ∧ a.warning ≠ none := by
  have keyed : trattorie.Keyed := by decide
  have reached : (trattorie.after issued).Keyed := keyed_after keyed issued
  have persists : Persists "t" (trattorie.after issued) retired := by decide +kernel
  have first : ((trattorie.after issued).find? "t").map Collection.publishedAt =
      some (some ⟨1⟩) := by decide +kernel
  have last : (((trattorie.after issued).after retired).find? "t").map
      (fun c => (c.status, c.minRequired)) = some (Status.archived, 2) := by decide +kernel
  have counted : (((trattorie.after issued).after retired).find? "t").map
      (fun c => ((((trattorie.after issued).after retired).records.currentListing c).map
        Listing.counts)) = some (.ok ⟨1, 1, 0, 0⟩) := by decide +kernel
  have answers : ((Action.publish "t" false).run (.standard 4)
      ((trattorie.after issued).after retired)).1.map PublishAnswer.published = .ok true := by
    decide +kernel
  obtain ⟨c, found, published⟩ := Option.map_eq_some_iff.mp first
  obtain ⟨d, still, facts⟩ := Option.map_eq_some_iff.mp last
  obtain ⟨archived, required⟩ := Prod.mk.inj facts
  obtain ⟨a, answered, _⟩ := Attempt.map_eq_ok_iff.mp answers
  obtain ⟨_, origin, _⟩ := publication_lifecycle keyed issued "t"
  obtain ⟨stays, _, calls⟩ := publication_lifecycle reached retired "t"
  have within : trattorie.PublishedWithin issued "t" ⟨1⟩ := by
    rcases origin c found ⟨1⟩ published with ⟨b, early, unset⟩ | within
    · have draft : (trattorie.find? "t").map Collection.publishedAt = some none := by decide
      rw [early, Option.map_some, unset] at draft
      cases draft
    · exact within
  have unpublished : ¬ d.IsPublished := by
    intro equal
    rw [Collection.IsPublished, archived] at equal
    exact absurd equal (by decide)
  have since : d.publishedAt = some ⟨1⟩ := stays persists c d found still ⟨1⟩ published
  obtain ⟨_, publishes⟩ := (calls (.standard 4) d still).2 unpublished
  obtain ⟨l, listed, stored, count, _, warned⟩ := publishes false a _ (Prod.ext answered rfl)
  have counts : l.counts = ⟨1, 1, 0, 0⟩ := by
    rw [still, Option.map_some, listed] at counted
    exact Except.ok.inj (Option.some.inj counted)
  refine ⟨keyed, persists, within, d, a, _, still, unpublished, since, Prod.ext answered rfl, ?_,
    ?_, ?_⟩
  · rw [stored, counts, since]
    rfl
  · rw [count, counts]
  · rw [warned, counts, required]
    decide

end Shelf

end Cookbook
