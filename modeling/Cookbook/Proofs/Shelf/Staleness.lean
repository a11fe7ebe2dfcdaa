import Cookbook.Proofs.Shelf.Rows

/-!
# How counts become stale and fresh again

Between the events of a run the clock goes on.  A list shows a row as stale when its counts have no
time or when that time is too long ago.  A turn of the run is an event or a step of the clock, and
only some turns can change what the list shows of the counts and of their age.
-/

namespace Cookbook

namespace Collection

/-- The counts have a time, and it is not longer ago than the time to live. -/
def FreshAt (ttl : Int) (now : Instant) (c : Collection) : Prop :=
  ∃ t ∈ c.cachedAt, t.elapsed now ≤ ttl * Instant.microsPerSecond

variable {c : Collection} {ttl : Int} {now : Instant}

theorem FreshAt.of_later {n : Nat} (fresh : c.FreshAt ttl (now.addMicros n)) :
    c.FreshAt ttl now := by
  obtain ⟨t, taken, within⟩ := fresh
  refine ⟨t, taken, ?_⟩
  simp only [Instant.elapsed, Instant.addMicros] at within ⊢
  omega

theorem freshAt_of_cachedAt_eq_now (positive : 0 < ttl) (taken : c.cachedAt = some now) :
    c.FreshAt ttl now := by
  refine ⟨now, taken, ?_⟩
  simp only [Instant.elapsed, Instant.microsPerSecond]
  omega

theorem not_freshAt_of_cachedAt_eq_none (cleared : c.cachedAt = none) : ¬ c.FreshAt ttl now := by
  rintro ⟨t, taken, _⟩
  rw [cleared] at taken
  cases taken

variable {P : Prop} {d : Collection}

theorem KeepsCounts.freshAt (keeps : KeepsCounts P c d) (fresh : d.FreshAt ttl now) :
    c.FreshAt ttl now := by
  rcases keeps.cachedAt with ⟨same, _⟩ | ⟨cleared, _⟩
  · rwa [FreshAt, same] at fresh
  · exact absurd fresh (not_freshAt_of_cachedAt_eq_none cleared)

theorem KeepsCounts.of_not_freshAt (keeps : KeepsCounts P c d) (fresh : c.FreshAt ttl now)
    (stale : ¬ d.FreshAt ttl now) : P := by
  rcases keeps.cachedAt with ⟨same, _⟩ | ⟨_, holds⟩
  · rw [FreshAt, same] at stale
    exact absurd fresh stale
  · exact holds

end Collection

theorem Snapshot.freshness_eq_fresh_iff {c : Collection} {ttl : Int} {now : Instant}
    {state : Freshness} (positive : 0 < ttl) (dated : freshness c.cachedAt ttl now = .ok state) :
    state = .fresh ↔ c.FreshAt ttl now := by
  unfold freshness at dated
  unfold Collection.FreshAt
  cases taken : c.cachedAt with
  | none =>
    rw [taken] at dated
    cases dated
    simp
  | some t =>
    rw [taken] at dated
    dsimp only at dated
    rw [if_neg (not_le.mpr positive)] at dated
    split at dated
    · cases dated
    split at dated
    next expired =>
      cases dated
      simpa using expired
    next within =>
      cases dated
      simpa using within

namespace ListItem

/-- What a list shows of the counts of a row. -/
def counts : List String := ["matchedCount", "publishedCount", "pendingCount", "draftCount"]

theorem isStale_toJson (i : ListItem) :
    i.toJson.getD "isStale" = .bool (i.standing.state == .stale) := rfl

theorem counts_toJson_congr {i j : ListItem} (same : j.collection.cached = i.collection.cached) :
    ∀ name ∈ counts, j.toJson.getD name = i.toJson.getD name := by
  simp only [counts, List.forall_mem_cons, toJson, same]
  refine ⟨rfl, rfl, rfl, rfl, ?_⟩
  intro name absent
  cases absent

end ListItem

/-- A shelf and the time of the clock. -/
structure Moment where
  shelf : Shelf
  now : Instant

/-- An event at the time of the clock, or the clock going on. -/
inductive Turn where
  | event (settings : Settings) (outage : Option Outage) (event : Event)
  | tick (micros : Nat)

namespace Moment

def surroundings (m : Moment) (settings : Settings) (outage : Option Outage) : Surroundings :=
  ⟨settings, m.now, outage⟩

def next (m : Moment) : Turn → Moment
  | .event settings outage e => ⟨e.leaves (m.surroundings settings outage) m.shelf, m.now⟩
  | .tick micros => ⟨m.shelf, m.now.addMicros micros⟩

def after (m : Moment) (turns : List Turn) : Moment := turns.foldl next m

theorem after_append (m : Moment) (turns more : List Turn) :
    m.after (turns ++ more) = (m.after turns).after more :=
  List.foldl_append

theorem keyed_next {m : Moment} (keyed : m.shelf.Keyed) (turn : Turn) :
    (m.next turn).shelf.Keyed := by
  cases turn with
  | event settings outage e => exact Shelf.keyed_leaves keyed _ e
  | tick micros => exact keyed

theorem keyed_after {m : Moment} (keyed : m.shelf.Keyed) (turns : List Turn) :
    (m.after turns).shelf.Keyed := by
  induction turns generalizing m with
  | nil => exact keyed
  | cons turn rest ih => exact ih (keyed_next keyed turn)

/-- A list that is asked for at this moment shows the item. -/
def Lists (m : Moment) (ttl : Int) (i : ListItem) : Prop :=
  ∃ settings outage q p, settings.cacheTtl = ttl ∧
    ((Action.list q).run (m.surroundings settings outage) m.shelf).1 = .ok p ∧ i ∈ p.items

section Lists

variable {m : Moment} {ttl : Int} {i : ListItem}

theorem Lists.row (lists : m.Lists ttl i) : i.collection ∈ m.shelf.collections := by
  obtain ⟨settings, outage, q, p, _, listed, member⟩ := lists
  exact (Action.item_of_list listed member).1

theorem Lists.isStale_eq_false_iff (lists : m.Lists ttl i) (positive : 0 < ttl) :
    i.toJson.getD "isStale" = .bool false ↔ i.collection.FreshAt ttl m.now := by
  obtain ⟨settings, outage, q, p, rfl, listed, member⟩ := lists
  obtain ⟨_, stands⟩ := Action.item_of_list listed member
  have dated := (Collection.standing_eq_ok_iff.mp stands).1
  refine Iff.trans ?_ (Snapshot.freshness_eq_fresh_iff positive dated)
  rw [i.isStale_toJson]
  cases i.standing.state <;> simp

theorem Lists.isStale_eq_true_iff (lists : m.Lists ttl i) (positive : 0 < ttl) :
    i.toJson.getD "isStale" = .bool true ↔ ¬ i.collection.FreshAt ttl m.now := by
  rw [← lists.isStale_eq_false_iff positive, i.isStale_toJson]
  simp

end Lists

end Moment

namespace Turn

/-- The turn refreshes the row with success, or it publishes the row from another state, or it
stores what a refresh has counted and fails when it cannot read the row back. -/
def TakesCounts (m : Moment) (id : String) : Turn → Prop
  | event settings outage e => e.TakesCounts (m.surroundings settings outage) m.shelf id
  | tick _ => False

def Deletes (id : String) (turn : Turn) : Prop :=
  ∃ settings outage, turn = .event settings outage (.call (.delete id))

/-- The turn changes what the listing of the row depends on, it is a call about the overrides of the
row, or it goes on until the counts of the row are older than the time to live. -/
inductive Outdates (m : Moment) (ttl : Int) (c : Collection) : Turn → Prop where
  | event {settings : Settings} {outage : Option Outage} {e : Event}
      (clears : e.Clears (m.surroundings settings outage) m.shelf c.id) :
      Outdates m ttl c (.event settings outage e)
  | tick {micros : Nat} {t : Instant} (taken : c.cachedAt = some t)
      (expired : ttl * Instant.microsPerSecond < t.elapsed (m.now.addMicros micros)) :
      Outdates m ttl c (.tick micros)

end Turn

namespace Moment

/-- What one turn can do to what is shown of a row. -/
structure Transition (m : Moment) (ttl : Int) (turn : Turn) (i j : ListItem) : Prop where
  freshened : i.toJson.getD "isStale" = .bool true → j.toJson.getD "isStale" = .bool false →
    turn.TakesCounts m i.collection.id
  taken : turn.TakesCounts m i.collection.id → j.toJson.getD "isStale" = .bool false
  recounted : ¬ turn.TakesCounts m i.collection.id →
    ∀ name ∈ ListItem.counts, j.toJson.getD name = i.toJson.getD name
  outdated : i.toJson.getD "isStale" = .bool false → j.toJson.getD "isStale" = .bool true →
    turn.Outdates m ttl i.collection
  rewritten : Collection.InputsDiffer i.collection j.collection →
    j.toJson.getD "isStale" = .bool true
  overridden : ∀ settings outage call, turn = .event settings outage (.call call) →
    call.Overrides i.collection.id → ∀ answer,
      (call.perform.run (m.surroundings settings outage) m.shelf).1 = .ok answer →
      j.toJson.getD "isStale" = .bool true

section Turns

variable {m : Moment} {ttl : Int}

theorem transition_tick (keyed : m.shelf.Keyed) (positive : 0 < ttl) {micros : Nat}
    {i j : ListItem} (before : m.Lists ttl i) (after : (m.next (.tick micros)).Lists ttl j)
    (same : j.collection.id = i.collection.id) : m.Transition ttl (.tick micros) i j := by
  have equal : j.collection = i.collection :=
    List.inj_on_of_nodup_map keyed after.row before.row same
  constructor
  case freshened =>
    rw [before.isStale_eq_true_iff positive, after.isStale_eq_false_iff positive, equal]
    intro stale fresh
    exact absurd fresh.of_later stale
  case taken => exact False.elim
  case rewritten =>
    intro differ
    exact absurd differ (equal ▸ Collection.not_inputsDiffer_self i.collection)
  case recounted => exact fun _ => ListItem.counts_toJson_congr (by rw [equal])
  case outdated =>
    rw [before.isStale_eq_false_iff positive, after.isStale_eq_true_iff positive, equal]
    rintro ⟨t, taken, _⟩ stale
    apply Turn.Outdates.tick taken
    apply not_le.mp
    intro within
    exact stale ⟨t, taken, within⟩
  case overridden => exact fun _ _ _ event => nomatch event

theorem transition_event (keyed : m.shelf.Keyed) (positive : 0 < ttl) {settings : Settings}
    {outage : Option Outage} {e : Event} {i j : ListItem} (before : m.Lists ttl i)
    (after : (m.next (.event settings outage e)).Lists ttl j)
    (same : j.collection.id = i.collection.id) :
    m.Transition ttl (.event settings outage e) i j := by
  have treats : e.Treats (m.surroundings settings outage) m.shelf i.collection j.collection :=
    Event.treats keyed before.row after.row same
  constructor
  case freshened =>
    rw [before.isStale_eq_true_iff positive, after.isStale_eq_false_iff positive]
    intro stale fresh
    cases treats with
    | keeps kept => exact absurd (kept.freshAt fresh) stale
    | takes _ _ taken => exact taken
  case taken =>
    intro taken
    rw [after.isStale_eq_false_iff positive]
    apply Collection.freshAt_of_cachedAt_eq_now positive
    apply Event.TakesCounts.cachedAt_eq taken keyed before.row
    rw [← same]
    exact (keyed_next keyed (.event settings outage e)).find?_eq_some after.row
  case recounted =>
    intro untaken
    cases treats with
    | keeps kept => exact ListItem.counts_toJson_congr kept.cached
    | takes _ _ taken => exact absurd taken untaken
  case outdated =>
    rw [before.isStale_eq_false_iff positive, after.isStale_eq_true_iff positive]
    intro fresh stale
    cases treats with
    | keeps kept => exact .event (kept.of_not_freshAt fresh stale)
    | takes cachedAt _ _ =>
      exact absurd (Collection.freshAt_of_cachedAt_eq_now positive cachedAt) stale
  case rewritten =>
    intro differ
    rw [after.isStale_eq_true_iff positive]
    cases treats with
    | keeps kept =>
      rcases kept.cachedAt with ⟨_, inputs⟩ | ⟨cleared, _⟩
      · exact absurd differ inputs
      · exact Collection.not_freshAt_of_cachedAt_eq_none cleared
    | takes _ inputs _ => exact absurd differ inputs
  case overridden =>
    intro settings' outage' call event overrides answer answered
    cases event
    rw [after.isStale_eq_true_iff positive]
    have clears : Action.Steps (m.surroundings settings outage) _ (fun _ => True) call.perform
        fun _ t => t.Clear i.collection.id := Action.clears_perform overrides
    obtain ⟨d, found, cleared⟩ := (clears m.shelf trivial).2 answer answered
    have left := (keyed_next keyed (.event settings outage (.call call))).find?_eq_some after.row
    rw [same] at left
    obtain rfl : d = j.collection := Option.some.inj (found.symm.trans left)
    exact Collection.not_freshAt_of_cachedAt_eq_none cleared

theorem transition (keyed : m.shelf.Keyed) (positive : 0 < ttl) {turn : Turn} {i j : ListItem}
    (before : m.Lists ttl i) (after : (m.next turn).Lists ttl j)
    (same : j.collection.id = i.collection.id) : m.Transition ttl turn i j := by
  cases turn with
  | tick micros => exact transition_tick keyed positive before after same
  | event settings outage e => exact transition_event keyed positive before after same

end Turns

/-- No turn takes the counts of the row or ends it. -/
def Uncounted (id : String) : Moment → List Turn → Prop
  | _, [] => True
  | m, turn :: rest => ¬ turn.TakesCounts m id ∧ ¬ turn.Deletes id ∧ Uncounted id (m.next turn) rest

theorem exists_now_after (m : Moment) (turns : List Turn) :
    ∃ n : Nat, (m.after turns).now = m.now.addMicros n := by
  induction turns generalizing m with
  | nil => exact ⟨0, by simp [after, Instant.addMicros]⟩
  | cons turn rest ih =>
    obtain ⟨n, later⟩ := ih (m.next turn)
    cases turn with
    | event settings outage e => exact ⟨n, later⟩
    | tick micros =>
      refine ⟨micros + n, later.trans ?_⟩
      simp [next, Instant.addMicros, add_assoc]

theorem keepsCounts_next {m : Moment} (keyed : m.shelf.Keyed) {c : Collection}
    (row : c ∈ m.shelf.collections) {turn : Turn} (untaken : ¬ turn.TakesCounts m c.id)
    (stays : ¬ turn.Deletes c.id) :
    ∃ d ∈ (m.next turn).shelf.collections, d.id = c.id ∧ Collection.KeepsCounts True c d := by
  cases turn with
  | tick micros => exact ⟨c, row, rfl, .refl True c⟩
  | event settings outage e =>
    have other : e ≠ .call (.delete c.id) := fun deletes => stays ⟨settings, outage, deletes ▸ rfl⟩
    have exists_row : ∃ d, (e.leaves (m.surroundings settings outage) m.shelf).find? c.id = some d ∧
        e.Treats (m.surroundings settings outage) m.shelf c d := Event.exists_row keyed row other
    obtain ⟨d, left, treats⟩ := exists_row
    obtain ⟨same, member⟩ := Shelf.mem_of_find?_eq_some left
    cases treats with
    | keeps kept => exact ⟨d, member, same, kept.imp fun _ => trivial⟩
    | takes _ _ taken => exact absurd taken untaken

/-- Until the counts are taken, the row has those it had, and no time that it did not have. -/
theorem keepsCounts_after {m : Moment} (keyed : m.shelf.Keyed) {c : Collection}
    (row : c ∈ m.shelf.collections) {turns : List Turn} (uncounted : m.Uncounted c.id turns) :
    ∃ d ∈ (m.after turns).shelf.collections, d.id = c.id ∧ Collection.KeepsCounts True c d := by
  induction turns generalizing m c with
  | nil => exact ⟨c, row, rfl, .refl True c⟩
  | cons turn rest ih =>
    obtain ⟨untaken, stays, later⟩ := uncounted
    obtain ⟨b, member, same, kept⟩ := keepsCounts_next keyed row untaken stays
    obtain ⟨d, left, same', kept'⟩ := ih (keyed_next keyed turn) member (same ▸ later)
    exact ⟨d, left, same'.trans same, kept.trans kept'⟩

/-- In every state that a run of events and steps of the clock leads to, a list under a positive
time to live shows a row as fresh exactly if its counts have a time and are not older than the time
to live.  Whatever the next turn is, it takes the counts of a row that was stale and is fresh or
that shows other counts, and it outdates a row that was fresh and is stale.  A turn that takes the
counts leaves the row fresh, and one that changes what its listing depends on leaves it stale, as
does an override that is answered.  So a row stays stale with the counts that it has until they are
taken. -/
theorem staleness_transitions {m : Moment} (keyed : m.shelf.Keyed) {ttl : Int}
    (positive : 0 < ttl) (turns : List Turn) :
    (∀ i, (m.after turns).Lists ttl i →
      (i.toJson.getD "isStale" = .bool false ↔ ∃ t, i.collection.cachedAt = some t ∧
        t.elapsed (m.after turns).now ≤ ttl * Instant.microsPerSecond)) ∧
    (∀ turn i j, (m.after turns).Lists ttl i → (m.after (turns ++ [turn])).Lists ttl j →
      j.collection.id = i.collection.id → (m.after turns).Transition ttl turn i j) ∧
    ∀ more i j, (m.after turns).Lists ttl i → (m.after (turns ++ more)).Lists ttl j →
      j.collection.id = i.collection.id → (m.after turns).Uncounted i.collection.id more →
      (i.toJson.getD "isStale" = .bool true → j.toJson.getD "isStale" = .bool true) ∧
        ∀ name ∈ ListItem.counts, j.toJson.getD name = i.toJson.getD name := by
  have reached := keyed_after keyed turns
  refine ⟨fun i lists => lists.isStale_eq_false_iff positive, ?turn, ?stretch⟩
  case turn =>
    intro turn i j before after same
    rw [after_append] at after
    exact transition reached positive before after same
  case stretch =>
    intro more i j before after same uncounted
    rw [after_append] at after
    obtain ⟨d, left, same', kept⟩ := keepsCounts_after reached before.row uncounted
    obtain rfl := List.inj_on_of_nodup_map (keyed_after reached more) left after.row
      (same'.trans same.symm)
    refine ⟨?_, ListItem.counts_toJson_congr kept.cached⟩
    rw [before.isStale_eq_true_iff positive, after.isStale_eq_true_iff positive]
    obtain ⟨n, later⟩ := exists_now_after (m.after turns) more
    intro stale fresh
    apply stale
    exact (kept.freshAt (later ▸ fresh)).of_later

/-- The only row that a list shows. -/
theorem exists_lists (m : Moment) (id : String) (state : Freshness)
    (shown : ((Action.list Shelf.everything).run (m.surroundings .standard none) m.shelf).1.map
      (fun p => p.items.map fun i => (i.collection.id, i.standing.state)) = .ok [(id, state)]) :
    ∃ i, m.Lists 3600 i ∧ i.collection.id = id ∧
      i.toJson.getD "isStale" = .bool (state == .stale) := by
  obtain ⟨p, listed, items⟩ := Attempt.map_eq_ok_iff.mp shown
  obtain ⟨i, only, facts⟩ := List.map_eq_singleton_iff.mp items
  obtain ⟨same, stands⟩ := Prod.mk.inj facts
  refine ⟨i, ⟨.standard, none, Shelf.everything, p, rfl, listed, ?_⟩, same, ?_⟩
  · rw [only]
    exact List.mem_singleton_self i
  · rw [i.isStale_toJson, stands]

def opening : Moment := ⟨.trattorie, ⟨0⟩⟩

def pinning : Turn := .event .standard none (.call (.pin "t" ⟨["b"], .start⟩))

def recounting : Turn := .event .standard none (.refresh "t")

def hour : Turn := .tick 3600000000

/-- The refresh with no row read back once it is committed. -/
def miscounting : Turn := .event .standard (some (.reread none)) (.refresh "t")

/-- The counts become stale with a pin, fresh with the refresh, and stale again right after the end
of the hour that they live. -/
theorem staleness_transitions_trattorie :
    opening.shelf.Keyed ∧ (0 : Int) < 3600 ∧
    (∃ i j, (opening.after [pinning]).Lists 3600 i ∧
      (opening.after [pinning, recounting]).Lists 3600 j ∧
      i.toJson.getD "isStale" = .bool true ∧ j.toJson.getD "isStale" = .bool false ∧
      recounting.TakesCounts (opening.after [pinning]) "t") ∧
    ∃ i j t, (opening.after [pinning, recounting, hour]).Lists 3600 i ∧
      (opening.after [pinning, recounting, hour, .tick 1]).Lists 3600 j ∧
      i.collection.cachedAt = some t ∧ t.elapsed (opening.after [pinning, recounting, hour]).now ≤
        3600 * Instant.microsPerSecond ∧
      j.toJson.getD "isStale" = .bool true ∧
      (Turn.tick 1).Outdates (opening.after [pinning, recounting, hour]) 3600 i.collection := by
  have keyed : opening.shelf.Keyed := by decide
  have positive : (0 : Int) < 3600 := by decide
  obtain ⟨pinned, listsPinned, idPinned, stale⟩ :=
    exists_lists (opening.after [pinning]) "t" .stale (by decide +kernel)
  obtain ⟨recounted, listsRecounted, idRecounted, fresh⟩ :=
    exists_lists (opening.after [pinning, recounting]) "t" .fresh (by decide +kernel)
  obtain ⟨last, listsLast, idLast, lasting⟩ :=
    exists_lists (opening.after [pinning, recounting, hour]) "t" .fresh (by decide +kernel)
  obtain ⟨late, listsLate, idLate, outdated⟩ :=
    exists_lists (opening.after [pinning, recounting, hour, .tick 1]) "t" .stale
      (by decide +kernel)
  obtain ⟨_, turn, _⟩ := staleness_transitions keyed positive [pinning]
  obtain ⟨shown, turn', _⟩ := staleness_transitions keyed positive [pinning, recounting, hour]
  obtain ⟨t, taken, within⟩ := (shown last listsLast).mp lasting
  have refreshes := turn recounting pinned recounted listsPinned listsRecounted
    (idRecounted.trans idPinned.symm)
  have expires := turn' (.tick 1) last late listsLast listsLate (idLate.trans idLast.symm)
  refine ⟨keyed, positive, ⟨pinned, recounted, listsPinned, listsRecounted, stale, fresh, ?_⟩,
    last, late, t, listsLast, listsLate, taken, within, outdated, ?_⟩
  · exact idPinned ▸ refreshes.freshened stale fresh
  · exact expires.outdated lasting outdated

/-- The counts become fresh with a refresh that fails. -/
theorem failed_refresh_freshens :
    ((Action.refresh "t").run ((opening.after [pinning]).surroundings .standard
      (some (.reread none))) (opening.after [pinning]).shelf).1 = .error Action.snapshotFailure ∧
    ∃ i j, (opening.after [pinning]).Lists 3600 i ∧
      (opening.after [pinning, miscounting]).Lists 3600 j ∧
      i.collection.id = "t" ∧ j.collection.id = "t" ∧
      i.toJson.getD "isStale" = .bool true ∧ j.toJson.getD "isStale" = .bool false := by
  obtain ⟨pinned, listsPinned, idPinned, stale⟩ :=
    exists_lists (opening.after [pinning]) "t" .stale (by decide +kernel)
  obtain ⟨recounted, listsRecounted, idRecounted, fresh⟩ :=
    exists_lists (opening.after [pinning, miscounting]) "t" .fresh (by decide +kernel)
  refine ⟨by decide +kernel, pinned, recounted, listsPinned, listsRecounted, ?_⟩
  exact ⟨idPinned, idRecounted, stale, fresh⟩

end Moment

end Cookbook
