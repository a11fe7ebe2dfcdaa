import Cookbook.Proofs.Definition.Loaded
import Cookbook.Proofs.Listing.Answered
import Cookbook.Proofs.Rule.Normal
import Cookbook.Proofs.Shelf.Snapshots
import Cookbook.Proofs.Shelf.Updates

/-!
# What every run keeps in order

Rules are stored in the form in which sound rules are written, overrides without repetitions, bounds
and counts without negative numbers; ids and slugs tell the rows apart.  New rows come in order from
all three sources, and no change of a row brings it out of order.
-/

namespace Cookbook

/-- Counts of active recipes: no number is negative, and all of them sum up. -/
structure Counts.Balanced (k : Counts) : Prop where
  published : 0 ≤ k.published
  pending : 0 ≤ k.pending
  draft : 0 ≤ k.draft
  matched : k.matched = k.published + k.pending + k.draft

theorem Counts.balanced_zero : Counts.zero.Balanced := ⟨le_rfl, le_rfl, le_rfl, rfl⟩

theorem Counts.balanced_ofStatuses {statuses : List String}
    (active : ∀ t ∈ statuses, t ∈ Status.active) : (ofStatuses statuses).Balanced where
  published := Int.natCast_nonneg _
  pending := Int.natCast_nonneg _
  draft := Int.natCast_nonneg _
  matched := matched_ofStatuses active

/-- Every entry of a listing is counted under an active status, even if ids are not unique. -/
theorem Store.balanced_of_listing_eq_ok {st : Store} {r : Rule} {ctx : Context} {l : Listing}
    (listed : st.listing r ctx = .ok l) : l.counts.Balanced := by
  obtain ⟨base, more, evaluated, settled, entered, counts⟩ := of_listing_eq_ok listed
  rw [counts]
  apply Counts.balanced_ofStatuses
  intro t member
  obtain ⟨e, entry, rfl⟩ := List.mem_map.mp member
  have known := mem_of_lookup_eq_some (Listing.lookup_of_mem_entriesOf entered entry)
  rcases List.mem_append.mp known with matched | pinned
  · obtain ⟨m, among, same⟩ := List.mem_map.mp matched
    obtain ⟨x, _, active, _, _, rfl⟩ :=
      (mem_of_evaluate_eq_ok (r.isFinite_predicate ctx.links) evaluated).mp among
    exact (congrArg Prod.snd same) ▸ active
  · obtain ⟨x, _, active, _, same⟩ := (mem_of_pinnedStatuses_eq_ok settled).mp pinned
    exact (congrArg Prod.snd same) ▸ active

theorem Store.balanced_of_currentListing_eq_ok {st : Store} {c : Collection} {l : Listing}
    (listed : st.currentListing c = .ok l) : l.counts.Balanced := by
  obtain ⟨r, _, counted⟩ := currentListing_eq_ok_iff.mp listed
  exact balanced_of_listing_eq_ok counted

namespace Collection

/-- The row is in order, and its rule is one with the property. -/
structure WellKept (W : Rule → Prop) (c : Collection) : Prop where
  rules : ∃ r : Rule, r.Sound ∧ W r ∧ c.rules = r.toJson
  pinned : c.pinnedIds.Nodup
  excluded : c.excludedIds.Nodup
  minRequired : 0 ≤ c.minRequired
  targetCount : 0 ≤ c.targetCount
  counts : c.cached.Balanced

theorem nodup_removing {current : List String} (once : current.Nodup) (ids : List String) :
    (removing current ids).Nodup := once.filter _

theorem nodup_newcomers (current ids : List String) : (newcomers current ids).Nodup :=
  (nodup_distinct ids).filter _

theorem not_mem_of_mem_newcomers {current ids : List String} {id : String}
    (new : id ∈ newcomers current ids) : id ∉ current := by
  simpa using (List.mem_filter.mp new).2

theorem nodup_append_newcomers {current : List String} (once : current.Nodup)
    (ids : List String) : (current ++ newcomers current ids).Nodup := by
  refine List.nodup_append.mpr ⟨once, nodup_newcomers current ids, ?_⟩
  intro a old b new same
  exact not_mem_of_mem_newcomers new (same ▸ old)

theorem nodup_pinnedWith {c : Collection} (once : c.pinnedIds.Nodup) (ids : List String)
    (p : Position) : (c.pinnedWith ids p).Nodup := by
  have last := nodup_append_newcomers once ids
  cases p with
  | start => exact (List.perm_append_comm.nodup_iff).mp last
  | finish => exact last

theorem nodup_getD_orElse {given old : Option (List String)} (once : (old.getD []).Nodup) :
    (((given.map distinct).orElse fun _ => old).getD []).Nodup := by
  cases given with
  | none => exact once
  | some ids => exact nodup_distinct ids

theorem nonneg_getD {given : Option Int} {old : Int} (bounded : ∀ n ∈ given, 0 ≤ n)
    (nonneg : 0 ≤ old) : 0 ≤ given.getD old := by
  cases given with
  | none => exact nonneg
  | some n => exact bounded n rfl

end Collection

/-- The rule that a call asks to be stored. -/
def Call.rules : Call → Option Json
  | create n => some n.rules
  | update _ ch => ch.rules
  | _ => none

/-- Every rule that the call stores has the property. -/
def Call.Stores (W : Rule → Prop) (call : Call) : Prop :=
  ∀ j ∈ call.rules, ∀ r, Rule.accept j = .ok r → W r

variable {W : Rule → Prop}

theorem Collection.WellKept.change {c : Collection} (kept : c.WellKept W) {ch : Changes}
    {rules : Option Rule} (accepted : ch.rules.map Rule.accept = rules.map Except.ok)
    (stores : (Call.update c.id ch).Stores W) (bounded : (Call.update c.id ch).Bounded)
    (now : Instant) : (c.change { ch with rules := rules.map Rule.toJson } now).WellKept W := by
  rw [change_eq]
  obtain ⟨minRequired, targetCount⟩ := bounded
  constructor
  case rules =>
    change ∃ r : Rule, r.Sound ∧ W r ∧ newRules c.rules (rules.map Rule.toJson) = r.toJson
    cases rules with
    | none => exact kept.rules
    | some r =>
      obtain ⟨j, given, checked⟩ := Option.map_eq_some_iff.mp accepted
      unfold newRules
      dsimp only [Option.map_some]
      split
      · exact kept.rules
      · exact ⟨r, (Rule.accept_eq_ok_iff.mp checked).2, stores j given r checked, rfl⟩
  case pinned => exact nodup_getD_orElse kept.pinned
  case excluded => exact nodup_getD_orElse kept.excluded
  case minRequired => exact nonneg_getD minRequired kept.minRequired
  case targetCount => exact nonneg_getD targetCount kept.targetCount
  case counts => exact kept.counts

/-- Whatever a call makes of a row in order is in order. -/
theorem Revises.wellKept {s : Shelf} {now : Instant} {c d : Collection} {call : Call}
    (revises : Revises s now c call d) (kept : c.WellKept W) (stores : call.Stores W)
    (bounded : call.Bounded) : d.WellKept W := by
  cases revises with
  | update accepted _ => exact kept.change accepted stores bounded now
  | pin _ => exact { kept with pinned := Collection.nodup_pinnedWith kept.pinned _ _ }
  | unpin ids => exact { kept with pinned := Collection.nodup_removing kept.pinned ids }
  | reorder same => exact { kept with pinned := same.1 }
  | exclude _ =>
    exact { kept with
      pinned := Collection.nodup_removing kept.pinned _
      excluded := Collection.nodup_append_newcomers kept.excluded _ }
  | unexclude ids => exact { kept with excluded := Collection.nodup_removing kept.excluded ids }
  | refresh _ listed =>
    exact { kept with counts := Store.balanced_of_currentListing_eq_ok listed }
  | publish _ _ listed =>
    exact { kept with counts := Store.balanced_of_currentListing_eq_ok listed }
  | unpublish _ => exact { kept with }

theorem NewCollection.wellKept {n : NewCollection} {r : Rule}
    (accepted : Rule.accept n.rules = .ok r) (stores : (Call.create n).Stores W)
    (bounded : (Call.create n).Bounded) (id : String) (now : Instant) :
    (Collection.ofNew n r.toJson id now).WellKept W where
  rules := ⟨r, (Rule.accept_eq_ok_iff.mp accepted).2, stores n.rules rfl r accepted, rfl⟩
  pinned := nodup_distinct n.pinned
  excluded := nodup_distinct n.excluded
  minRequired := bounded.1
  targetCount := bounded.2
  counts := Counts.balanced_zero

/-- What collections are linked to has ids that are not empty. -/
structure Catalog.Named (cat : Catalog) : Prop where
  cuisines : ∀ p ∈ cat.cuisines, p.id ≠ ""
  locations : ∀ p ∈ cat.locations, p.id ≠ ""
  tags : ∀ t ∈ cat.tags, t.id ≠ ""

theorem presentText?_eq_some {text : String} (filled : text ≠ "") :
    presentText? (some text) = some text := by
  simp [presentText?, Option.filter, filled]

/-- An automatic rule that names a field to follow is sound with every value that is not empty. -/
theorem Rule.sound_auto {field : String} {value : String} (tagType : Option String)
    (followed : (Rule.auto (some field) (some "x") none).Sound) (filled : value ≠ "") :
    (Rule.auto (some field) (some value) tagType).Sound := by
  have fieldwise := (List.append_eq_nil_iff.mp followed).1
  refine List.append_eq_nil_iff.mpr ⟨fieldwise, ?_⟩
  rw [presentText?_eq_some filled]
  exact if_neg (Option.some_ne_none value)

theorem Shelf.sound_of_mem_unlinkedSources {s : Shelf} (named : s.catalog.Named) {l : LinkSource}
    (source : l ∈ s.unlinkedSources) :
    ∃ field value tagType, l.rule = .auto field value tagType ∧ l.rule.Sound := by
  simp only [unlinkedSources, List.mem_append, List.mem_mergeSort, List.mem_filter,
    List.mem_map] at source
  rcases source with (⟨⟨p, row, rfl⟩, _⟩ | ⟨⟨p, row, rfl⟩, _⟩) | ⟨⟨t, ⟨row, _⟩, rfl⟩, _⟩
  · exact ⟨_, _, _, rfl, Rule.sound_auto _ (by decide) (named.cuisines p row)⟩
  · exact ⟨_, _, _, rfl, Rule.sound_auto _ (by decide) (named.locations p row)⟩
  · exact ⟨_, _, _, rfl, Rule.sound_auto _ (by decide) (named.tags t row)⟩

namespace Shelf

/-- Rows, their ids and their slugs are in order. -/
structure WellKept (W : Rule → Prop) (s : Shelf) : Prop where
  ids : s.Keyed
  slugs : (s.collections.map Collection.slug).Nodup
  named : s.catalog.Named
  rows : ∀ c ∈ s.collections, c.WellKept W

variable {s : Shelf} {c d : Collection}

theorem eq_of_slug (slugs : (s.collections.map Collection.slug).Nodup)
    (row : c ∈ s.collections) (other : d ∈ s.collections) (same : c.slug = d.slug) : c = d :=
  List.inj_on_of_nodup_map slugs row other same

/-- A row may take the slug of no other row. -/
theorem nodup_slug_put (keyed : s.Keyed) (slugs : (s.collections.map Collection.slug).Nodup)
    (own : ∀ e ∈ s.collections, e.slug = d.slug → e.id = d.id) :
    ((s.put d).collections.map Collection.slug).Nodup := by
  have rows : s.collections.Nodup := keyed.of_map
  rw [put, List.map_map]
  refine rows.map_on fun a first b second same => ?_
  simp only [Function.comp_apply] at same
  split at same <;> split at same
  next left right => exact List.inj_on_of_nodup_map keyed first second (left.trans right.symm)
  next _ right => exact absurd (own b second same.symm) right
  next left _ => exact absurd (own a first same) left
  next => exact eq_of_slug slugs first second same

end Shelf

theorem Collection.slug_change (c : Collection) (ch : Changes) (now : Instant) :
    (c.change ch now).slug = ch.slug.getD c.slug := by
  rw [change_eq]
  rfl

theorem Revises.own_slug {s : Shelf} {now : Instant} {c d : Collection} {call : Call}
    (revises : Revises s now c call d) (slugs : (s.collections.map Collection.slug).Nodup)
    (row : c ∈ s.collections) : ∀ e ∈ s.collections, e.slug = d.slug → e.id = d.id := by
  intro e among same
  have kept (unchanged : d.slug = c.slug) : e.id = c.id := by
    rw [Shelf.eq_of_slug slugs among row (same.trans unchanged)]
  rw [revises.id_eq]
  cases revises with
  | @update ch rules accepted free =>
    rw [Collection.slug_change] at same kept
    dsimp only at same kept
    cases given : ch.slug with
    | none => exact kept (by rw [given, Option.getD_none])
    | some slug =>
      rw [given, Option.getD_some] at same kept
      by_cases own : slug = c.slug
      · exact kept own
      · have missing := List.find?_eq_none.mp (free slug given own) e among
        exact absurd (by simpa using same) missing
  | _ => exact kept rfl

theorem Commit.wellKept {env : Surroundings} {call : Call} {s t : Shelf}
    (commit : Commit env call s t) (kept : s.WellKept W) (autos : ∀ f v g, W (.auto f v g))
    (stores : call.Stores W) (bounded : call.Bounded) : t.WellKept W := by
  constructor
  case ids => exact commit.keyed kept.ids
  case named => exact commit.catalog_eq ▸ kept.named
  case slugs =>
    cases commit with
    | draw => exact kept.slugs
    | create _ allowed => exact (accepts_of_insertable allowed).2
    | link _ allowed => exact (accepts_of_insertable allowed).2
    | revise row revises _ =>
      exact Shelf.nodup_slug_put kept.ids kept.slugs (revises.own_slug kept.slugs row)
    | delete _ => exact (List.filter_sublist.map Collection.slug).nodup kept.slugs
  case rows =>
    intro d member
    cases commit.arises member with
    | kept row => exact kept.rows d row
    | created accepted => exact NewCollection.wellKept accepted stores bounded _ _
    | linked source slug id =>
      obtain ⟨f, v, g, auto, sound⟩ := Shelf.sound_of_mem_unlinkedSources kept.named source
      exact {
        rules := ⟨_, sound, auto ▸ autos f v g, rfl⟩
        pinned := List.nodup_nil
        excluded := List.nodup_nil
        minRequired := Int.natCast_nonneg 10
        targetCount := Int.natCast_nonneg 20
        counts := Counts.balanced_zero }
    | revised row revises => exact revises.wellKept (kept.rows _ row) stores bounded

namespace Event

/-- What a caller gives to the event is read from a request or a definition. -/
def Requested : Event → Prop
  | call (.create n) => ∃ ms, NewCollection.ofMembers ms = .ok n
  | call (.update _ ch) => ∃ ms, Changes.ofMembers ms = .ok ch
  | define ds => ∀ d ∈ ds, ∃ ms, Definition.ofMembers ms = .ok d
  | _ => True

/-- Every rule that the event asks to be stored has the property. -/
def Stores (W : Rule → Prop) (e : Event) : Prop := ∀ call, e.Asks call → call.Stores W

theorem stores_call {call : Call} (stores : call.Stores W) : (Event.call call).Stores W := by
  intro c asks
  cases asks with
  | create placed => exact placed.elim
  | update placed => exact placed.elim
  | call => exact stores

theorem stores_of_rules_eq_none {call : Call} (nothing : call.rules = none) : call.Stores W := by
  intro j given
  rw [nothing] at given
  cases given

theorem bounded_of_holds {source : DefinitionSource} {d : Definition} (held : source.Holds d) :
    d.Bounded := by
  cases source with
  | packaged => exact Definition.bounded_of_packaged d held
  | missing => exact held.elim
  | folder yaml f =>
    obtain ⟨sheets, loaded, s, member, written⟩ := held
    have bounded : s.Bounded :=
      Loading.yields_ofFolder (fun _ _ => Sheet.bounded_of_ofNode) f .empty sheets loaded s member
    exact Sheet.bounded_of_written bounded written

theorem Requested.bounded_of_places {e : Event} (requested : e.Requested) {d : Definition}
    (placed : e.Places d) : d.Bounded := by
  cases e with
  | call c => exact placed.elim
  | refresh id => exact placed.elim
  | define ds =>
    obtain ⟨ms, read⟩ := requested d placed
    exact Definition.bounded_of_ofMembers read
  | load source => exact bounded_of_holds placed
  | startUp source => exact bounded_of_holds placed

theorem Requested.bounded {e : Event} (requested : e.Requested) {call : Call}
    (asks : e.Asks call) : call.Bounded := by
  cases asks with
  | refresh id => trivial
  | create placed => exact (requested.bounded_of_places placed).toNew
  | update placed id => exact (requested.bounded_of_places placed).toChanges id
  | call =>
    cases call with
    | create n =>
      obtain ⟨ms, read⟩ := requested
      exact NewCollection.bounded_of_ofMembers read
    | update id ch =>
      obtain ⟨ms, read⟩ := requested
      exact Changes.bounded_of_ofMembers id read
    | _ => trivial

end Event

theorem Shelf.wellKept_after {s : Shelf} (kept : s.WellKept W) (autos : ∀ f v g, W (.auto f v g))
    (events : List (Surroundings × Event)) (requested : ∀ e ∈ events, e.2.Requested)
    (stores : ∀ e ∈ events, e.2.Stores W) : (s.after events).WellKept W := by
  apply keeps_after_of_asks (W := fun call => call.Stores W ∧ call.Bounded) ?_ kept.ids kept
  · intro e member call asks
    exact ⟨stores e member call asks, (requested e member).bounded asks⟩
  · intro env call t u asked commit before
    exact commit.wellKept before autos asked.1 asked.2

theorem Shelf.wellKept_of_empty {s : Shelf} (empty : s.collections = [])
    (named : s.catalog.Named) : s.WellKept W where
  ids := by simp [Keyed, empty]
  slugs := by simp [empty]
  named := named
  rows := by simp [empty]

/-- From an empty shelf, after any run of events that callers can ask for, in whatever surroundings
and however they end, ids and slugs tell the rows apart, overrides have no repetitions, bounds and
counts are not negative, and counts sum up.  A stored rule is what some sound rule is written as.
It is accepted again and its own normal form, unless that rule has a number for a value that JSON
cannot write; if no event asks for such a rule, it always is. -/
theorem Shelf.rows_wellKept {s : Shelf} (empty : s.collections = []) (named : s.catalog.Named)
    (events : List (Surroundings × Event)) (requested : ∀ e ∈ events, e.2.Requested) :
    ((s.after events).collections.map Collection.id).Nodup ∧
    ((s.after events).collections.map Collection.slug).Nodup ∧
    (∀ c ∈ (s.after events).collections,
      c.pinnedIds.Nodup ∧ c.excludedIds.Nodup ∧ 0 ≤ c.minRequired ∧ 0 ≤ c.targetCount ∧
      c.cached.Balanced ∧
      ∃ r : Rule, r.Sound ∧ c.rules = r.toJson ∧ (Rule.Normal c.rules ↔ r.Writable)) ∧
    ((∀ e ∈ events, e.2.Stores Rule.Writable) →
      ∀ c ∈ (s.after events).collections, Rule.Normal c.rules) := by
  have kept : (s.after events).WellKept fun _ => True := by
    apply wellKept_after (wellKept_of_empty empty named) (fun _ _ _ => trivial) events requested
    exact fun _ _ _ _ _ _ _ _ => trivial
  refine ⟨kept.ids, kept.slugs, ?_, ?_⟩
  · intro c row
    have ordered := kept.rows c row
    obtain ⟨r, sound, _, stored⟩ := ordered.rules
    refine ⟨ordered.pinned, ordered.excluded, ordered.minRequired, ordered.targetCount,
      ordered.counts, r, sound, stored, ?_⟩
    rw [stored]
    exact sound.normal_toJson_iff
  · intro stores c row
    have writable : (s.after events).WellKept Rule.Writable := by
      apply wellKept_after (wellKept_of_empty empty named) ?_ events requested stores
      intro f v g c part
      cases part
    obtain ⟨r, sound, wanted, stored⟩ := (writable.rows c row).rules
    rw [stored]
    exact sound.normal_toJson_iff.mpr wanted

namespace Shelf

/-- Nothing is collected yet. -/
def vacant : Shelf where
  catalog := ⟨.utc, [⟨"it", "Italian", "italian"⟩], [], [],
    [{ Recipe.bare "a" Status.published with cuisineId := some "it" }]⟩
  collections := []
  drawn := 0

/-- The recipes whose cuisine is the value, as a caller asks for them. -/
def wishedRules (value : Json) : Json :=
  .obj [("mode", .str "custom"), ("groups", .arr [.obj [("logic", .str "AND"),
    ("conditions", .arr [.obj [("field", .str "cuisineId"), ("operator", .str "eq"),
      ("value", value)]])]])]

def wish (value : Json) : NewCollection :=
  ⟨"Any", "any", Collection.themeType, Status.draft, none, none, wishedRules value, .unlinked,
    ["a"], [], 1, 20, 0⟩

def wishMembers (value : Json) : Members :=
  [("name", .str "Any"), ("slug", .str "any"), ("rules", wishedRules value),
    ("pinnedRecipeIds", .texts ["a"]), ("minRequired", .int 1)]

/-- A row that is asked for, one that follows the cuisine, and a publication of the first. -/
def fillings : List (Surroundings × Event) :=
  [(.standard 1, .call (.create (wish (.str "it")))), (.standard 2, .call .syncLinked),
    (.standard 3, .call (.publish "id0001" true))]

theorem rows_wellKept_fillings :
    vacant.collections = [] ∧ vacant.catalog.Named ∧
    (∀ e ∈ fillings, e.2.Requested ∧ e.2.Stores Rule.Writable) ∧
    ∃ c d, (vacant.after fillings).collections = [c, d] ∧ Rule.Normal c.rules ∧
      Rule.Normal d.rules ∧ c.pinnedIds.Nodup ∧ c.cached.Balanced ∧ c.id ≠ d.id := by
  have named : vacant.catalog.Named := ⟨by decide, by decide, by decide⟩
  have read : NewCollection.ofMembers (wishMembers (.str "it")) = .ok (wish (.str "it")) := by
    decide
  have accepted : Rule.accept (wish (.str "it")).rules = .ok (ofCuisine (.str "it")) := by decide
  have writable : (ofCuisine (.str "it")).Writable := by
    intro c part n value
    obtain rfl := List.mem_singleton.mp part
    cases value
  have requested : ∀ e ∈ fillings, e.2.Requested := by
    intro e member
    simp only [fillings, List.mem_cons, List.not_mem_nil, or_false] at member
    rcases member with rfl | rfl | rfl
    · exact ⟨wishMembers (.str "it"), read⟩
    all_goals trivial
  have stores : ∀ e ∈ fillings, e.2.Stores Rule.Writable := by
    intro e member
    simp only [fillings, List.mem_cons, List.not_mem_nil, or_false] at member
    rcases member with rfl | rfl | rfl
    · apply Event.stores_call
      rintro j ⟨⟩ r checked
      obtain rfl := Except.ok.inj (accepted.symm.trans checked)
      exact writable
    · exact Event.stores_call (Event.stores_of_rules_eq_none rfl)
    · exact Event.stores_call (Event.stores_of_rules_eq_none rfl)
  have rows : (vacant.after fillings).collections.map Collection.id = ["id0001", "id0002"] := by
    decide +kernel
  obtain ⟨c, rest, split, first, others⟩ := List.map_eq_cons_iff.mp rows
  obtain ⟨d, only, second⟩ := List.map_eq_singleton_iff.mp others
  rw [only] at split
  obtain ⟨_, _, ordered, normal⟩ := rows_wellKept (s := vacant) rfl named fillings requested
  have both : c ∈ (vacant.after fillings).collections ∧
      d ∈ (vacant.after fillings).collections := by
    rw [split]
    exact ⟨List.mem_cons_self, List.mem_cons_of_mem _ List.mem_cons_self⟩
  obtain ⟨pinned, _, _, _, balanced, _⟩ := ordered c both.1
  refine ⟨rfl, named, fun e member => ⟨requested e member, stores e member⟩, c, d, split,
    normal stores c both.1, normal stores d both.2, pinned, balanced, ?_⟩
  rw [first, second]
  decide

def notNumber : Json := .num (.float .nan)

/-- The value is accepted, but it is stored as a value that is missing. -/
theorem stored_rule_not_normal :
    vacant.collections = [] ∧ vacant.catalog.Named ∧
    (Event.call (.create (wish notNumber))).Requested ∧
    Rule.accept (wish notNumber).rules = .ok (ofCuisine notNumber) ∧
    ∃ c, (vacant.after [(.standard 1, .call (.create (wish notNumber)))]).collections = [c] ∧
      Rule.problemsOf c.rules = [⟨.ofCondition 0 0, "value", .value⟩] ∧ ¬ Rule.Normal c.rules := by
  have named : vacant.catalog.Named := ⟨by decide, by decide, by decide⟩
  have read : NewCollection.ofMembers (wishMembers notNumber) = .ok (wish notNumber) := by decide
  have accepted : Rule.accept (wish notNumber).rules = .ok (ofCuisine notNumber) := by decide
  have stored : (vacant.after [(.standard 1, .call (.create (wish notNumber)))]).collections.map
      Collection.rules = [(ofCuisine notNumber).toJson] := by decide +kernel
  obtain ⟨c, only, rules⟩ := List.map_eq_singleton_iff.mp stored
  refine ⟨rfl, named, ⟨_, read⟩, accepted, c, only, ?_, ?_⟩
  · rw [rules]
    decide
  · rw [rules]
    rintro ⟨r, again, _⟩
    have refused : Rule.accept (ofCuisine notNumber).toJson =
        .error [⟨.ofCondition 0 0, "value", .value⟩] := by decide
    rw [refused] at again
    cases again

end Shelf

end Cookbook
