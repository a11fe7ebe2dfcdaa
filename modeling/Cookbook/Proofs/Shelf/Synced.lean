import Cookbook.Proofs.Listing.Arrange
import Cookbook.Proofs.Shelf.Defined
import Mathlib.Data.List.Induction

/-!
# Lists of definitions

Putting a list of definitions in place is an upsert by slug.  The last definition of a slug decides
what its row is, and rows of other slugs stay.  Once all of them are in place, to put them in place
again changes nothing but times.
-/

namespace Cookbook

namespace Definition

variable {R : Type} {ds : List (Definition R)} {d : Definition R} {slug : String}

/-- The definition of a slug that comes last. -/
def last? (ds : List (Definition R)) (slug : String) : Option (Definition R) :=
  ds.reverse.find? (·.slug == slug)

theorem last?_append_singleton (ds : List (Definition R)) (d : Definition R) (slug : String) :
    last? (ds ++ [d]) slug = if d.slug = slug then some d else last? ds slug := by
  rw [last?, List.reverse_append, List.reverse_singleton, List.singleton_append, List.find?_cons]
  by_cases same : d.slug = slug
  · rw [if_pos same, beq_iff_eq.mpr same]
  · rw [if_neg same, beq_eq_false_iff_ne.mpr same]
    rfl

theorem of_last?_eq_some (found : last? ds slug = some d) : d ∈ ds ∧ d.slug = slug :=
  ⟨List.mem_reverse.mp (List.mem_of_find?_eq_some found), by simpa using List.find?_some found⟩

theorem exists_last? (listed : slug ∈ ds.map Definition.slug) : ∃ d, last? ds slug = some d := by
  obtain ⟨d, member, rfl⟩ := List.mem_map.mp listed
  refine Option.isSome_iff_exists.mp (List.find?_isSome.mpr ⟨d, List.mem_reverse.mpr member, ?_⟩)
  exact beq_self_eq_true d.slug

theorem last?_eq_some (once : (ds.map Definition.slug).Nodup) (member : d ∈ ds) :
    last? ds d.slug = some d := by
  obtain ⟨e, found⟩ := exists_last? (List.mem_map_of_mem member)
  obtain ⟨among, same⟩ := of_last?_eq_some found
  rw [found, List.inj_on_of_nodup_map once among member same]

end Definition

/-- Rows are told apart, and the last definition of each slug of the list is in place. -/
structure Shelf.Reflects (s : Shelf) (ds : List Definition) : Prop where
  apart : s.ToldApart
  rows : ∀ slug d, Definition.last? ds slug = some d → ∃ c ∈ s.collections, c.DefinedBy d

theorem Shelf.Reflects.mem_slugs {s : Shelf} {ds : List Definition} (reflects : s.Reflects ds)
    {slug : String} (listed : slug ∈ ds.map Definition.slug) :
    slug ∈ s.collections.map Collection.slug := by
  obtain ⟨d, found⟩ := Definition.exists_last? listed
  obtain ⟨c, row, defined⟩ := reflects.rows slug d found
  exact (defined.slug.trans (Definition.of_last?_eq_some found).2) ▸ List.mem_map_of_mem row

namespace Definition

variable {ds : List Definition} {d : Definition} {slug : String}

/-- What putting a list of definitions in place does to the rows. -/
structure SettleAll (ds : List Definition) (s t : Shelf) : Prop extends t.Reflects ds where
  catalog : t.catalog = s.catalog
  others : ∀ c : Collection, c.slug ∉ ds.map Definition.slug →
    (c ∈ t.collections ↔ c ∈ s.collections)

variable {s t u : Shelf}

theorem SettleAll.nil (apart : s.ToldApart) : SettleAll [] s s where
  apart := apart
  catalog := rfl
  rows _ _ found := nomatch found
  others _ _ := Iff.rfl

theorem SettleAll.append_singleton (first : SettleAll ds s t) (last : d.Settles t u) :
    SettleAll (ds ++ [d]) s u where
  apart := last.apart
  catalog := last.catalog.trans first.catalog
  rows slug e found := by
    rw [last?_append_singleton] at found
    split at found
    next => exact Option.some.inj found ▸ last.row
    next other =>
      obtain ⟨c, row, defined⟩ := first.rows slug e found
      have apart : c.slug ≠ d.slug := by
        rw [defined.slug, (of_last?_eq_some found).2]
        exact Ne.symm other
      exact ⟨c, (last.others c apart).mpr row, defined⟩
  others c unlisted := by
    simp only [List.map_append, List.mem_append, List.map_singleton, List.mem_singleton,
      not_or] at unlisted
    rw [last.others c unlisted.2, first.others c unlisted.1]

/-- The slugs afterwards are those of the list and the old ones. -/
theorem SettleAll.mem_slugs (settled : SettleAll ds s t) :
    slug ∈ t.collections.map Collection.slug ↔
      slug ∈ ds.map Definition.slug ∨ slug ∈ s.collections.map Collection.slug := by
  by_cases listed : slug ∈ ds.map Definition.slug
  · simp only [listed, true_or, iff_true]
    exact settled.toReflects.mem_slugs listed
  · simp only [listed, false_or, List.mem_map]
    constructor
    · rintro ⟨c, row, rfl⟩
      exact ⟨c, (settled.others c listed).mp row, rfl⟩
    · rintro ⟨c, row, rfl⟩
      exact ⟨c, (settled.others c listed).mpr row, rfl⟩

end Definition

namespace SyncAnswer

/-- The answer names each definition by its slug: as created the slugs that are new, in the order in
which they first come, and every other definition as updated. -/
structure Reports (a : SyncAnswer) (s : Shelf) (slugs : List String) : Prop where
  created : a.created = (distinct slugs).filter (· ∉ s.collections.map Collection.slug)
  all : (a.created ++ a.updated).Perm slugs

theorem Reports.nothing (s : Shelf) : nothing.Reports s [] := ⟨rfl, .refl _⟩

theorem Reports.noting {a : SyncAnswer} {s t : Shelf} {slugs : List String} {slug : String}
    (reports : a.Reports s slugs)
    (known : slug ∈ t.collections.map Collection.slug ↔
      slug ∈ slugs ∨ slug ∈ s.collections.map Collection.slug) :
    (a.noting t slug).Reports s (slugs ++ [slug]) := by
  have created : (distinct (slugs ++ [slug])).filter
      (· ∉ s.collections.map Collection.slug) = a.created ++
        if slug ∈ t.collections.map Collection.slug then [] else [slug] := by
    rw [distinct_append, List.filter_append, ← reports.created]
    generalize s.collections.map Collection.slug = rows at known
    by_cases old : slug ∈ slugs <;> by_cases row : slug ∈ rows <;> simp [known, old, row, distinct]
  unfold SyncAnswer.noting
  split
  next old =>
    rw [if_pos old, List.append_nil] at created
    refine ⟨created.symm, ?_⟩
    rw [← List.append_assoc]
    exact reports.all.append_right [slug]
  next new =>
    rw [if_neg new] at created
    refine ⟨created.symm, ?_⟩
    calc a.created ++ [slug] ++ a.updated
      _ = a.created ++ ([slug] ++ a.updated) := List.append_assoc _ _ _
      _ |>.Perm (a.created ++ (a.updated ++ [slug])) := List.perm_append_comm.append_left _
      _ = a.created ++ a.updated ++ [slug] := (List.append_assoc _ _ _).symm
      _ |>.Perm (slugs ++ [slug]) := reports.all.append_right _

end SyncAnswer

namespace Action

variable {env : Surroundings} {s : Shelf} {ds : List Definition}

theorem syncDefinitions_append_singleton (ds : List Definition) (d : Definition) :
    syncDefinitions (ds ++ [d]) = syncDefinitions ds >>= fun a => define a d := by
  simp [syncDefinitions, List.foldlM_append]

/-- In service fit definitions are put in place one by one. -/
theorem exists_syncDefinitions (service : env.outage = none) (apart : s.ToldApart)
    (fit : ∀ d ∈ ds, d.Fit) :
    ∃ a t, (syncDefinitions ds).run env s = (.ok a, t) ∧ Definition.SettleAll ds s t ∧
      a.Reports s (ds.map Definition.slug) := by
  induction ds using List.reverseRecOn with
  | nil => exact ⟨.nothing, s, rfl, .nil apart, .nothing s⟩
  | append_singleton ds d ih =>
    obtain ⟨a, t, ran, settled, reports⟩ := ih fun e member => fit e (List.mem_append_left _ member)
    obtain ⟨u, defined, settles⟩ := exists_define service settled.apart
      (fit d (List.mem_append_right _ (List.mem_singleton_self d))) a
    refine ⟨a.noting t d.slug, u, ?_, settled.append_singleton settles, ?_⟩
    · rw [syncDefinitions_append_singleton, run_bind, ran]
      exact defined
    · rw [List.map_append, List.map_singleton]
      exact reports.noting settled.mem_slugs

end Action

namespace Event

/-- It takes counts and does nothing else. -/
def Recounts : Event → Prop
  | refresh _ => True
  | call (.refreshCounts _) => True
  | _ => False

theorem Recounts.not_places {e : Event} (recounts : e.Recounts) (d : Definition) :
    ¬ e.Places d := by
  cases e with
  | define ds => exact recounts.elim
  | load source => exact recounts.elim
  | startUp source => exact recounts.elim
  | _ => exact id

theorem Recounts.exists_asks {e : Event} (recounts : e.Recounts) {call : Call}
    (asks : e.Asks call) : ∃ ids, call = .refreshCounts ids := by
  cases asks with
  | refresh id => exact ⟨_, rfl⟩
  | call =>
    cases call with
    | refreshCounts ids => exact ⟨ids, rfl⟩
    | _ => exact recounts.elim
  | create placed => exact absurd placed (recounts.not_places _)
  | update placed => exact absurd placed (recounts.not_places _)

end Event

namespace Shelf

variable {env : Surroundings} {s t : Shelf} {ds : List Definition}

/-- Counts are none of a definition's business. -/
theorem Reflects.recounted {ids : Option (List String)} (reflects : s.Reflects ds)
    (commit : Commit env (.refreshCounts ids) s t) : t.Reflects ds := by
  cases commit with
  | draw => exact ⟨reflects.apart.of_map_eq rfl rfl (Nat.le_succ _), reflects.rows⟩
  | @revise _ _ c _ row revises _ =>
    cases revises with
    | @refresh _ l _ _ =>
      refine ⟨reflects.apart.put row rfl rfl, fun slug d found => ?_⟩
      obtain ⟨e, among, defined⟩ := reflects.rows slug d found
      by_cases same : e.id = c.id
      · obtain rfl := List.inj_on_of_nodup_map reflects.apart.ids among row same
        exact ⟨e.store ⟨l.counts, env.now⟩, mem_put_self among rfl, { defined with }⟩
      · exact ⟨e, mem_put_of_mem among same, defined⟩

theorem Reflects.after (reflects : s.Reflects ds) {events : List (Surroundings × Event)}
    (counts : ∀ e ∈ events, e.2.Recounts) : (s.after events).Reflects ds := by
  refine keeps_after_of_asks (I := fun s => s.Reflects ds)
    (W := fun call => ∃ ids, call = .refreshCounts ids) ?_ reflects.apart.ids reflects events
    fun e member call asks => (counts e member).exists_asks asks
  rintro env _ s t ⟨ids, rfl⟩ commit reflects
  exact reflects.recounted commit

/-- The rows of some slugs with a new time of their last change. -/
def touched (s : Shelf) (now : Instant) (slugs : List String) : Shelf :=
  s.mapRows fun c => if c.slug ∈ slugs then { c with updatedAt := now } else c

theorem ToldApart.touched (apart : s.ToldApart) (now : Instant) (slugs : List String) :
    (s.touched now slugs).ToldApart := by
  refine apart.of_map_eq (map_id_mapRows fun c => ?_) ?_ le_rfl
  · split <;> rfl
  · rw [Shelf.touched, mapRows, List.map_map]
    refine List.map_congr_left fun c _ => ?_
    rw [Function.comp_apply]
    split <;> rfl

theorem put_touched (apart : s.ToldApart) {now : Instant} {slugs : List String} {c : Collection}
    (row : c ∈ s.collections) (new : c.slug ∉ slugs) :
    (s.touched now slugs).put { c with updatedAt := now } = s.touched now (slugs ++ [c.slug]) := by
  rw [touched, touched, put_eq_mapRows, mapRows, mapRows, mapRows, List.map_map]
  refine congrArg (Shelf.mk s.catalog · s.drawn) (List.map_congr_left fun e among => ?_)
  rw [Function.comp_apply]
  by_cases same : e.id = c.id
  · obtain rfl := List.inj_on_of_nodup_map apart.ids among row same
    simp [new]
  · have other : e.slug ≠ c.slug := fun equal =>
      same (List.inj_on_of_nodup_map apart.slugs among row equal ▸ rfl)
    by_cases old : e.slug ∈ slugs <;> simp [old, other, same]

end Shelf

namespace Action

variable {env : Surroundings} {s : Shelf} {ds : List Definition}

/-- Definitions with slugs of their own that are in place already change nothing but times. -/
theorem run_syncDefinitions_of_defined (service : env.outage = none) (apart : s.ToldApart)
    (fit : ∀ d ∈ ds, d.Fit) (once : (ds.map Definition.slug).Nodup)
    (rows : ∀ d ∈ ds, ∃ c ∈ s.collections, c.DefinedBy d) :
    (syncDefinitions ds).run env s =
      (.ok ⟨[], ds.map Definition.slug⟩, s.touched env.now (ds.map Definition.slug)) := by
  induction ds using List.reverseRecOn with
  | nil => exact Prod.ext rfl (Shelf.mapRows_eq_self fun c _ => if_neg List.not_mem_nil).symm
  | append_singleton ds d ih =>
    have last : d ∈ ds ++ [d] := List.mem_append_right _ (List.mem_singleton_self d)
    rw [List.map_append, List.map_singleton, List.nodup_append] at once
    obtain ⟨before, _, different⟩ := once
    have ran := ih (fun e member => fit e (List.mem_append_left _ member)) before
      fun e member => rows e (List.mem_append_left _ member)
    obtain ⟨c, row, defined⟩ := rows d last
    obtain ⟨r, accepted⟩ := (fit d last).rules
    have new : c.slug ∉ ds.map Definition.slug := fun member =>
      different _ member _ (List.mem_singleton_self _) defined.slug
    have found : (s.touched env.now (ds.map Definition.slug)).findSlug? d.slug = some c := by
      rw [← defined.slug]
      exact (apart.touched _ _).findSlug?_eq_some (List.mem_map.mpr ⟨c, row, if_neg new⟩)
    rw [syncDefinitions_append_singleton, run_bind, ran]
    dsimp only
    rw [run_define_of_found service (apart.touched _ _) (fit d last) accepted found,
      defined.redefined_eq accepted, Shelf.put_touched apart row new, List.map_append,
      List.map_singleton, defined.slug]

theorem exists_syncDefinitions_again (service : env.outage = none) (reflects : s.Reflects ds)
    (fit : ∀ d ∈ ds, d.Fit) :
    ∃ a t, (syncDefinitions ds).run env s = (.ok a, t) ∧ a.created = [] ∧
      ((ds.map Definition.slug).Nodup → t = s.touched env.now (ds.map Definition.slug)) := by
  obtain ⟨a, t, ran, _, reports⟩ := exists_syncDefinitions service reflects.apart fit
  refine ⟨a, t, ran, ?_, fun once => ?_⟩
  · rw [reports.created, List.filter_eq_nil_iff]
    intro slug listed
    simpa using reflects.mem_slugs (mem_distinct.mp listed)
  · have same := ran.symm.trans (run_syncDefinitions_of_defined service reflects.apart fit once
      fun d member => reflects.rows d.slug d (Definition.last?_eq_some once member))
    exact (Prod.mk.inj same).2

end Action

/-- Definitions that are fit are put in place as an upsert by slug.  For every slug of the list
there is one row afterwards, and it is as the last definition of the slug says; all other rows stay.
The answer has one entry for each definition, as created the slugs that were new.  When the list is
put in place again, with any refreshes in between, nothing is created, and if no slug comes twice
then only the times of the last change are different. -/
theorem Shelf.definitions_upsert {env : Surroundings} {s : Shelf} {ds : List Definition}
    (service : env.outage = none) (apart : s.ToldApart) (fit : ∀ d ∈ ds, d.Fit) :
    ∃ a t, (Action.syncDefinitions ds).run env s = (.ok a, t) ∧
      t.catalog = s.catalog ∧ t.ToldApart ∧
      (∀ slug ∈ ds.map Definition.slug, ∃ d c, Definition.last? ds slug = some d ∧
        c ∈ t.collections ∧ c.DefinedBy d ∧ ∀ e ∈ t.collections, e.slug = slug → e = c) ∧
      (∀ c : Collection, c.slug ∉ ds.map Definition.slug →
        (c ∈ t.collections ↔ c ∈ s.collections)) ∧
      a.created =
        (distinct (ds.map Definition.slug)).filter (· ∉ s.collections.map Collection.slug) ∧
      (a.created ++ a.updated).Perm (ds.map Definition.slug) ∧
      ∀ events, (∀ e ∈ events, e.2.Recounts) → ∀ env', env'.outage = none →
        ∃ b u, (Action.syncDefinitions ds).run env' (t.after events) = (.ok b, u) ∧
          b.created = [] ∧ ((ds.map Definition.slug).Nodup →
            u = (t.after events).touched env'.now (ds.map Definition.slug)) := by
  obtain ⟨a, t, ran, settled, reports⟩ := Action.exists_syncDefinitions service apart fit
  refine ⟨a, t, ran, settled.catalog, settled.apart, ?_, settled.others, reports.created,
    reports.all, ?_⟩
  · intro slug listed
    obtain ⟨d, found⟩ := Definition.exists_last? listed
    obtain ⟨c, row, defined⟩ := settled.rows slug d found
    refine ⟨d, c, found, row, defined, fun e among same => ?_⟩
    refine List.inj_on_of_nodup_map settled.apart.slugs among row ?_
    rw [same, defined.slug, (Definition.of_last?_eq_some found).2]
  · intro events counts env' service'
    exact Action.exists_syncDefinitions_again service' (settled.toReflects.after counts) fit

def Definition.house (slug name : String) : Definition :=
  ⟨slug, name, Collection.themeType, Status.draft, none, none, Rule.emptyJson, .unlinked,
    ["a", "a"], [], 1, 2, 0⟩

namespace Shelf

/-- A slug that has a row, a new one, and the first one again. -/
def houses : List Definition :=
  [.house "trattoria" "Da Rosa", .house "osteria" "Da Bruno", .house "trattoria" "Da Lucia"]

theorem toldApart_trattorie : trattorie.ToldApart where
  ids := by decide
  slugs := by decide
  fresh n _ := idText_not_mem (by decide) n

theorem definitions_upsert_houses :
    trattorie.ToldApart ∧ (∀ d ∈ houses, d.Fit) ∧
    ∃ a t b u, (Action.syncDefinitions houses).run (.standard 1) trattorie = (.ok a, t) ∧
      a = ⟨["osteria"], ["trattoria", "trattoria"]⟩ ∧
      (∃ c ∈ t.collections, c.DefinedBy (.house "trattoria" "Da Lucia") ∧
        ∀ e ∈ t.collections, e.slug = "trattoria" → e = c) ∧
      (Action.syncDefinitions houses).run (.standard 3) (t.after [(.standard 2, .refresh "t")]) =
        (.ok b, u) ∧ b.created = [] := by
  have fit : ∀ d ∈ houses, d.Fit := by
    have each (slug name : String) (filled : slug ≠ "") (named : name ≠ "") :
        (Definition.house slug name).Fit := by
      refine ⟨named, filled, ⟨_, rfl⟩, ?_⟩
      change ∀ n ∈ [(1 : Int), 2, 0], (Number.int n).FitsWord
      decide
    intro d member
    simp only [houses, List.mem_cons, List.not_mem_nil, or_false] at member
    rcases member with rfl | rfl | rfl <;> exact each _ _ (by decide) (by decide)
  have service : (Surroundings.standard 1).outage = none := rfl
  obtain ⟨a, t, ran, _, _, rows, _, _, _, again⟩ :=
    definitions_upsert service toldApart_trattorie fit
  have answer : ((Action.syncDefinitions houses).run (.standard 1) trattorie).1 =
      .ok ⟨["osteria"], ["trattoria", "trattoria"]⟩ := by decide +kernel
  rw [ran] at answer
  obtain ⟨b, u, ran', created, _⟩ := again [(.standard 2, .refresh "t")]
    (fun e member => by rw [List.mem_singleton.mp member]; trivial) (.standard 3) rfl
  obtain ⟨d, c, found, row, defined, only⟩ := rows "trattoria" (by decide)
  have last : Definition.last? houses "trattoria" = some (.house "trattoria" "Da Lucia") := by
    decide
  obtain rfl := Option.some.inj (found.symm.trans last)
  exact ⟨toldApart_trattorie, fit, a, t, b, u, ran, Except.ok.inj answer, ⟨c, row, defined, only⟩,
    ran', created⟩

end Shelf

end Cookbook
