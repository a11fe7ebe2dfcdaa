import Cookbook.Proofs.Query.Matches
import Cookbook.Proofs.Shelf.Steps
import Cookbook.Shelf.Call

/-!
# Commits

All that the calls can do to the shelf, one lasting step at a time.  A step puts one changed row in
place of another, adds rows that are told apart from all others, takes a row away or draws an id; no
step touches the catalog.
-/

namespace Cookbook

namespace Shelf

def Keyed (s : Shelf) : Prop := (s.collections.map Collection.id).Nodup

instance (s : Shelf) : Decidable s.Keyed := inferInstanceAs (Decidable (List.Nodup _))

/-- The record store over the catalog with everything in service. -/
def records (s : Shelf) : Store := ⟨s.catalog, none⟩

theorem mem_of_find?_eq_some {s : Shelf} {id : String} {c : Collection}
    (found : s.find? id = some c) : c.id = id ∧ c ∈ s.collections :=
  ⟨by simpa using List.find?_some found, List.mem_of_find?_eq_some found⟩

theorem Keyed.find?_eq_some {s : Shelf} {c : Collection} (keyed : s.Keyed)
    (row : c ∈ s.collections) : s.find? c.id = some c := by
  unfold find?
  cases found : s.collections.find? (·.id == c.id) with
  | none => simpa using List.find?_eq_none.mp found c row
  | some d =>
    have same : d.id = c.id := by simpa using List.find?_some found
    have equal := List.inj_on_of_nodup_map keyed (List.mem_of_find?_eq_some found) row same
    rw [equal]

/-- The shelf with each row changed in place. -/
def mapRows (s : Shelf) (f : Collection → Collection) : Shelf :=
  { s with collections := s.collections.map f }

section Rows

variable {s : Shelf} {f : Collection → Collection}

theorem map_id_mapRows (kept : ∀ c, (f c).id = c.id) :
    (s.mapRows f).collections.map Collection.id = s.collections.map Collection.id := by
  rw [mapRows, List.map_map]
  exact List.map_congr_left fun c _ => kept c

theorem find?_mapRows (kept : ∀ c, (f c).id = c.id) (id : String) :
    (s.mapRows f).find? id = (s.find? id).map f := by
  have same : ((fun c : Collection => c.id == id) ∘ f) = fun c => c.id == id := by
    funext c
    simp [kept c]
  rw [find?, mapRows, List.find?_map, same]
  rfl

theorem mapRows_congr {g : Collection → Collection} (same : ∀ c ∈ s.collections, f c = g c) :
    s.mapRows f = s.mapRows g := by
  rw [mapRows, mapRows, List.map_congr_left same]

theorem mapRows_eq_self (same : ∀ c ∈ s.collections, f c = c) : s.mapRows f = s := by
  rw [mapRows_congr (g := id) same, mapRows, List.map_id]

end Rows

theorem put_eq_mapRows (s : Shelf) (c : Collection) :
    s.put c = s.mapRows fun d => if d.id = c.id then c else d := rfl

theorem id_of_put (c d : Collection) : (if d.id = c.id then c else d).id = d.id := by
  split
  next same => exact same.symm
  next => rfl

theorem map_id_put (s : Shelf) (c : Collection) :
    (s.put c).collections.map Collection.id = s.collections.map Collection.id :=
  map_id_mapRows (id_of_put c)

theorem Keyed.put {s : Shelf} (keyed : s.Keyed) (c : Collection) : (s.put c).Keyed := by
  rw [Keyed, map_id_put]
  exact keyed

theorem put_eq_self {s : Shelf} (keyed : s.Keyed) {c : Collection} (row : c ∈ s.collections) :
    s.put c = s := by
  rw [put_eq_mapRows]
  refine mapRows_eq_self fun d member => ?_
  split
  next same => exact (List.inj_on_of_nodup_map keyed member row same).symm
  next => rfl

theorem mem_put {s : Shelf} {c d : Collection} (row : d ∈ (s.put c).collections) :
    d = c ∨ d ∈ s.collections := by
  obtain ⟨e, among, rfl⟩ := List.mem_map.mp row
  split
  · exact .inl rfl
  · exact .inr among

theorem mem_put_self {s : Shelf} {c d : Collection} (row : c ∈ s.collections)
    (same : c.id = d.id) : d ∈ (s.put d).collections :=
  List.mem_map.mpr ⟨c, row, if_pos same⟩

theorem mem_put_of_mem {s : Shelf} {c d : Collection} (row : d ∈ s.collections)
    (other : d.id ≠ c.id) : d ∈ (s.put c).collections :=
  List.mem_map.mpr ⟨d, row, if_neg other⟩

theorem find?_put (s : Shelf) (d : Collection) (id : String) :
    (s.put d).find? id = (s.find? id).map fun e => if e.id = d.id then d else e :=
  find?_mapRows (id_of_put d) id

theorem find?_put_of_ne {s : Shelf} {d : Collection} {id : String} (other : id ≠ d.id) :
    (s.put d).find? id = s.find? id := by
  rw [find?_put]
  cases found : s.find? id with
  | none => rfl
  | some e =>
    obtain ⟨rfl, _⟩ := mem_of_find?_eq_some found
    rw [Option.map_some, if_neg other]

/-- What is true at first and kept by every step is true wherever the steps lead. -/
theorem Reaches.keeps {C : Shelf → Shelf → Prop} {I : Shelf → Prop} {s t : Shelf}
    (reached : Reaches C s t) (step : ∀ s t, C s t → I s → I t) (first : I s) : I t := by
  induction reached with
  | refl => exact first
  | tail _ last ih => exact step _ _ last ih

end Shelf

/-- What a call may make of a row of a shelf at a time. -/
inductive Revises (s : Shelf) (now : Instant) (c : Collection) : Call → Collection → Prop where
  | update {ch : Changes} {rules : Option Rule}
      (accepted : ch.rules.map Rule.accept = rules.map Except.ok)
      (free : ∀ slug ∈ ch.slug, slug ≠ c.slug → s.findSlug? slug = none) :
      Revises s now c (.update c.id ch) (c.change { ch with rules := rules.map Rule.toJson } now)
  | pin {r : PinRequest} (known : ∀ id ∈ r.ids, id ∈ s.catalog.idsOf .recipe) :
      Revises s now c (.pin c.id r) ((c.withPinned (c.pinnedWith r.ids r.position)).overridden now)
  | unpin (ids : List String) :
      Revises s now c (.unpin c.id ids)
        ((c.withPinned (Collection.removing c.pinnedIds ids)).overridden now)
  | reorder {ids : List String} (same : c.Reorders ids) :
      Revises s now c (.reorder c.id ids) ((c.withPinned ids).overridden now)
  | exclude {ids : List String} (known : ∀ id ∈ ids, id ∈ s.catalog.idsOf .recipe) :
      Revises s now c (.exclude c.id ids)
        (((c.withPinned (Collection.removing c.pinnedIds ids)).withExcluded
          (c.excludedIds ++ Collection.newcomers c.excludedIds ids)).overridden now)
  | unexclude (ids : List String) :
      Revises s now c (.unexclude c.id ids)
        ((c.withExcluded (Collection.removing c.excludedIds ids)).overridden now)
  | refresh {ids : Option (List String)} {l : Listing}
      (chosen : ∀ named ∈ ids, named ≠ [] → c.id ∈ named)
      (listed : s.records.currentListing c = .ok l) :
      Revises s now c (.refreshCounts ids) (c.store ⟨l.counts, now⟩)
  | publish {l : Listing} (force : Bool) (unpublished : ¬ c.IsPublished)
      (listed : s.records.currentListing c = .ok l) :
      Revises s now c (.publish c.id force) (c.published l.counts now)
  | unpublish (published : c.IsPublished) :
      Revises s now c (.unpublish c.id) (c.unpublished now)

theorem Revises.id_eq {s : Shelf} {now : Instant} {c d : Collection} {call : Call}
    (revises : Revises s now c call d) : d.id = c.id := by
  cases revises with
  | update =>
    unfold Collection.change
    dsimp only
    split <;> rfl
  | _ => rfl

/-- A lasting step of a call. -/
inductive Commit (env : Surroundings) : Call → Shelf → Shelf → Prop where
  | draw (call : Call) (s : Shelf) : Commit env call s { s with drawn := s.drawn + 1 }
  | create {s : Shelf} {n : NewCollection} {r : Rule} (accepted : Rule.accept n.rules = .ok r)
      (allowed : Action.insertable [.ofNew n r.toJson (idText s.drawn) env.now] s = .ok ()) :
      Commit env (.create n) s (s.add [.ofNew n r.toJson (idText s.drawn) env.now])
  | link {s : Shelf} {cs : List Collection}
      (sources : ∀ c ∈ cs, ∃ l ∈ s.unlinkedSources, ∃ slug id, c = l.toCollection slug id env.now)
      (allowed : Action.insertable cs s = .ok ()) :
      Commit env .syncLinked s (s.add cs)
  | revise {s : Shelf} {call : Call} {c d : Collection} (row : c ∈ s.collections)
      (revises : Revises s env.now c call d) (fits : d.FitsColumns) :
      Commit env call s (s.put d)
  | delete {s : Shelf} {c : Collection} (row : c ∈ s.collections) :
      Commit env (.delete c.id) s (s.remove c.id)

namespace Commit

variable {env : Surroundings} {call : Call} {s t : Shelf}

theorem catalog_eq (commit : Commit env call s t) : t.catalog = s.catalog := by
  cases commit <;> rfl

theorem accepts_of_insertable {cs : List Collection}
    (allowed : Action.insertable cs s = .ok ()) : s.Accepts cs := by
  obtain ⟨_, _, accepts⟩ := Attempt.bind_eq_ok_iff.mp allowed
  by_cases accepted : s.Accepts cs
  · exact accepted
  · rw [if_neg accepted] at accepts
    cases accepts

theorem keyed (commit : Commit env call s t) (keyed : s.Keyed) : t.Keyed := by
  cases commit with
  | draw => exact keyed
  | create _ allowed => exact (accepts_of_insertable allowed).1
  | link _ allowed => exact (accepts_of_insertable allowed).1
  | revise _ _ _ => exact keyed.put _
  | delete _ => exact (List.filter_sublist.map Collection.id).nodup keyed

end Commit

/-- Where a row comes from that is on a shelf after a commit. -/
inductive Arises (env : Surroundings) (s : Shelf) : Call → Collection → Prop where
  | kept {call : Call} {c : Collection} (row : c ∈ s.collections) : Arises env s call c
  | created {n : NewCollection} {r : Rule} (accepted : Rule.accept n.rules = .ok r) :
      Arises env s (.create n) (.ofNew n r.toJson (idText s.drawn) env.now)
  | linked {l : LinkSource} (source : l ∈ s.unlinkedSources) (slug id : String) :
      Arises env s .syncLinked (l.toCollection slug id env.now)
  | revised {call : Call} {c d : Collection} (row : c ∈ s.collections)
      (revises : Revises s env.now c call d) : Arises env s call d

namespace Commit

variable {env : Surroundings} {call : Call} {s t : Shelf}

theorem arises (commit : Commit env call s t) {d : Collection} (row : d ∈ t.collections) :
    Arises env s call d := by
  cases commit with
  | draw => exact .kept row
  | create accepted _ =>
    rcases List.mem_append.mp row with old | new
    · exact .kept old
    · obtain rfl := List.mem_singleton.mp new
      exact .created accepted
  | link sources _ =>
    rcases List.mem_append.mp row with old | new
    · exact .kept old
    · obtain ⟨l, source, slug, id, rfl⟩ := sources d new
      exact .linked source slug id
  | revise among revises _ =>
    rcases Shelf.mem_put row with rfl | old
    · exact .revised among revises
    · exact .kept old
  | delete _ => exact .kept (List.mem_filter.mp row).1

/-- Only its deletion ends a row. -/
theorem exists_row (commit : Commit env call s t) (keyed : s.Keyed) {c : Collection}
    (row : c ∈ s.collections) (other : call ≠ .delete c.id) :
    ∃ d ∈ t.collections, d.id = c.id ∧ (d = c ∨ Revises s env.now c call d) := by
  cases commit with
  | draw => exact ⟨c, row, rfl, .inl rfl⟩
  | create => exact ⟨c, List.mem_append_left _ row, rfl, .inl rfl⟩
  | link => exact ⟨c, List.mem_append_left _ row, rfl, .inl rfl⟩
  | @revise _ _ e d among revises _ =>
    by_cases same : c.id = d.id
    · have equal : e = c :=
        List.inj_on_of_nodup_map keyed among row (revises.id_eq.symm.trans same.symm)
      subst equal
      exact ⟨d, Shelf.mem_put_self row same, same.symm, .inr revises⟩
    · exact ⟨c, Shelf.mem_put_of_mem row same, rfl, .inl rfl⟩
  | @delete _ e _ =>
    have different : c.id ≠ e.id := fun same => other (by rw [same])
    exact ⟨c, List.mem_filter.mpr ⟨row, by simpa using different⟩, rfl, .inl rfl⟩

end Commit

namespace Shelf

/-- What the commits keep true of a row that they do not end is true of it wherever they lead. -/
theorem Reaches.keeps_row (env : Surroundings) {C : Shelf → Shelf → Prop} {J : Collection → Prop}
    {s t : Shelf} {c : Collection} (reached : Reaches C s t) (keyed : s.Keyed)
    (row : c ∈ s.collections) (first : J c)
    (step : ∀ s t, C s t → ∃ call, Commit env call s t ∧ call ≠ .delete c.id ∧
      ∀ b b', b.id = c.id → Revises s env.now b call b' → J b → J b') :
    ∃ d, t.find? c.id = some d ∧ J d := by
  have kept : t.Keyed ∧ ∃ b ∈ t.collections, b.id = c.id ∧ J b := by
    refine reached.keeps (I := fun t => t.Keyed ∧ ∃ b ∈ t.collections, b.id = c.id ∧ J b) ?_
      ⟨keyed, c, row, rfl, first⟩
    rintro s t taken ⟨apart, b, among, same, holds⟩
    obtain ⟨call, commit, other, keeps⟩ := step s t taken
    obtain ⟨b', after, same', rfl | revises⟩ := commit.exists_row apart among (same ▸ other)
    · exact ⟨commit.keyed apart, b', after, same, holds⟩
    · exact ⟨commit.keyed apart, b', after, same'.trans same, keeps b b' same revises holds⟩
  obtain ⟨apart, b, among, same, holds⟩ := kept
  exact ⟨b, same ▸ apart.find?_eq_some among, holds⟩

end Shelf

end Cookbook
