import Cookbook.Proofs.Shelf.Drawn
import Cookbook.Proofs.Shelf.WellKept

/-!
# Definitions in place

A definition is put in place by creating a row or by changing the row of its slug.  Both ways end in
a row with every part as the definition gives it, and no other row changes.  A row that is in place
already is not changed but for its time.
-/

namespace Cookbook

namespace Definition

variable {d : Definition}

/-- It can be put in place: it has a name and a slug, its rule has no problems, and its numbers fit
the columns. -/
structure Fit (d : Definition) : Prop where
  name : d.name ≠ ""
  slug : d.slug ≠ ""
  rules : ∃ r, Rule.accept d.rules = .ok r
  columns : ∀ n ∈ [d.minRequired, d.targetCount, d.sortOrder], (Number.int n).FitsWord

theorem emptyIssues_eq_nil_iff : d.emptyIssues = [] ↔ d.name ≠ "" ∧ d.slug ≠ "" := by
  simp [emptyIssues]

theorem pagePath_ne_empty (d : Definition) : d.pagePath ≠ "" := by
  unfold pagePath
  cases given : presentText? d.path with
  | none => simp [Collection.defaultPath]
  | some path =>
    have filled := (Option.filter_eq_some_iff.mp given).2
    simpa using filled

end Definition

namespace Collection

variable {c : Collection} {d : Definition} {r : Rule}

/-- Every part of the row that a definition has a say in is as the definition gives it: the path or
the default one, the rule as it is written after it was checked or one alike to this, and lists
without repetitions. -/
structure DefinedBy (c : Collection) (d : Definition) : Prop where
  name : c.name = d.name
  slug : c.slug = d.slug
  type : c.type = d.type
  status : c.status = d.status
  path : c.path = some d.pagePath
  description : c.description = d.description
  rules : ∃ r, Rule.accept d.rules = .ok r ∧ (c.rules = r.toJson ∨ r.toJson.alike c.rules = true)
  links : c.links = d.links
  pinned : c.pinned = some (distinct d.pinned)
  excluded : c.excluded = some (distinct d.excluded)
  minRequired : c.minRequired = d.minRequired
  targetCount : c.targetCount = d.targetCount
  sortOrder : c.sortOrder = d.sortOrder

/-- What an update by the definition makes of the row when its rule is accepted as the given one. -/
def redefined (c : Collection) (d : Definition) (r : Rule) (now : Instant) : Collection :=
  c.change { d.toChanges with rules := some r.toJson } now

theorem newRules_cases (old given : Json) :
    newRules old (some given) = given ∨ given.alike (newRules old (some given)) = true := by
  unfold newRules
  dsimp only
  split
  next alike => exact .inr alike
  next => exact .inl rfl

theorem definedBy_ofNew (accepted : Rule.accept d.rules = .ok r) (id : String) (now : Instant) :
    (ofNew d.toNew r.toJson id now).DefinedBy d where
  name := rfl
  slug := rfl
  type := rfl
  status := rfl
  path := by
    change some ((presentText? (some d.pagePath)).getD _) = _
    rw [presentText?_eq_some d.pagePath_ne_empty]
    rfl
  description := rfl
  rules := ⟨r, accepted, .inl rfl⟩
  links := rfl
  pinned := rfl
  excluded := rfl
  minRequired := rfl
  targetCount := rfl
  sortOrder := rfl

theorem id_redefined (c : Collection) (d : Definition) (r : Rule) (now : Instant) :
    (c.redefined d r now).id = c.id := by
  rw [redefined, change_eq]
  rfl

theorem definedBy_redefined (accepted : Rule.accept d.rules = .ok r) (c : Collection)
    (now : Instant) : (c.redefined d r now).DefinedBy d := by
  rw [redefined, change_eq]
  exact {
    name := rfl
    slug := rfl
    type := rfl
    status := rfl
    path := rfl
    description := rfl
    rules := ⟨r, accepted, newRules_cases c.rules r.toJson⟩
    links := rfl
    pinned := rfl
    excluded := rfl
    minRequired := rfl
    targetCount := rfl
    sortOrder := rfl }

/-- A row in place keeps everything but the time of its last change. -/
theorem DefinedBy.redefined_eq (defined : c.DefinedBy d) (accepted : Rule.accept d.rules = .ok r)
    (now : Instant) : c.redefined d r now = { c with updatedAt := now } := by
  have rules : newRules c.rules (some r.toJson) = c.rules := by
    obtain ⟨r', accepted', stored⟩ := defined.rules
    obtain rfl := Except.ok.inj (accepted.symm.trans accepted')
    unfold newRules
    dsimp only
    split
    · rfl
    next unlike => exact (stored.resolve_right unlike).symm
  have edited : c.edited { d.toChanges with rules := some r.toJson } = c := by
    have pinned : ((some d.pinned).map distinct).orElse (fun _ => c.pinned) = c.pinned :=
      defined.pinned.symm
    have excluded : ((some d.excluded).map distinct).orElse (fun _ => c.excluded) = c.excluded :=
      defined.excluded.symm
    simp only [Collection.edited, Definition.toChanges, Option.getD_some, rules, pinned, excluded,
      ← defined.name, ← defined.slug, ← defined.type, ← defined.status, ← defined.path,
      ← defined.description, ← defined.links, ← defined.minRequired, ← defined.targetCount,
      ← defined.sortOrder]
  rw [redefined, change_eq, edited, if_neg]
  simp [InputsDiffer]

theorem DefinedBy.fitsColumns (defined : c.DefinedBy d) (fit : d.Fit) : c.FitsColumns := by
  unfold FitsColumns columnNumbers
  rw [defined.minRequired, defined.targetCount, defined.sortOrder]
  exact fit.columns

end Collection

namespace Action

variable {env : Surroundings} {s : Shelf}

theorem run_checkedRules {j : Json} {r : Rule} (accepted : Rule.accept j = .ok r) :
    (checkedRules j).run env s = (.ok r.toJson, s) := by
  rw [checkedRules, accepted]
  rfl

theorem run_requireFree {slug : String} (free : s.findSlug? slug = none) :
    (requireFree slug).run env s = (.ok (), s) := by
  simp [requireFree, free]

/-- In service a row with a new slug is created. -/
theorem run_create (service : env.outage = none) {n : NewCollection} {r : Rule}
    (accepted : Rule.accept n.rules = .ok r) (free : s.findSlug? n.slug = none) {c : Collection}
    (made : c = .ofNew n r.toJson (idText (s.drawn + 1)) env.now)
    (allowed : insertable [c] { s with drawn := s.drawn + 1 } = .ok ()) :
    (create n).run env s = (.ok c, { s with drawn := s.drawn + 1 }.add [c]) := by
  subst made
  rw [create, run_bind, run_checkedRules accepted]
  dsimp only
  rw [run_bind, run_requireFree free]
  dsimp only
  rw [run_bind, run_drawId]
  dsimp only
  rw [run_bind, run_now]
  dsimp only
  rw [run_bind, run_insert service allowed]
  rfl

/-- In service a row that keeps its slug is changed. -/
theorem run_update (service : env.outage = none) {c : Collection} (found : s.find? c.id = some c)
    {ch changed : Changes} {j : Json} {r : Rule} (rules : ch.rules = some j)
    (accepted : Rule.accept j = .ok r) (same : changed = { ch with rules := some r.toJson })
    (slug : changed.slug = some c.slug) (fits : (c.change changed env.now).FitsColumns) :
    (update c.id ch).run env s =
      (.ok (c.change changed env.now), s.put (c.change changed env.now)) := by
  have checked : (checkedChanges ch).run env s = (.ok changed, s) := by
    rw [checkedChanges, rules]
    dsimp only
    rw [run_bind, run_checkedRules accepted, same]
    rfl
  rw [update, run_bind, run_require, required, found]
  dsimp only
  rw [run_bind, checked]
  dsimp only
  rw [slug]
  dsimp only
  rw [if_neg (not_not.mpr rfl), run_bind, run_now]
  dsimp only
  rw [run_bind, run_save service _ fits]
  rfl

/-- A definition with a new slug becomes a row. -/
theorem run_define_of_new (service : env.outage = none) (apart : s.ToldApart) {d : Definition}
    (fit : d.Fit) {r : Rule} (accepted : Rule.accept d.rules = .ok r)
    (new : s.findSlug? d.slug = none) (a : SyncAnswer) {c : Collection}
    (made : c = .ofNew d.toNew r.toJson (idText (s.drawn + 1)) env.now) :
    (define a d).run env s = (.ok { a with created := a.created ++ [d.slug] },
      { s with drawn := s.drawn + 1 }.add [c]) ∧
    ({ s with drawn := s.drawn + 1 }.add [c]).ToldApart := by
  have after : ({ s with drawn := s.drawn + 1 }.add [c]).ToldApart := by
    refine apart.add (Nat.le_succ _) (List.nodup_singleton _) ?_ (List.nodup_singleton _) ?_
    · rw [List.forall_mem_singleton, made]
      exact Shelf.findSlug?_eq_none_iff.mp new
    · rw [List.forall_mem_singleton, made]
      exact ⟨s.drawn + 1, Nat.lt_succ_self _, le_rfl, rfl⟩
  have allowed : insertable [c] { s with drawn := s.drawn + 1 } = .ok () := by
    refine insertable_eq_ok ?_ ⟨after.ids, after.slugs⟩
    rw [List.forall_mem_singleton, made]
    exact (Collection.definedBy_ofNew accepted _ _).fitsColumns fit
  have free : s.findSlug? d.toNew.slug = none := new
  refine ⟨?_, after⟩
  rw [define, run_bind, run_get]
  dsimp only
  rw [new, Definition.emptyIssues_eq_nil_iff.mpr ⟨fit.name, fit.slug⟩]
  change (create d.toNew >>= fun _ => pure _).run env s = _
  rw [run_bind, run_create service accepted free made allowed]
  rfl

/-- Otherwise the row of the slug is redefined. -/
theorem run_define_of_found (service : env.outage = none) (apart : s.ToldApart) {d : Definition}
    (fit : d.Fit) {r : Rule} (accepted : Rule.accept d.rules = .ok r) {c : Collection}
    (found : s.findSlug? d.slug = some c) (a : SyncAnswer) :
    (define a d).run env s = (.ok { a with updated := a.updated ++ [d.slug] },
      s.put (c.redefined d r env.now)) := by
  obtain ⟨slug, row⟩ := Shelf.mem_of_findSlug?_eq_some found
  have fits := (Collection.definedBy_redefined accepted c env.now).fitsColumns fit
  rw [define, run_bind, run_get]
  dsimp only
  rw [found, Definition.emptyIssues_eq_nil_iff.mpr ⟨fit.name, fit.slug⟩]
  change (update c.id d.toChanges >>= fun _ => pure _).run env s = _
  rw [run_bind, run_update service (apart.ids.find?_eq_some row) rfl accepted rfl
    (congrArg some slug.symm) fits]
  rfl

end Action

/-- What putting a definition in place does to the rows: one of them is as the definition says, and
the others stay. -/
structure Definition.Settles (d : Definition) (s t : Shelf) : Prop where
  apart : t.ToldApart
  catalog : t.catalog = s.catalog
  row : ∃ c ∈ t.collections, c.DefinedBy d
  others : ∀ c : Collection, c.slug ≠ d.slug → (c ∈ t.collections ↔ c ∈ s.collections)

theorem Definition.Settles.of_add {d : Definition} {s : Shelf} {n : Nat} {c : Collection}
    (apart : ({ s with drawn := n }.add [c]).ToldApart) (defined : c.DefinedBy d) :
    d.Settles s ({ s with drawn := n }.add [c]) where
  apart := apart
  catalog := rfl
  row := ⟨c, List.mem_append_right _ (List.mem_singleton_self c), defined⟩
  others e other := by
    rw [Shelf.add, List.mem_append, List.mem_singleton]
    exact or_iff_left fun same => other (same ▸ defined.slug)

theorem Definition.Settles.of_put {d : Definition} {s : Shelf} (apart : s.ToldApart)
    {c e : Collection} (row : c ∈ s.collections) (slug : c.slug = d.slug) (id : e.id = c.id)
    (defined : e.DefinedBy d) : d.Settles s (s.put e) where
  apart := apart.put row id (defined.slug.trans slug.symm)
  catalog := rfl
  row := ⟨e, Shelf.mem_put_self row id.symm, defined⟩
  others f other := by
    constructor
    · intro member
      exact (Shelf.mem_put member).resolve_left fun same => other (same ▸ defined.slug)
    · intro among
      refine Shelf.mem_put_of_mem among fun same => other ?_
      rw [List.inj_on_of_nodup_map apart.ids among row (same.trans id), slug]

/-- The answer after one more definition. -/
def SyncAnswer.noting (a : SyncAnswer) (s : Shelf) (slug : String) : SyncAnswer :=
  if slug ∈ s.collections.map Collection.slug then { a with updated := a.updated ++ [slug] }
  else { a with created := a.created ++ [slug] }

/-- Why a sheet that is not put in place is not. -/
def Sheet.refusal (s : Sheet) : Failure :=
  match s.emptyIssues with
  | [] => unwritable
  | is => .request is

namespace Action

variable {env : Surroundings} {s : Shelf} {sheet : Sheet}

/-- A sheet is put in place as its definition is. -/
theorem run_place {d : Definition} (written : sheet.written = .ok d) (a : SyncAnswer) :
    (place a sheet).run env s = (define a d).run env s := by
  obtain ⟨r, _, rfl⟩ := Sheet.of_written_eq_ok written
  have same : ({ sheet with rules := r.asGiven } : Definition).emptyIssues = sheet.emptyIssues :=
    rfl
  unfold place
  cases issues : sheet.emptyIssues with
  | nil => rw [written, run_bind, run_attempt]
  | cons i is =>
    rw [define, run_bind, run_get]
    dsimp only
    rw [same, issues]
    rfl

theorem run_place_of_unwritten {e : Failure} (unwritten : sheet.written = .error e)
    (a : SyncAnswer) : (place a sheet).run env s = (.error sheet.refusal, s) := by
  have refused : e = Sheet.unwritable := Sheet.eq_unwritable_of_written_eq_error unwritten
  unfold place Sheet.refusal
  cases sheet.emptyIssues with
  | nil =>
    dsimp only
    rw [run_bind, run_attempt, unwritten, refused]
  | cons i is => rfl

end Action

/-- In service a fit definition is put in place. -/
theorem Action.exists_define {env : Surroundings} {s : Shelf} (service : env.outage = none)
    (apart : s.ToldApart) {d : Definition} (fit : d.Fit) (a : SyncAnswer) :
    ∃ t, (define a d).run env s = (.ok (a.noting s d.slug), t) ∧ d.Settles s t := by
  obtain ⟨r, accepted⟩ := fit.rules
  cases found : s.findSlug? d.slug with
  | none =>
    obtain ⟨ran, after⟩ := run_define_of_new service apart fit accepted found a rfl
    refine ⟨_, ?_, .of_add after (Collection.definedBy_ofNew accepted _ _)⟩
    rw [SyncAnswer.noting, if_neg (Shelf.findSlug?_eq_none_iff.mp found)]
    exact ran
  | some c =>
    obtain ⟨slug, row⟩ := Shelf.mem_of_findSlug?_eq_some found
    refine ⟨_, ?_, .of_put apart row slug (c.id_redefined d r env.now)
      (Collection.definedBy_redefined accepted c env.now)⟩
    rw [SyncAnswer.noting, if_pos (slug ▸ List.mem_map_of_mem row)]
    exact run_define_of_found service apart fit accepted found a

end Cookbook
