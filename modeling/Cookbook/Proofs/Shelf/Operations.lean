import Cookbook.Proofs.Listing.Outage
import Cookbook.Proofs.Shelf.Commit

/-!
# Operations take their steps

Every call changes the shelf by its own commits only, however it ends.  An operation looks a row up,
checks what it is given, and commits last; a batch goes on to rows that its earlier steps leave
alone.
-/

namespace Cookbook

namespace Action

open Cookbook.Shelf (Reaches)

variable {env : Surroundings} {C : Shelf → Shelf → Prop} {P : Shelf → Prop}

theorem steps_require (id : String) :
    Steps env C P (require id) fun c t => P t ∧ c.id = id ∧ c ∈ t.collections :=
  (Steps.require id).post fun _ _ ⟨before, found⟩ => ⟨before, Shelf.mem_of_find?_eq_some found⟩

theorem steps_save {failure : Failure} {c : Collection}
    (step : ∀ s, P s → c.FitsColumns → C s (s.put c)) :
    Steps env C P (save failure c) fun _ _ => True := by
  refine (Steps.commit fun s before allowed => ?_).bind fun _ => Steps.readBack failure c.id
  refine step s before ?_
  by_cases fits : ∀ d ∈ [c], d.FitsColumns
  · exact fits c List.mem_cons_self
  · rw [fitting, if_neg fits] at allowed
    cases allowed

theorem steps_insert {cs : List Collection}
    (step : ∀ s, P s → insertable cs s = .ok () → C s (s.add cs)) :
    Steps env C P (insert cs) fun _ _ => True :=
  (Steps.commit step).bind fun _ => Steps.forM fun c _ => Steps.readBack _ c.id

/-- A listing that is taken is the one of the catalog, whatever else is out of service. -/
theorem steps_currentListing {α : Type} (c : Collection) {next : Listing → Action α}
    {Q : α → Shelf → Prop} (rest : ∀ l,
      Steps env C (fun t => P t ∧ t.records.currentListing c = .ok l) (next l) Q) :
    Steps env C P (do let st ← store; let l ← attempt (st.currentListing c); next l) Q := by
  refine Steps.store.bind fun st => (Steps.attempt _).bind fun l => (rest l).pre fun s served => ?_
  obtain ⟨⟨before, same⟩, listed⟩ := served
  refine ⟨before, ?_⟩
  have restored := st.currentListing_extends c l listed
  rwa [Store.restored, same] at restored

theorem steps_liveRead (c : Collection) :
    Steps env C P (liveRead c)
      fun read t => P t ∧ t.records.currentListing c = .ok read.listing := by
  refine steps_currentListing c fun l => ?_
  refine Steps.settings.bind fun s => (Steps.attempt _).bind fun p => Steps.pure ?_
  exact fun _ ⟨⟨served, _⟩, _⟩ => served

theorem steps_requireFree (slug : String) :
    Steps env C P (requireFree slug) fun _ t => P t ∧ t.findSlug? slug = none := by
  unfold requireFree
  refine Steps.get.bind fun s => ?_
  split
  · exact Steps.throw _
  next free => exact Steps.pure fun t ⟨before, same⟩ => ⟨before, by simpa [same] using free⟩

theorem steps_checkedRules (j : Json) :
    Steps env C P (checkedRules j)
      fun rules t => P t ∧ ∃ r, Rule.accept j = .ok r ∧ rules = r.toJson := by
  unfold checkedRules
  split
  next r accepted => exact Steps.pure fun t before => ⟨before, r, accepted, rfl⟩
  next => exact Steps.throw _

theorem steps_requireRecipes (ids : List String) :
    Steps env C P (requireRecipes ids)
      fun _ t => P t ∧ ∀ id ∈ ids, id ∈ t.catalog.idsOf .recipe := by
  unfold requireRecipes
  refine Steps.store.bind fun st => (Steps.attempt _).bind fun existing => ?_
  dsimp only
  split
  · exact Steps.throw _
  next complete =>
    refine Steps.pure fun t ⟨⟨before, same⟩, found⟩ => ⟨before, fun id asked => ?_⟩
    have present : ∀ id ∈ ids, id ∈ existing := by simpa using complete
    exact same ▸ ((Store.mem_of_existingIds_eq_ok found).mp (present id asked)).2

theorem steps_create (n : NewCollection) :
    Steps env (Commit env (.create n)) P (create n) fun _ _ => True := by
  unfold create
  refine (steps_checkedRules n.rules).bind fun rules => ?_
  refine (steps_requireFree n.slug).bind fun _ => ?_
  refine (Steps.drawId fun s _ => .draw _ s).bind fun id => Steps.now.bind fun t => ?_
  refine (steps_insert fun s before allowed => ?_).bind fun _ => Steps.pure fun _ _ => trivial
  obtain ⟨⟨rfl, _, ⟨⟨_, r, accepted, rfl⟩, _⟩, drawn⟩, rfl⟩ := before
  exact .create accepted allowed

theorem steps_checkedChanges (ch : Changes) :
    Steps env C P (checkedChanges ch) fun checked t => P t ∧ ∃ rules : Option Rule,
      ch.rules.map Rule.accept = rules.map Except.ok ∧
        checked = { ch with rules := rules.map Rule.toJson } := by
  unfold checkedChanges
  cases given : ch.rules with
  | none => exact Steps.pure fun t before => ⟨before, none, rfl, by simp [← given]⟩
  | some j =>
    refine (steps_checkedRules j).bind fun rules => Steps.pure ?_
    rintro t ⟨before, r, accepted, rfl⟩
    exact ⟨before, some r, by simp [accepted], rfl⟩

theorem steps_update (id : String) (ch : Changes) :
    Steps env (Commit env (.update id ch)) P (update id ch) fun _ _ => True := by
  unfold update
  refine (steps_require id).bind fun c => (steps_checkedChanges ch).bind fun checked => ?_
  have saved : Steps env (Commit env (.update id ch))
      (fun t => ((P t ∧ c.id = id ∧ c ∈ t.collections) ∧ ∃ rules : Option Rule,
        ch.rules.map Rule.accept = rules.map Except.ok ∧
          checked = { ch with rules := rules.map Rule.toJson }) ∧
        ∀ slug ∈ checked.slug, slug ≠ c.slug → t.findSlug? slug = none)
      (do
        let t ← now
        save .database (c.change checked t)
        return c.change checked t) fun _ _ => True := by
    refine Steps.now.bind fun t => ?_
    refine (steps_save fun s before fits => ?_).bind fun _ => Steps.pure fun _ _ => trivial
    obtain ⟨⟨⟨⟨_, rfl, row⟩, rules, accepted, rfl⟩, free⟩, rfl⟩ := before
    exact .revise row (.update accepted free) fits
  dsimp only
  split
  next slug given =>
    split
    · refine (steps_requireFree slug).bind fun _ => saved.pre fun t before => ?_
      simpa [given] using ⟨before.1, fun _ => before.2⟩
    next same => exact saved.pre fun t before => ⟨before, by simp_all⟩
  next none_given => exact saved.pre fun t before => ⟨before, by simp [none_given]⟩

theorem steps_delete (id : String) :
    Steps env (Commit env (.delete id)) P (delete id) fun _ _ => True := by
  unfold delete
  refine (steps_require id).bind fun c => (Steps.attempt _).bind fun shown => ?_
  refine (Steps.commit fun s before _ => ?_).bind fun _ => Steps.pure fun _ _ => trivial
  obtain ⟨⟨_, rfl, row⟩, _⟩ := before
  exact .delete row

theorem steps_override {c : Collection}
    (step : ∀ s, P s → (c.overridden env.now).FitsColumns → C s (s.put (c.overridden env.now))) :
    Steps env C P (override c) fun _ _ => True := by
  refine Steps.now.bind fun t => steps_save fun s before fits => ?_
  obtain ⟨before, rfl⟩ := before
  exact step s before fits

theorem steps_pin (id : String) (r : PinRequest) :
    Steps env (Commit env (.pin id r)) P (pin id r) fun _ _ => True := by
  unfold pin
  refine (steps_require id).bind fun c => (steps_requireRecipes r.ids).bind fun _ => ?_
  refine (steps_override fun s before fits => ?_).bind fun _ => Steps.pure fun _ _ => trivial
  obtain ⟨⟨_, rfl, row⟩, known⟩ := before
  exact .revise row (.pin known) fits

theorem steps_unpin (id : String) (ids : List String) :
    Steps env (Commit env (.unpin id ids)) P (unpin id ids) fun _ _ => True := by
  unfold unpin
  refine (steps_require id).bind fun c => ?_
  refine (steps_override fun s before fits => ?_).bind fun _ => Steps.pure fun _ _ => trivial
  obtain ⟨_, rfl, row⟩ := before
  exact .revise row (.unpin ids) fits

theorem steps_reorder (id : String) (ids : List String) :
    Steps env (Commit env (.reorder id ids)) P (reorder id ids) fun _ _ => True := by
  unfold reorder
  refine (steps_require id).bind fun c => ?_
  dsimp only
  split
  · exact Steps.throw_bind _ _
  next same =>
    refine (steps_override fun s before fits => ?_).bind fun _ => Steps.pure fun _ _ => trivial
    obtain ⟨_, rfl, row⟩ := before
    exact .revise row (.reorder (Decidable.not_not.mp same)) fits

theorem steps_exclude (id : String) (ids : List String) :
    Steps env (Commit env (.exclude id ids)) P (exclude id ids) fun _ _ => True := by
  unfold exclude
  refine (steps_require id).bind fun c => (steps_requireRecipes ids).bind fun _ => ?_
  refine (steps_override fun s before fits => ?_).bind fun _ => Steps.pure fun _ _ => trivial
  obtain ⟨⟨_, rfl, row⟩, known⟩ := before
  exact .revise row (.exclude known) fits

theorem steps_unexclude (id : String) (ids : List String) :
    Steps env (Commit env (.unexclude id ids)) P (unexclude id ids) fun _ _ => True := by
  unfold unexclude
  refine (steps_require id).bind fun c => ?_
  refine (steps_override fun s before fits => ?_).bind fun _ => Steps.pure fun _ _ => trivial
  obtain ⟨_, rfl, row⟩ := before
  exact .revise row (.unexclude ids) fits

theorem steps_storedAnswer (c : Collection) (published : Bool) (message : String) :
    Steps env C P (storedAnswer c published message) fun _ t => P t := by
  unfold storedAnswer
  refine Steps.settings.bind fun s => Steps.now.bind fun t => ?_
  refine (Steps.attempt _).bind fun standing => Steps.pure ?_
  exact fun _ ⟨⟨⟨before, _⟩, _⟩, _⟩ => before

theorem steps_publish (id : String) (force : Bool) :
    Steps env (Commit env (.publish id force)) P (publish id force) fun _ _ => True := by
  unfold publish
  refine (steps_require id).bind fun c => ?_
  split
  · exact (steps_storedAnswer c _ _).post fun _ _ _ => trivial
  next unpublished =>
    refine (steps_liveRead c).bind fun read => Steps.now.bind fun t => ?_
    refine (steps_save fun s before fits => ?_).bind fun _ => Steps.pure fun _ _ => trivial
    obtain ⟨⟨⟨_, rfl, row⟩, listed⟩, rfl⟩ := before
    exact .revise row (.publish force unpublished listed) fits

theorem steps_unpublish (id : String) :
    Steps env (Commit env (.unpublish id)) P (unpublish id) fun _ _ => True := by
  unfold unpublish
  refine (steps_require id).bind fun c => (steps_storedAnswer c _ _).bind fun answer => ?_
  split
  next published =>
    refine Steps.now.bind fun t => ?_
    refine (steps_save fun s before fits => ?_).bind fun _ => Steps.pure fun _ _ => trivial
    obtain ⟨⟨_, rfl, row⟩, rfl⟩ := before
    exact .revise row (.unpublish published) fits
  · exact Steps.pure fun _ _ => trivial

section Linked

variable (draws : ∀ s, C s { s with drawn := s.drawn + 1 })
  (drawn : ∀ s n, P s → P { s with drawn := n })
include draws drawn

theorem steps_freeSlug (taken : List String) (type slug : String) :
    Steps env C P (freeSlug taken type slug) fun _ t => P t := by
  unfold freeSlug
  split
  · exact Steps.pure fun _ before => before
  dsimp only
  split
  · exact Steps.pure fun _ before => before
  · refine (Steps.drawId fun s _ => draws s).bind fun id => Steps.pure ?_
    rintro _ ⟨_, s, before, rfl⟩
    exact drawn s _ before

theorem steps_link (now : Instant) (taken : List String) (sources : List LinkSource) :
    Steps env C P (link now taken sources) fun cs t =>
      P t ∧ ∀ c ∈ cs, ∃ l ∈ sources, ∃ slug id, c = l.toCollection slug id now := by
  induction sources generalizing taken with
  | nil => exact Steps.pure fun t before => ⟨before, by simp⟩
  | cons l ls ih =>
    unfold link
    refine (steps_freeSlug draws drawn taken l.type l.slug).bind fun slug => ?_
    refine (Steps.drawId fun s _ => draws s).bind fun id => ?_
    refine ((ih (slug :: taken)).pre ?_).bind fun cs => Steps.pure fun t linked => ⟨linked.1, ?_⟩
    · rintro _ ⟨_, s, before, rfl⟩
      exact drawn s _ before
    · intro c member
      rcases List.mem_cons.mp member with rfl | member
      · exact ⟨l, List.mem_cons_self, slug, id, rfl⟩
      · obtain ⟨m, among, made⟩ := linked.2 c member
        exact ⟨m, List.mem_cons_of_mem _ among, made⟩

end Linked

theorem steps_syncLinked : Steps env (Commit env .syncLinked) P syncLinked fun _ _ => True := by
  unfold syncLinked
  refine Steps.get.bind fun s => Steps.now.bind fun t => ?_
  have linked : Steps env (Commit env .syncLinked)
      (fun u => u.unlinkedSources = s.unlinkedSources ∧ t = env.now) (link t _ _) _ :=
    steps_link (fun u => .draw _ u) (fun _ _ same => same) t (s.collections.map Collection.slug)
      s.unlinkedSources
  refine (linked.pre ?_).bind fun cs => ?_
  · rintro u ⟨⟨_, rfl⟩, now⟩
    exact ⟨rfl, now⟩
  dsimp only
  split
  · refine (steps_insert fun u before allowed => ?_).bind fun _ => Steps.pure fun _ _ => trivial
    obtain ⟨⟨same, rfl⟩, sources⟩ := before
    exact .link (same ▸ sources) allowed
  · exact Steps.pure fun _ _ => trivial

section Batch

variable {ids : Option (List String)}

/-- Named in the request, or any row when it names none. -/
def Selects (ids : Option (List String)) (id : String) : Prop :=
  ∀ named ∈ ids, named ≠ [] → id ∈ named

theorem mem_batch {rows : List Collection} {ids : Option (List String)} {c : Collection} :
    c ∈ batch rows ids ↔ c ∈ rows ∧ Selects ids c.id := by
  unfold batch Selects
  rw [List.mem_mergeSort]
  cases ids with
  | none => simp
  | some named =>
    cases named with
    | nil => simp
    | cons id more => simp [List.mem_filter]

/-- The rows that a batch has still to refresh: told apart, on the shelf, and asked for. -/
def Pending (ids : Option (List String)) (cs : List Collection) (t : Shelf) : Prop :=
  (cs.map Collection.id).Nodup ∧
    ∀ c ∈ cs, c ∈ t.collections ∧ ∀ named ∈ ids, named ≠ [] → c.id ∈ named

def RowStep (env : Surroundings) (ids : Option (List String)) (id : String) (s t : Shelf) : Prop :=
  Commit env (.refreshCounts ids) s t ∧ ∃ d : Collection, d.id = id ∧ t = s.put d

theorem Pending.tail_of_reaches {c : Collection} {rest : List Collection} {s t : Shelf}
    (pending : Pending ids (c :: rest) s) (reached : Reaches (RowStep env ids c.id) s t) :
    Pending ids rest t := by
  obtain ⟨fresh, apart⟩ := List.nodup_cons.mp pending.1
  refine reached.keeps (I := Pending ids rest) ?_
    ⟨apart, fun d member => pending.2 d (List.mem_cons_of_mem _ member)⟩
  rintro s _ ⟨_, e, same, rfl⟩ ⟨_, rows⟩
  refine ⟨apart, fun d member => ⟨Shelf.mem_put_of_mem (rows d member).1 ?_, (rows d member).2⟩⟩
  intro equal
  exact fresh (List.mem_map.mpr ⟨d, member, equal.trans same⟩)

theorem nodup_batch {s : Shelf} (keyed : s.Keyed) (ids : Option (List String)) :
    ((batch s.collections ids).map Collection.id).Nodup := by
  unfold batch
  refine ((List.mergeSort_perm _ _).map Collection.id).nodup_iff.mpr ?_
  split
  · exact keyed
  · exact (List.filter_sublist.map Collection.id).nodup keyed

theorem pending_batch {s : Shelf} (keyed : s.Keyed) : Pending ids (batch s.collections ids) s :=
  ⟨nodup_batch keyed ids, fun _ chosen => mem_batch.mp chosen⟩

theorem steps_refreshRow {c : Collection}
    (step : ∀ s l, P s → s.records.currentListing c = .ok l →
      (c.store ⟨l.counts, env.now⟩).FitsColumns → C s (s.put (c.store ⟨l.counts, env.now⟩))) :
    Steps env C P (refreshRow c) fun _ _ => True := by
  unfold refreshRow
  refine (Steps.reload reloadFailure c.id).bind fun _ => steps_currentListing c fun l => ?_
  refine Steps.now.bind fun t => ?_
  refine (steps_save fun s before fits => ?_).bind fun _ => Steps.pure fun _ _ => trivial
  obtain ⟨⟨before, listed⟩, rfl⟩ := before
  exact step s l before listed fits

theorem steps_refreshDetail (c : Collection) (rest : List Collection) :
    Steps env (Commit env (.refreshCounts ids)) (Pending ids (c :: rest)) (refreshDetail c)
      fun _ t => Pending ids rest t := by
  have row : Steps env (RowStep env ids c.id) (Pending ids (c :: rest)) (refreshRow c)
      fun _ _ => True := by
    refine steps_refreshRow fun s l pending listed fits => ?_
    obtain ⟨row, chosen⟩ := pending.2 c List.mem_cons_self
    have step : Commit env (.refreshCounts ids) s (s.put (c.store ⟨l.counts, env.now⟩)) :=
      .revise row (.refresh chosen listed) fits
    exact ⟨step, c.store ⟨l.counts, env.now⟩, rfl, rfl⟩
  have framed : ∀ s t, Pending ids (c :: rest) s → Reaches (RowStep env ids c.id) s t →
      Pending ids rest t := by
    intro s t pending reached
    exact pending.tail_of_reaches reached
  refine Steps.widen ?_ fun s t (step : RowStep env ids c.id s t) => step.1
  unfold refreshDetail
  -- The handler takes over from wherever the refresh has come, so the frame carries both branches.
  refine Steps.tryCatch ?_ framed fun f => ?_
  · exact (row.frame framed).bind fun _ => Steps.pure fun _ before => before
  split
  · exact Steps.pure fun _ before => before
  · exact Steps.throw f

theorem steps_refreshCounts (ids : Option (List String)) :
    Steps env (Commit env (.refreshCounts ids)) Shelf.Keyed (refreshCounts ids)
      fun _ _ => True := by
  unfold refreshCounts
  refine Steps.get.bind fun s => ?_
  refine ((Steps.mapM fun c rest => steps_refreshDetail c rest).pre ?_).bind fun _ =>
    Steps.pure fun _ _ => trivial
  rintro t ⟨keyed, rfl⟩
  exact pending_batch keyed

end Batch

/-! Reading takes no step at all. -/

section Reading

theorem steps_list (q : Search) : Steps env C P (list q) fun _ t => P t := by
  unfold list found
  refine Steps.bind (T := fun _ t => P t) ?_ fun items => Steps.pure fun _ before => before
  refine Steps.settings.bind fun s => Steps.now.bind fun t => Steps.get.bind fun u => ?_
  refine (Steps.attempt _).bind fun items => Steps.pure ?_
  exact fun _ ⟨⟨⟨⟨before, _⟩, _⟩, _⟩, _⟩ => before

theorem steps_qualified (type : Option String) (limit : Int) :
    Steps env C P (qualified type limit) fun _ t => P t := by
  unfold qualified
  refine Steps.get.bind fun s => ?_
  dsimp only
  split
  · exact Steps.throw_bind _ _
  · exact (Steps.attempt _).post fun _ _ ⟨⟨before, _⟩, _⟩ => before

theorem steps_described (rules : Json) : Steps env C P (described rules) fun _ t => P t := by
  unfold described
  split
  · exact Steps.pure fun _ before => before
  · exact Steps.throw _

theorem steps_detail (id : String) : Steps env C P (detail id) fun _ t => P t := by
  unfold detail
  refine (steps_require id).bind fun c => (steps_liveRead c).bind fun read => ?_
  refine Steps.settings.bind fun s => Steps.store.bind fun st => ?_
  refine (Steps.attempt _).bind fun recipes => (Steps.attempt _).bind fun shown => ?_
  refine (steps_described c.rules).bind fun _ => Steps.pure ?_
  exact fun _ ⟨⟨⟨⟨⟨⟨before, _⟩, _⟩, _⟩, _⟩, _⟩, _⟩ => before

theorem steps_samples (p : Predicate) (excluded : List String) (limit : Int) :
    Steps env C P (samples p excluded limit) fun _ t => P t := by
  unfold samples
  refine Steps.store.bind fun st => ?_
  split
  · exact Steps.pure fun _ ⟨before, _⟩ => before
  · exact (Steps.attempt _).bind fun _ => Steps.pure fun _ ⟨⟨before, _⟩, _⟩ => before

theorem steps_testRules (id : String) (test : RuleTest) :
    Steps env C P (testRules id test) fun _ t => P t := by
  unfold testRules
  refine (steps_require id).bind fun c => ?_
  split
  · unfold runTrial
    refine Steps.store.bind fun st => (Steps.attempt _).bind fun unresolved => ?_
    refine (Steps.attempt _).bind fun counts => Steps.settings.bind fun s => ?_
    refine (steps_samples _ _ _).bind fun found => Steps.pure ?_
    exact fun _ ⟨⟨⟨⟨⟨before, _⟩, _⟩, _⟩, _⟩, _⟩ => before
  · exact Steps.pure fun _ ⟨before, _⟩ => before

theorem steps_preview (r : Preview) : Steps env C P (preview r) fun _ t => P t := by
  unfold preview
  split
  · refine Steps.store.bind fun st => (Steps.attempt _).bind fun count => Steps.pure ?_
    exact fun _ ⟨⟨before, _⟩, _⟩ => before
  · exact Steps.throw _

end Reading

theorem steps_shown {a : Action Collection} (steps : Steps env C P a fun _ _ => True) :
    Steps env C P (Call.shown a) fun _ _ => True := by
  unfold Call.shown
  exact steps.bind fun c => (Steps.attempt _).bind fun _ => Steps.pure fun _ _ => trivial

/-- A call changes the shelf by its own commits only, whatever it answers. -/
theorem steps_perform (call : Call) :
    Steps env (Commit env call) Shelf.Keyed call.perform fun _ _ => True := by
  have answered {α : Type} {a : Action α} {Q : α → Shelf → Prop} (json : α → Json)
      (steps : Steps env (Commit env call) Shelf.Keyed a Q) :
      Steps env (Commit env call) Shelf.Keyed (do return json (← a)) fun _ _ => True :=
    steps.bind fun _ => Steps.pure fun _ _ => trivial
  cases call with
  | list q => exact answered _ (steps_list q)
  | create n => exact steps_shown (steps_create n)
  | preview r => exact answered _ (steps_preview r)
  | refreshCounts ids => exact answered _ (steps_refreshCounts ids)
  | syncLinked => exact answered _ steps_syncLinked
  | qualified type limit => exact answered _ (steps_qualified type limit)
  | detail id => exact answered _ (steps_detail id)
  | update id changes => exact steps_shown (steps_update id changes)
  | delete id => exact answered _ (steps_delete id)
  | testRules id test => exact answered _ (steps_testRules id test)
  | publish id force => exact answered _ (steps_publish id force)
  | unpublish id => exact answered _ (steps_unpublish id)
  | pin id request => exact answered _ (steps_pin id request)
  | unpin id recipes => exact answered _ (steps_unpin id recipes)
  | reorder id recipes => exact answered _ (steps_reorder id recipes)
  | exclude id recipes => exact answered _ (steps_exclude id recipes)
  | unexclude id recipes => exact answered _ (steps_unexclude id recipes)

end Action

end Cookbook
