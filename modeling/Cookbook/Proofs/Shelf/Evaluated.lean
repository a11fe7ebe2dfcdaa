import Cookbook.Proofs.Listing.Answered
import Cookbook.Proofs.Shelf.Refreshed
import Cookbook.Shelf.Publish
import Cookbook.Shelf.Trial

/-!
# Operations that evaluate a rule

A rule that is accepted can be evaluated unless its query holds a value that the database does not
take, a whole number that fits no word or a text that cannot be encoded, or a match has a time that
is no number.  Without these nothing in its row can make an operation fail over it.
-/

namespace Cookbook

/-- What a database can hold: rows that are told apart, whole numbers that fit a word, and no more
recipes than a word counts. -/
structure Shelf.Storable (s : Shelf) : Prop where
  keyed : s.Keyed
  columns : ∀ c ∈ s.collections, c.FitsColumns
  recipes : (Number.int s.catalog.recipes.length).FitsWord

/-- The row has a rule that can be evaluated. -/
def Collection.Evaluable (c : Collection) : Prop :=
  ∃ r, Rule.ofJson c.rules = .ok r ∧ r.FitsWord

theorem Collection.evaluable_of_toJson {c : Collection} {r : Rule} (words : r.FitsWord)
    (stored : c.rules = r.toJson) : c.Evaluable :=
  ⟨r.written, stored ▸ r.ofJson_toJson, words.written⟩

theorem Store.exists_currentListing (st : Store) (service : st.down = none)
    (timed : st.catalog.Timed) {c : Collection} (evaluable : c.Evaluable) :
    ∃ l, st.currentListing c = .ok l := by
  obtain ⟨r, rule, words⟩ := evaluable
  obtain ⟨l, counted⟩ := exists_listing service words timed c.context
  exact ⟨l, currentListing_eq_ok_iff.mpr ⟨r, rule, counted⟩⟩

namespace Action

variable {env : Surroundings} {s : Shelf}

theorem exists_liveReadOf_of_listed {st : Store}
    (rows : (Number.int st.catalog.recipes.length).FitsWord) (settings : Settings) {c : Collection}
    {l : Listing} (listed : st.currentListing c = .ok l) :
    ∃ read, liveReadOf st settings c = .ok read := by
  obtain ⟨r, _, counted⟩ := Store.currentListing_eq_ok_iff.mp listed
  obtain ⟨low, high⟩ := Store.published_le_of_listing_eq_ok counted
  have word : (Number.int l.counts.published).FitsWord :=
    ⟨by omega, high.trans_lt rows.2⟩
  obtain ⟨p, progress⟩ :=
    Progress.exists_of word c.minRequired c.targetCount settings.nearThreshold
  exact ⟨⟨l, p⟩, liveReadOf_eq_ok_iff.mpr ⟨listed, progress⟩⟩

theorem exists_liveReadOf (st : Store) (service : st.down = none) (timed : st.catalog.Timed)
    (rows : (Number.int st.catalog.recipes.length).FitsWord) (settings : Settings) {c : Collection}
    (evaluable : c.Evaluable) : ∃ read, liveReadOf st settings c = .ok read := by
  obtain ⟨l, listed⟩ := st.exists_currentListing service timed evaluable
  exact exists_liveReadOf_of_listed rows settings listed

theorem exists_publish (service : env.outage = none) (storable : s.Storable)
    (timed : s.catalog.Timed) {c : Collection} (row : c ∈ s.collections) (evaluable : c.Evaluable)
    (unpublished : ¬ c.IsPublished) (force : Bool) :
    ∃ a, ((publish c.id force).run env s).1 = .ok a := by
  obtain ⟨read, live⟩ :=
    exists_liveReadOf s.records rfl timed storable.recipes env.settings evaluable
  have saved : ∀ counts, (save snapshotFailure (c.published counts env.now)).run env s =
      (.ok (), s.put (c.published counts env.now)) :=
    fun counts => run_save service _ (storable.columns c row)
  simp [publish, run_require, required_of_mem storable.keyed row, unpublished, run_liveRead,
    records_of_outage_eq_none service, live, saved, Except.map]

theorem mem_of_mem_batch {rows : List Collection} {ids : Option (List String)} {c : Collection}
    (chosen : c ∈ batch rows ids) : c ∈ rows := (mem_batch.mp chosen).1

/-- Rows that can be evaluated are refreshed. -/
theorem exists_refreshCounts (service : env.outage = none) (storable : s.Storable)
    (timed : s.catalog.Timed) (ids : Option (List String))
    (evaluable : ∀ c ∈ batch s.collections ids, c.Evaluable) :
    ∃ report, ((refreshCounts ids).run env s).1 = .ok report ∧
      report.details.map RefreshDetail.id = (batch s.collections ids).map Collection.id ∧
      ∀ d ∈ report.details, d.succeeded = true := by
  have taken : ∀ c ∈ batch s.collections ids,
      ∃ snapshot, snapshotOf env (env.records s) c = .ok snapshot := by
    intro c chosen
    rw [records_of_outage_eq_none service]
    obtain ⟨l, listed⟩ := s.records.exists_currentListing rfl timed (evaluable c chosen)
    exact ⟨_, snapshotOf_of_service service listed (storable.columns c (mem_of_mem_batch chosen))⟩
  have told : ∀ c ∈ s.collections, Selects ids c.id → ∀ f,
      snapshotOf env (env.records s) c = .error f → f.IsOwn := by
    intro c row chosen f failed
    obtain ⟨snapshot, same⟩ := taken c (mem_batch.mpr ⟨row, chosen⟩)
    cases same.symm.trans failed
  have ran := run_refreshCounts storable.keyed ids told
  refine ⟨_, congrArg Prod.fst ran, by rw [List.map_map]; rfl, ?_⟩
  intro d member
  obtain ⟨c, chosen, rfl⟩ := List.mem_map.mp member
  obtain ⟨snapshot, same⟩ := taken c chosen
  rw [RefreshDetail.succeeded, reportOf, same]
  rfl

theorem exists_list (st : Store) (service : st.down = none) {p : Predicate} (fits : p.FitsQuery)
    (statuses : Option (List String)) {limit : Int} (window : (Number.int limit).FitsWord)
    (order : Store.Order) : ∃ rows, st.list p statuses 0 (some limit) order = .ok rows := by
  have windowed : Store.FitsWindow 0 (some limit) := ⟨by decide, by simpa using window⟩
  rw [Store.list]
  simp only [Store.query_eq service, if_pos fits, if_pos windowed]
  exact ⟨_, rfl⟩

theorem exists_samples (service : env.outage = none) {p : Predicate} {excluded : List String}
    (fits : (p.without excluded).FitsQuery) {limit bound : Int} (capped : limit ≤ bound)
    (window : (Number.int bound).FitsWord) :
    ∃ found, (samples p excluded limit).run env s = (.ok found, s) := by
  by_cases none : limit ≤ 0
  · exact ⟨[], by simp [samples, none, Except.map]⟩
  · have word : (Number.int limit).FitsWord := ⟨by omega, capped.trans_lt window.2⟩
    obtain ⟨rows, listed⟩ :=
      exists_list s.records rfl fits (some Status.active) word .recent
    refine ⟨rows.map (Sample.of s.records.catalog), ?_⟩
    simp [samples, none, records_of_outage_eq_none service, listed, Except.map]

theorem exists_testRules_of_fits (service : env.outage = none) (keyed : s.Keyed) {c : Collection}
    (row : c ∈ s.collections) {r : Rule} {t : RuleTest} (accepted : Rule.accept t.rules = .ok r)
    (fits : ((r.predicate c.links).without t.excluded).FitsQuery)
    (window : (Number.int env.settings.sampleLimit).FitsWord) :
    ∃ trial, ((testRules c.id t).run env s).1 = .ok trial := by
  obtain ⟨unresolved, checked⟩ := Store.exists_checkReferences (s := s.records) rfl
    fun k => (r.predicate c.links).references k
  have counted : ∃ counts, s.records.matchCounts (r.predicate c.links) t.excluded = .ok counts := by
    rw [Store.matchCounts, Store.countByStatus, Store.query_eq rfl, if_pos fits]
    exact ⟨_, rfl⟩
  obtain ⟨counts, counted⟩ := counted
  obtain ⟨found, sampled⟩ := exists_samples (s := s) service fits
    (min_le_right t.limit env.settings.sampleLimit) window
  simp [testRules, runTrial, run_require, required_of_mem keyed row, accepted,
    records_of_outage_eq_none service, checked, counted, sampled, Except.map]

theorem exists_testRules (service : env.outage = none) (keyed : s.Keyed) {c : Collection}
    (row : c ∈ s.collections) {r : Rule} {t : RuleTest} (accepted : Rule.accept t.rules = .ok r)
    (words : r.FitsWord) (window : (Number.int env.settings.sampleLimit).FitsWord) :
    ∃ trial, ((testRules c.id t).run env s).1 = .ok trial :=
  exists_testRules_of_fits service keyed row accepted
    (Predicate.fitsQuery_of_numbers (words.without c.links t.excluded)) window

end Action

/-- With every operation of the record store in service an accepted rule is evaluated in every
context unless a value is refused or a time is no number, and fails then over one of these.  Where
all texts are taken and all times are numbers, it hinges on the numbers that its query writes.  A
rule whose numbers fit a word is evaluated there, and no operation on a row that has it, or on such
a rule, fails over it. -/
theorem Rule.evaluable_of_accept {j : Json} {r : Rule} (accepted : Rule.accept j = .ok r) :
    (∀ (st : Store) (ctx : Context), st.Working →
      ((∃ l, st.listing r ctx = .ok l) ↔ ∀ f, ¬ st.Obstructs r ctx f) ∧
      ∀ f, st.listing r ctx = .error f → st.Obstructs r ctx f) ∧
    (∀ (st : Store) (ctx : Context), st.down = none → st.catalog.Timed →
      (((r.predicate ctx.links).without ctx.excluded).FitsQuery ∧ ∃ l, st.listing r ctx = .ok l) ∨
      (¬ ((r.predicate ctx.links).without ctx.excluded).FitsQuery ∧
        st.listing r ctx = .error .overflow)) ∧
    (r.FitsWord →
      (∀ (st : Store) (ctx : Context), st.down = none → st.catalog.Timed →
        ∃ l, st.listing r ctx = .ok l) ∧
      ∀ (env : Surroundings) (s : Shelf), env.outage = none → s.Storable → ∀ c ∈ s.collections,
        (s.catalog.Timed → c.rules = r.toJson →
          (c.viewIssues = [] → ∃ d, ((Action.detail c.id).run env s).1 = .ok d) ∧
          (¬ c.IsPublished → ∀ force, ∃ a, ((Action.publish c.id force).run env s).1 = .ok a) ∧
          ∀ ids, (∀ d ∈ Action.batch s.collections ids, d.id ≠ c.id → d.Evaluable) →
            ∃ report, ((Action.refreshCounts ids).run env s).1 = .ok report ∧
              ∀ d ∈ report.details, d.succeeded = true) ∧
        ((Number.int env.settings.sampleLimit).FitsWord → ∀ t : RuleTest, t.rules = j →
          ∃ trial, ((Action.testRules c.id t).run env s).1 = .ok trial)) := by
  refine ⟨fun st ctx working => Store.hinges_listing working r ctx, fun st ctx service timed => ?_,
    fun words => ⟨fun st ctx service timed => Store.exists_listing service words timed ctx, ?_⟩⟩
  · have cases := Store.listing_cases service timed r ctx
    split at cases
    next fits => exact .inl ⟨fits, cases⟩
    next beyond => exact .inr ⟨beyond, cases⟩
  intro env s service storable c row
  refine ⟨fun timed stored => ?_, fun window t same => ?_⟩
  · have evaluable := Collection.evaluable_of_toJson words stored
    obtain ⟨read, live⟩ := Action.exists_liveReadOf s.records rfl timed storable.recipes
      env.settings evaluable
    refine ⟨fun shown => Action.exists_detail storable.keyed row service shown live,
      fun unpublished =>
        Action.exists_publish service storable timed row evaluable unpublished,
      fun ids others => ?_⟩
    have every : ∀ d ∈ Action.batch s.collections ids, d.Evaluable := by
      intro d chosen
      by_cases same : d.id = c.id
      · have equal := List.inj_on_of_nodup_map storable.keyed (Action.mem_of_mem_batch chosen) row
          same
        exact equal ▸ evaluable
      · exact others d chosen same
    obtain ⟨report, answered, _, successes⟩ :=
      Action.exists_refreshCounts service storable timed ids every
    exact ⟨report, answered, successes⟩
  · exact Action.exists_testRules service storable.keyed row (same ▸ accepted) words window

/-- One recipe, and one collection with the rule. -/
def Shelf.single (r : Rule) : Shelf where
  catalog := ⟨.utc, [], [], [], [{ Recipe.bare "a" Status.published with cookTime := some 5 }]⟩
  collections := [.ofNew ⟨"Any", "any", Collection.themeType, Status.draft, none, none, r.toJson,
    .unlinked, [], [], 1, 2, 0⟩ r.toJson "id0001" ⟨0⟩]
  drawn := 1

def Surroundings.plain : Surroundings := ⟨.standard, ⟨0⟩, none⟩

namespace Rule

def longer (minutes : Int) : Rule :=
  .custom [⟨some "AND", [⟨some "cookTime", some "gt", .int minutes, none⟩]⟩] []

theorem evaluable_of_accept_longer :
    Rule.accept (longer 30).toJson = .ok (longer 30) ∧ (longer 30).FitsWord ∧
      (Shelf.single (longer 30)).Storable ∧ (Shelf.single (longer 30)).catalog.Timed ∧
      (∃ d, ((Action.detail "id0001").run .plain (Shelf.single (longer 30))).1 = .ok d) ∧
      (∃ a, ((Action.publish "id0001" false).run .plain (Shelf.single (longer 30))).1 = .ok a) ∧
      (∃ report, ((Action.refreshCounts none).run .plain (Shelf.single (longer 30))).1 =
        .ok report) ∧
      ∃ trial, ((Action.testRules "id0001" ⟨(longer 30).toJson, [], 10⟩).run .plain
        (Shelf.single (longer 30))).1 = .ok trial := by
  have accepted : Rule.accept (longer 30).toJson = .ok (longer 30) := by decide
  have words : (longer 30).FitsWord := by decide
  have storable : (Shelf.single (longer 30)).Storable := ⟨by decide, by decide, by decide⟩
  have timed : (Shelf.single (longer 30)).catalog.Timed := by decide +kernel
  obtain ⟨_, _, evaluates⟩ := evaluable_of_accept accepted
  obtain ⟨reads, tries⟩ := (evaluates words).2 .plain _ rfl storable _ List.mem_cons_self
  obtain ⟨detailed, published, refreshed⟩ := reads timed rfl
  obtain ⟨report, answered, _⟩ := refreshed none (by
    intro d chosen other
    obtain rfl := List.mem_singleton.mp (Action.mem_of_mem_batch chosen)
    exact absurd rfl other)
  exact ⟨accepted, words, storable, timed, detailed rfl, published (by decide) false,
    ⟨report, answered⟩, tries (by decide) _ rfl⟩

/-- A rule is accepted with any whole number, but no query can hold a greater one than fits a word:
every reading of the collection fails then, and so does the whole batch of a refresh. -/
theorem accepted_overflows :
    Rule.accept (longer 0x8000000000000000).toJson = .ok (longer 0x8000000000000000) ∧
      (Shelf.single (longer 0x8000000000000000)).records.listing (longer 0x8000000000000000)
        ⟨.unlinked, [], []⟩ = .error .overflow ∧
      ((Action.detail "id0001").run .plain (Shelf.single (longer 0x8000000000000000))).1 =
        .error .overflow ∧
      ((Action.publish "id0001" false).run .plain (Shelf.single (longer 0x8000000000000000))).1 =
        .error .overflow ∧
      ((Action.refreshCounts none).run .plain (Shelf.single (longer 0x8000000000000000))).1 =
        .error .overflow ∧
      ((Action.testRules "id0001" ⟨(longer 0x8000000000000000).toJson, [], 10⟩).run .plain
        (Shelf.single (longer 0x8000000000000000))).1 = .error .overflow := by
  have batch : ((Action.refreshCounts none).run .plain
      (Shelf.single (longer 0x8000000000000000))).1.map (fun _ => ()) = .error .overflow := by
    decide +kernel
  exact ⟨by decide, by decide +kernel, by decide +kernel, by decide +kernel,
    Attempt.map_eq_error_iff.mp batch, by decide +kernel⟩

/-- The cuisine is named by what stands for half a surrogate pair. -/
def halved : Rule :=
  .custom [⟨some "AND", [⟨some "cuisineId", some "eq", .str "\uFFFD", none⟩]⟩] []

/-- A rule without any number fails as well, over a text that the database is not given, and over a
match of the first day of all. -/
theorem accepted_fails_without_numbers :
    Rule.accept halved.toJson = .ok halved ∧ halved.FitsWord ∧
      ((Action.detail "id0001").run ⟨.standard, ⟨0⟩, some (.query (.texts ['\uFFFD']))⟩
        (Shelf.single halved)).1 = .error .unencodable ∧
      Rule.accept (longer 30).toJson = .ok (longer 30) ∧
      (Store.mk ⟨.utc, [], [], [], [{ Recipe.bare "a" Status.published with
          cookTime := some 60, createdAt := ⟨-62135596800000000⟩ }]⟩ none).listing (longer 30)
        ⟨.unlinked, [], []⟩ = .error (.value "year 0 is out of range") := by
  decide +kernel

end Rule

end Cookbook
