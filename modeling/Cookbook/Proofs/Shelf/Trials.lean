import Cookbook.Proofs.Listing.Recent
import Cookbook.Proofs.Shelf.Evaluated
import Cookbook.Proofs.Shelf.Snapshots
import Cookbook.Proofs.Shelf.Updates

/-!
# Trials

What trying out a rule answers, next to the detail of a collection that has the rule.  A trial
counts the matches, a detail also the pinned recipes that do not match; a preview counts the
published matches alone.
-/

namespace Cookbook

/-- What the samples of a trial are: as many as are wanted and as there are, each one of the recipes
that are counted, none twice, and none of the others was changed later than any of them. -/
structure Trial.SamplesFrom (t : Trial) (c : Catalog) (P : Recipe → Prop) (limit : Int) :
    Prop where
  length : t.samples.length = (min limit t.counts.matched).toNat
  once : (t.samples.map fun x => x.recipe.id).Nodup
  counted : ∀ x ∈ t.samples, x.recipe ∈ c.recipes ∧ P x.recipe
  recent : t.samples.Pairwise fun x y => y.recipe.updatedAt ≤ x.recipe.updatedAt
  latest : ∀ r ∈ c.recipes, P r → r ∉ t.samples.map Sample.recipe →
    ∀ x ∈ t.samples, r.updatedAt ≤ x.recipe.updatedAt

/-- The first of the recipes with a property are samples of them. -/
theorem Trial.samplesFrom_of_take {t : Trial} {c : Catalog} {P : Recipe → Prop} [DecidablePred P]
    {limit : Int} (keyed : c.Keyed) (counts : t.counts = c.tally P)
    (taken : t.samples.map Sample.recipe = (c.recent P).take limit.toNat) :
    t.SamplesFrom c P limit := by
  have among : ∀ x ∈ t.samples, x.recipe ∈ (c.recent P).take limit.toNat := by
    intro x member
    rw [← taken]
    exact List.mem_map_of_mem member
  constructor
  case length =>
    have lengths := congrArg List.length taken
    have all := c.length_recent (P := P)
    rw [List.length_map, List.length_take] at lengths
    rw [lengths, counts, ← all]
    omega
  case once =>
    have ids : (t.samples.map fun x => x.recipe.id) =
        ((c.recent P).take limit.toNat).map Recipe.id := by
      rw [← taken, List.map_map]
      rfl
    rw [ids]
    exact ((List.take_sublist _ _).map Recipe.id).nodup (Catalog.nodup_recent keyed)
  case counted =>
    intro x member
    exact Catalog.mem_recent.mp (List.mem_of_mem_take (among x member))
  case recent =>
    have sorted := Catalog.pairwise_recent.sublist (List.take_sublist limit.toNat (c.recent P))
    rw [← taken] at sorted
    exact List.pairwise_map.mp sorted
  case latest =>
    intro r row holds absent x member
    have split := List.take_append_drop limit.toNat (c.recent P)
    have whole := Catalog.mem_recent.mpr ⟨row, holds⟩
    rw [← split, List.mem_append, ← taken] at whole
    have rest := whole.resolve_left absent
    have sorted := Catalog.pairwise_recent (c := c) (P := P)
    rw [← split] at sorted
    exact (List.pairwise_append.mp sorted).2.2 _ (among x member) r rest

theorem Predicate.without_nil (p : Predicate) : p.without [] = p := by
  simp [without, sortedSet]

namespace Action

variable {env : Surroundings} {s : Shelf}

def samplesOf (st : Store) (p : Predicate) (excluded : List String) (limit : Int) :
    Attempt (List Sample) :=
  if limit ≤ 0 then .ok []
  else (st.list (p.without excluded) (some Status.active) 0 (some limit) .recent).map fun rows =>
    rows.map (Sample.of st.catalog)

theorem run_samples (p : Predicate) (excluded : List String) (limit : Int) :
    (samples p excluded limit).run env s = (samplesOf (env.records s) p excluded limit, s) := by
  unfold samples samplesOf
  rw [run_bind, run_store]
  dsimp only
  split
  · rfl
  · rw [run_bind, run_attempt]
    cases (env.records s).list (p.without excluded) (some Status.active) 0 (some limit) .recent <;>
      rfl

def trialOf (st : Store) (settings : Settings) (c : Collection) (r : Rule) (t : RuleTest) :
    Attempt Trial := do
  let p := r.predicate c.links
  let unresolved ← st.checkReferences fun k => p.references k
  let counts ← st.matchCounts p t.excluded
  let found ← samplesOf st p t.excluded (min t.limit settings.sampleLimit)
  .ok ⟨counts, found, [], r.describe, r.warnings c.links ++ unresolved⟩

theorem run_runTrial (c : Collection) (r : Rule) (t : RuleTest) : (runTrial c r t).run env s =
    (trialOf (env.records s) env.settings c r t, s) := by
  rw [runTrial, run_bind, run_store]
  refine run_bind_of_reads (run_attempt ..) fun unresolved => ?_
  refine run_bind_of_reads (run_attempt ..) fun counts => ?_
  rw [run_bind, run_settings]
  exact run_bind_of_reads (run_samples ..) fun found => run_pure ..

theorem run_testRules (keyed : s.Keyed) {c : Collection} (row : c ∈ s.collections) {r : Rule}
    {t : RuleTest} (accepted : Rule.accept t.rules = .ok r) : (testRules c.id t).run env s =
      (trialOf (env.records s) env.settings c r t, s) := by
  rw [testRules, run_bind, run_require, required_of_mem keyed row]
  dsimp only
  rw [accepted]
  exact run_runTrial c r t

theorem take_of_samplesOf_eq_ok {st : Store} {p : Predicate} {ctx : Context} {limit : Int}
    {found : List Sample} (finite : ∀ n ∈ p.numbers, n.isFinite = true)
    (sampled : samplesOf st p ctx.excluded limit = .ok found) :
    found.map Sample.recipe =
      (st.catalog.recent (ctx.unpinned.Admits st.catalog p)).take limit.toNat := by
  unfold samplesOf at sampled
  split at sampled
  next nothing =>
    obtain rfl := Except.ok.inj sampled
    have zero : limit.toNat = 0 := by omega
    rw [zero, List.take_zero, List.map_nil]
  next wanting =>
    obtain ⟨rows, listed, rfl⟩ := Attempt.map_eq_ok_iff.mp sampled
    obtain ⟨found, queried, windowed⟩ := Attempt.bind_eq_ok_iff.mp listed
    obtain rfl : found = rows := by
      split at windowed
      · exact Except.ok.inj windowed
      · cases windowed
    have finite : ∀ n ∈ (p.without ctx.excluded).numbers, n.isFinite = true :=
      fun n number => finite n (Predicate.numbers_without_subset p ctx.excluded number)
    have wanted : ((st.catalog.select (p.without ctx.excluded)).filter fun r =>
        (some Status.active).all (·.contains r.status)) = st.catalog.recipes.filter fun x =>
          decide (ctx.unpinned.Admits st.catalog p x) := by
      rw [st.catalog.select_eq_filter finite, List.filter_filter]
      refine List.filter_congr fun x _ => ?_
      rw [Bool.eq_iff_iff]
      simp [Context.admits_unpinned, Recipe.IsActive, Predicate.holds_without]
    have positive : ¬ limit < 0 := by omega
    rw [wanted] at queried
    rw [Store.eq_of_query_eq_ok queried, List.map_map]
    simp [Store.window, positive, Catalog.recent, Store.Order.first, Sample.of, Function.comp_def]

theorem of_trialOf_eq_ok {st : Store} {settings : Settings} {c : Collection} {r : Rule}
    {t : RuleTest} {trial : Trial} (answered : trialOf st settings c r t = .ok trial) :
    (∃ unresolved, st.checkReferences (fun k => (r.predicate c.links).references k) =
      .ok unresolved ∧ trial.warnings = r.warnings c.links ++ unresolved) ∧
    st.matchCounts (r.predicate c.links) t.excluded = .ok trial.counts ∧
    samplesOf st (r.predicate c.links) t.excluded (min t.limit settings.sampleLimit) =
      .ok trial.samples ∧
    trial.problems = [] ∧ trial.description = r.describe := by
  obtain ⟨unresolved, checked, answered⟩ := Attempt.bind_eq_ok_iff.mp answered
  obtain ⟨counts, counted, answered⟩ := Attempt.bind_eq_ok_iff.mp answered
  obtain ⟨found, sampled, answered⟩ := Attempt.bind_eq_ok_iff.mp answered
  obtain rfl := Except.ok.inj answered
  exact ⟨⟨unresolved, checked, rfl⟩, counted, sampled, rfl, rfl⟩

theorem description_of_detail_eq_ok (keyed : s.Keyed) {c : Collection} (row : c ∈ s.collections)
    {d : Detail} (answered : ((detail c.id).run env s).1 = .ok d) :
    describedOf c.rules = .ok d.description := by
  rw [run_detail, required_of_mem keyed row] at answered
  change detailOf (env.records s) env.settings c = .ok d at answered
  obtain ⟨read, _, answered⟩ := Attempt.bind_eq_ok_iff.mp answered
  obtain ⟨recipes, _, answered⟩ := Attempt.bind_eq_ok_iff.mp answered
  obtain ⟨shown, _, answered⟩ := Attempt.bind_eq_ok_iff.mp answered
  obtain ⟨description, described, answered⟩ := Attempt.bind_eq_ok_iff.mp answered
  obtain rfl := Except.ok.inj answered
  exact described

theorem run_preview (j : Json) (links : Rule.Links) {r : Rule} (accepted : Rule.accept j = .ok r) :
    (preview ⟨j, links⟩).run env s =
      (((env.records s).count (r.predicate links) (some Status.published)).map fun count =>
        ⟨count, r.predicate links != .all⟩, s) := by
  unfold preview
  dsimp only
  rw [accepted]
  dsimp only
  rw [run_bind, run_store]
  dsimp only
  rw [run_bind, run_attempt]
  cases (env.records s).count (r.predicate links) (some Status.published) <;> rfl

/-- A preview only fails over numbers that no query can carry. -/
theorem preview_cases (service : env.outage = none) {j : Json} {r : Rule}
    (accepted : Rule.accept j = .ok r) (links : Rule.Links) :
    if (r.predicate links).FitsQuery then
      ∃ a, ((preview ⟨j, links⟩).run env s).1 = .ok a
    else ((preview ⟨j, links⟩).run env s).1 = .error .overflow := by
  rw [run_preview j links accepted, records_of_outage_eq_none service, Store.count,
    Store.query_eq rfl]
  split
  next => exact ⟨_, rfl⟩
  next => rfl

end Action

namespace Action

variable {env : Surroundings} {s : Shelf} {c : Collection} {r : Rule} {t : RuleTest}
  {trial : Trial}

theorem of_testRules_eq_ok (keyed : s.Keyed) (row : c ∈ s.collections)
    (accepted : Rule.accept t.rules = .ok r)
    (answered : ((testRules c.id t).run env s).1 = .ok trial) :
    trialOf (env.records s) env.settings c r t = .ok trial := by
  rwa [run_testRules keyed row accepted] at answered

theorem counts_of_trialOf_eq_ok
    (answered : trialOf (env.records s) env.settings c r t = .ok trial) :
    trial.counts = s.catalog.tally
      ((Context.mk c.links [] t.excluded).Admits s.catalog (r.predicate c.links)) := by
  obtain ⟨_, counted, _⟩ := of_trialOf_eq_ok answered
  let ctx : Context := ⟨c.links, [], t.excluded⟩
  have finite := r.isFinite_predicate c.links
  exact @Store.counts_of_matchCounts_eq_ok (env.records s) ctx _ finite _ counted

theorem samplesFrom_of_trialOf_eq_ok (apart : s.catalog.Keyed)
    (answered : trialOf (env.records s) env.settings c r t = .ok trial) :
    trial.SamplesFrom s.catalog
      ((Context.mk c.links [] t.excluded).Admits s.catalog (r.predicate c.links))
      (min t.limit env.settings.sampleLimit) := by
  obtain ⟨_, _, sampled, _⟩ := of_trialOf_eq_ok answered
  apply Trial.samplesFrom_of_take apart (counts_of_trialOf_eq_ok answered)
  let ctx : Context := ⟨c.links, [], t.excluded⟩
  have finite := r.isFinite_predicate c.links
  exact @take_of_samplesOf_eq_ok (env.records s) _ ctx _ _ finite sampled

/-- Both take the warnings of the references from the same rows, whatever else is out of service. -/
theorem warnings_of_trialOf_eq_ok {ctx : Context} (links : ctx.links = c.links)
    (answered : trialOf (env.records s) env.settings c r t = .ok trial) {l : Listing}
    (listed : s.records.listing r ctx = .ok l) : trial.warnings = l.warnings := by
  obtain ⟨⟨unresolved, checked, warnings⟩, _⟩ := of_trialOf_eq_ok answered
  obtain ⟨unresolved', checked', warnings'⟩ := Store.warnings_of_listing_eq_ok listed
  have restored := (env.records s).checkReferences_extends _ _ checked
  rw [links] at checked' warnings'
  have same : unresolved = unresolved' := Except.ok.inj (restored.symm.trans checked')
  rw [warnings, warnings', same]

theorem exists_testRules_of_listed (service : env.outage = none) (keyed : s.Keyed)
    (row : c ∈ s.collections) (accepted : Rule.accept t.rules = .ok r)
    (window : (Number.int env.settings.sampleLimit).FitsWord) {ctx : Context}
    (links : ctx.links = c.links) (excluded : ctx.excluded = t.excluded) {l : Listing}
    (listed : s.records.listing r ctx = .ok l) :
    ∃ trial, ((testRules c.id t).run env s).1 = .ok trial := by
  obtain ⟨_, _, evaluated, _⟩ := Store.of_listing_eq_ok listed
  obtain ⟨_, queried, _⟩ := Attempt.map_eq_ok_iff.mp evaluated
  have fits := Store.fitsQuery_of_query_eq_ok queried
  rw [links, excluded] at fits
  exact exists_testRules_of_fits service keyed row accepted fits window

/-- A preview writes the same query as a trial without exclusions. -/
theorem exists_preview_of_trialOf_eq_ok {env' : Surroundings} (service : env'.outage = none)
    (accepted : Rule.accept t.rules = .ok r) (unrestricted : t.excluded = [])
    (answered : trialOf (env.records s) env.settings c r t = .ok trial) :
    ∃ a, ((preview ⟨t.rules, c.links⟩).run env' s).1 = .ok a := by
  obtain ⟨_, counted, _⟩ := of_trialOf_eq_ok answered
  obtain ⟨_, grouped, _⟩ := Attempt.map_eq_ok_iff.mp counted
  have fits := Store.fitsQuery_of_query_eq_ok grouped
  have whole : (r.predicate c.links).without t.excluded = r.predicate c.links := by
    rw [unrestricted, Predicate.without_nil]
  rw [whole] at fits
  have cases := @preview_cases env' s service t.rules r accepted c.links
  rwa [if_pos fits] at cases

theorem count_of_preview_eq_ok {env' : Surroundings} (accepted : Rule.accept t.rules = .ok r)
    (unrestricted : t.excluded = [])
    (answered : trialOf (env.records s) env.settings c r t = .ok trial) {a : PreviewAnswer}
    (previewed : ((preview ⟨t.rules, c.links⟩).run env' s).1 = .ok a) :
    a.count = trial.counts.published := by
  rw [run_preview t.rules c.links accepted] at previewed
  obtain ⟨n, counted, rfl⟩ := Attempt.map_eq_ok_iff.mp previewed
  rw [counts_of_trialOf_eq_ok answered, unrestricted]
  exact Store.eq_of_count_eq_ok (r.isFinite_predicate c.links) c.links counted

end Action

theorem Collection.listing_of_currentListing_eq_ok {st : Store} {c : Collection} {r : Rule}
    {l : Listing} (accepted : Rule.accept c.rules = .ok r)
    (listed : st.currentListing c = .ok l) : st.listing r c.context = .ok l := by
  obtain ⟨r', rule, counted⟩ := Store.currentListing_eq_ok_iff.mp listed
  obtain rfl := Except.ok.inj ((Rule.accept_eq_ok_iff.mp accepted).1.symm.trans rule)
  exact counted

theorem Catalog.tally_admitsByPin_of_unpinned (cat : Catalog) {ctx : Context}
    (unpinned : ctx.pinned = []) (p : Predicate) : cat.tally (ctx.AdmitsByPin cat p) = .zero := by
  apply cat.tally_eq_zero
  intro x _ pinned
  rw [Context.AdmitsByPin, unpinned] at pinned
  exact List.not_mem_nil pinned.2.1

/-- A trial of the rule and the exclusions of a collection tells what its detail tells: the same
warnings and description, and the same counts but for the recipes that are listed only because they
are pinned.  A trial without exclusions counts as many published recipes as a preview with the same
links.  A trial counts the active recipes that match and are not excluded, and its samples are the
ones of them that were changed last, as many as are wanted and allowed. -/
theorem Shelf.trials_agree {s : Shelf} (keyed : s.Keyed) (apart : s.catalog.Keyed) {c : Collection}
    (row : c ∈ s.collections) :
    (∀ r, Rule.accept c.rules = .ok r →
      (∀ env limit trial env' d,
        ((Action.testRules c.id ⟨c.rules, c.excludedIds, limit⟩).run env s).1 = .ok trial →
        ((Action.detail c.id).run env' s).1 = .ok d →
        trial.problems = [] ∧ trial.warnings = d.read.listing.warnings ∧
        trial.description = d.description ∧
        d.read.listing.counts = trial.counts +
          s.catalog.tally (c.context.AdmitsByPin s.catalog (r.predicate c.links)) ∧
        (c.pinnedIds = [] → d.read.listing.counts = trial.counts)) ∧
      ∀ l, s.records.currentListing c = .ok l → ∀ env, env.outage = none →
        ((Number.int env.settings.sampleLimit).FitsWord → ∀ limit, ∃ trial,
          ((Action.testRules c.id ⟨c.rules, c.excludedIds, limit⟩).run env s).1 = .ok trial) ∧
        ((Number.int s.catalog.recipes.length).FitsWord → c.viewIssues = [] → ∃ d,
          ((Action.detail c.id).run env s).1 = .ok d)) ∧
    ∀ t r, Rule.accept t.rules = .ok r → ∀ env trial,
      ((Action.testRules c.id t).run env s).1 = .ok trial →
      trial.counts = s.catalog.tally
        ((Context.mk c.links [] t.excluded).Admits s.catalog (r.predicate c.links)) ∧
      trial.SamplesFrom s.catalog
        ((Context.mk c.links [] t.excluded).Admits s.catalog (r.predicate c.links))
        (min t.limit env.settings.sampleLimit) ∧
      (t.excluded = [] → ∀ env',
        (∀ a, ((Action.preview ⟨t.rules, c.links⟩).run env' s).1 = .ok a →
          a.count = trial.counts.published) ∧
        (env'.outage = none →
          ∃ a, ((Action.preview ⟨t.rules, c.links⟩).run env' s).1 = .ok a)) := by
  refine ⟨fun r accepted => ⟨?agrees, ?answers⟩, ?trials⟩
  case agrees =>
    intro env limit trial env' d tried shown
    have answered := Action.of_testRules_eq_ok keyed row accepted tried
    obtain ⟨_, _, _, problems, description⟩ := Action.of_trialOf_eq_ok answered
    obtain ⟨_, live⟩ := Action.of_detail_eq_ok keyed row shown
    obtain ⟨l, listed, measured⟩ := Attempt.bind_eq_ok_iff.mp live
    obtain ⟨p, _, read⟩ := Attempt.bind_eq_ok_iff.mp measured
    obtain rfl : l = d.read.listing := congrArg LiveRead.listing (Except.ok.inj read)
    have listing := Collection.listing_of_currentListing_eq_ok accepted listed
    have described := Action.description_of_detail_eq_ok keyed row shown
    rw [Action.describedOf, (Rule.accept_eq_ok_iff.mp accepted).1] at described
    have exceeds : d.read.listing.counts = trial.counts +
        s.catalog.tally (c.context.AdmitsByPin s.catalog (r.predicate c.links)) := by
      rw [Action.counts_of_trialOf_eq_ok answered, Store.counts_of_listing_eq_ok apart listing]
      exact c.context.tally_admits s.catalog (r.predicate c.links)
    refine ⟨problems, Action.warnings_of_trialOf_eq_ok rfl answered listing, ?_, exceeds, ?_⟩
    · exact description.trans (Except.ok.inj described)
    · intro unpinned
      rw [exceeds, s.catalog.tally_admitsByPin_of_unpinned unpinned, Counts.add_zero]
  case answers =>
    intro l listed env service
    have listing := Collection.listing_of_currentListing_eq_ok accepted listed
    constructor
    · intro window limit
      exact Action.exists_testRules_of_listed service keyed row accepted window rfl rfl listing
    · intro rows shown
      obtain ⟨read, live⟩ := Action.exists_liveReadOf_of_listed rows env.settings listed
      exact Action.exists_detail keyed row service shown live
  case trials =>
    intro t r accepted env trial tried
    have answered := Action.of_testRules_eq_ok keyed row accepted tried
    refine ⟨Action.counts_of_trialOf_eq_ok answered,
      Action.samplesFrom_of_trialOf_eq_ok apart answered, ?_⟩
    intro unrestricted env'
    constructor
    · intro a previewed
      exact Action.count_of_preview_eq_ok accepted unrestricted answered previewed
    · intro service
      exact Action.exists_preview_of_trialOf_eq_ok service accepted unrestricted answered

namespace Shelf

/-- A pin that matches nothing, one that is archived and one that matches anyway. -/
def osteria : Collection :=
  { Collection.trattoria with
    rules := (ofCuisine (.str "it")).toJson
    pinned := some ["b", "c", "a"]
    excluded := some ["d"] }

def newest : Recipe :=
  { Recipe.bare "e" Status.draft with cuisineId := some "it", updatedAt := ⟨1⟩ }

def osterie : Shelf where
  catalog := ⟨.utc, [], [], [], [{ Recipe.bare "a" Status.published with cuisineId := some "it" },
    Recipe.bare "b" Status.pending, Recipe.bare "c" Status.archived,
    { Recipe.bare "d" Status.draft with cuisineId := some "it" }, newest]⟩
  collections := [osteria]
  drawn := 0

theorem trials_agree_osterie :
    osterie.Keyed ∧ osterie.catalog.Keyed ∧ osteria ∈ osterie.collections ∧
    Rule.accept osteria.rules = .ok (ofCuisine (.str "it")) ∧
    (∃ trial d,
      ((Action.testRules "t" ⟨osteria.rules, ["d"], 1⟩).run (.standard 1) osterie).1 = .ok trial ∧
      ((Action.detail "t").run (.standard 1) osterie).1 = .ok d ∧
      trial.warnings = d.read.listing.warnings ∧ trial.counts = ⟨2, 1, 0, 1⟩ ∧
      d.read.listing.counts = ⟨3, 1, 1, 1⟩ ∧ trial.samples.length = 1 ∧
      ∀ x ∈ trial.samples, ⟨1⟩ ≤ x.recipe.updatedAt) ∧
    ∃ trial a, ((Action.testRules "t" ⟨osteria.rules, [], 9⟩).run (.standard 1) osterie).1 =
        .ok trial ∧
      ((Action.preview ⟨osteria.rules, .unlinked⟩).run (.standard 1) osterie).1 = .ok a ∧
      a.count = trial.counts.published := by
  have keyed : osterie.Keyed := by decide
  have apart : osterie.catalog.Keyed := by decide
  have row : osteria ∈ osterie.collections := List.mem_singleton_self osteria
  have accepted : Rule.accept osteria.rules = .ok (ofCuisine (.str "it")) := by decide
  have window : (Number.int (Surroundings.standard 1).settings.sampleLimit).FitsWord := by decide
  have words : (ofCuisine (.str "it")).FitsWord := by decide
  obtain ⟨l, listed⟩ := osterie.records.exists_currentListing rfl
    (by decide +kernel) (Collection.evaluable_of_toJson (c := osteria) words rfl)
  obtain ⟨agrees, trials⟩ := trials_agree keyed apart row
  obtain ⟨same, answers⟩ := agrees _ accepted
  obtain ⟨tries, details⟩ := answers l listed (.standard 1) rfl
  obtain ⟨trial, tried⟩ := tries window 1
  obtain ⟨d, shown⟩ := details (by decide) rfl
  obtain ⟨_, warnings, _, exceeds, _⟩ := same _ _ trial _ d tried shown
  obtain ⟨counts, samples, _⟩ := trials _ _ accepted _ trial tried
  have matched : trial.counts = ⟨2, 1, 0, 1⟩ := counts.trans (by decide +kernel)
  have pins : osterie.catalog.tally (osteria.context.AdmitsByPin osterie.catalog
      ((ofCuisine (.str "it")).predicate osteria.links)) = ⟨1, 0, 1, 0⟩ := by decide +kernel
  have length : trial.samples.length = 1 := by
    rw [samples.length, matched]
    decide
  have everything : (Surroundings.standard 1).outage = none := rfl
  obtain ⟨free, whole⟩ := Action.exists_testRules_of_fits (t := ⟨osteria.rules, [], 9⟩) everything
    keyed row accepted (Predicate.fitsQuery_of_numbers (words.without _ _)) window
  obtain ⟨_, _, previews⟩ := trials _ _ accepted _ free whole
  obtain ⟨count, exists_preview⟩ := previews rfl (.standard 1)
  obtain ⟨a, previewed⟩ := exists_preview rfl
  refine ⟨keyed, apart, row, accepted, ⟨trial, d, tried, shown, warnings.symm ▸ rfl, matched, ?_,
    length, ?_⟩, free, a, whole, previewed, count a previewed⟩
  · rw [exceeds, matched, pins]
    rfl
  · intro x member
    have admitted : (Context.mk osteria.links [] ["d"]).Admits osterie.catalog
        ((ofCuisine (.str "it")).predicate osteria.links) newest := by decide +kernel
    by_cases sampled : newest ∈ trial.samples.map Sample.recipe
    · obtain ⟨y, among, same⟩ := List.mem_map.mp sampled
      obtain ⟨z, only⟩ := List.length_eq_one_iff.mp length
      rw [only, List.mem_singleton] at member among
      rw [member, ← among, same]
      decide
    · exact samples.latest newest (by decide) admitted sampled x member

end Shelf

end Cookbook
