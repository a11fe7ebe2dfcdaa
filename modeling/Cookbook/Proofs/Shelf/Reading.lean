import Cookbook.Proofs.Listing.Outage
import Cookbook.Proofs.Listing.Percent
import Cookbook.Proofs.Shelf.Commit
import Cookbook.Proofs.Shelf.Run
import Cookbook.Shelf.Browse
import Cookbook.Shelf.Detail

/-!
# Reading

What lists and details answer, as attempts that do not mention the shelf they leave alone.
-/

namespace Cookbook

theorem Collection.viewed_eq_ok_iff {c d : Collection} :
    c.viewed = .ok d ↔ c.viewIssues = [] ∧ d = c := by
  unfold Collection.viewed
  cases issues : c.viewIssues with
  | nil => simp [eq_comm]
  | cons i is => simp

/-- A row is listed by its rule, as far as the rule can be read. -/
theorem Store.currentListing_eq_ok_iff {st : Store} {c : Collection} {l : Listing} :
    st.currentListing c = .ok l ↔
      ∃ r, Rule.ofJson c.rules = .ok r ∧ st.listing r c.context = .ok l := by
  unfold Store.currentListing
  cases Rule.ofJson c.rules <;> simp

theorem Collection.standing_eq_ok_iff {c : Collection} {settings : Settings} {ttl : Int}
    {now : Instant} {v : Standing} : c.standing settings ttl now = .ok v ↔
      Snapshot.freshness c.cachedAt ttl now = .ok v.state ∧
        Progress.of c.cached c.minRequired c.targetCount settings.nearThreshold =
          .ok v.progress := by
  constructor
  · intro stands
    obtain ⟨state, dated, stands⟩ := Attempt.bind_eq_ok_iff.mp stands
    obtain ⟨progress, measured, stands⟩ := Attempt.bind_eq_ok_iff.mp stands
    obtain rfl := Except.ok.inj stands
    exact ⟨dated, measured⟩
  · rintro ⟨dated, measured⟩
    exact Attempt.bind_eq_ok_iff.mpr ⟨_, dated, Attempt.bind_eq_ok_iff.mpr ⟨_, measured, rfl⟩⟩

theorem Store.exists_getMany (st : Store) (service : st.down = none) (ids : List String) :
    ∃ rs, st.getMany ids = .ok rs := by
  unfold Store.getMany
  split
  · exact ⟨[], rfl⟩
  · exact ⟨_, serve_texts_eq_ok (serves_of_down_eq_none service _ _) _⟩

namespace Action

variable {env : Surroundings} {s : Shelf}

def liveReadOf (st : Store) (settings : Settings) (c : Collection) : Attempt LiveRead := do
  let l ← st.currentListing c
  let p ← Progress.of l.counts c.minRequired c.targetCount settings.nearThreshold
  .ok ⟨l, p⟩

theorem liveReadOf_eq_ok_iff {st : Store} {settings : Settings} {c : Collection} {read : LiveRead} :
    liveReadOf st settings c = .ok read ↔ st.currentListing c = .ok read.listing ∧
      Progress.of read.listing.counts c.minRequired c.targetCount settings.nearThreshold =
        .ok read.progress := by
  constructor
  · intro live
    obtain ⟨l, listed, live⟩ := Attempt.bind_eq_ok_iff.mp live
    obtain ⟨progress, measured, live⟩ := Attempt.bind_eq_ok_iff.mp live
    obtain rfl := Except.ok.inj live
    exact ⟨listed, measured⟩
  · rintro ⟨listed, measured⟩
    exact Attempt.bind_eq_ok_iff.mpr ⟨_, listed, Attempt.bind_eq_ok_iff.mpr ⟨_, measured, rfl⟩⟩

theorem run_liveRead (c : Collection) :
    (liveRead c).run env s = (liveReadOf (env.records s) env.settings c, s) := by
  rw [liveRead, run_bind, run_store]
  refine run_bind_of_reads (run_attempt ..) fun l => ?_
  rw [run_bind, run_settings]
  exact run_bind_of_reads (run_attempt ..) fun p => run_pure ..

def describedOf (rules : Json) : Attempt String :=
  match Rule.ofJson rules with
  | .ok r => .ok r.describe
  | .error ps => .error (.rule ps)

theorem run_described (rules : Json) : (described rules).run env s = (describedOf rules, s) := by
  unfold described describedOf
  cases Rule.ofJson rules <;> rfl

def detailOf (st : Store) (settings : Settings) (c : Collection) : Attempt Detail := do
  let read ← liveReadOf st settings c
  let recipes ← st.getMany (Detail.beginning settings.detailLimit read.listing.ids)
  let shown ← c.viewed
  let description ← describedOf c.rules
  .ok ⟨shown, read, description, recipes⟩

theorem run_detail (id : String) : (detail id).run env s =
    (required s id >>= detailOf (env.records s) env.settings, s) := by
  refine run_bind_of_reads (run_require _ _ id) fun c => ?_
  refine run_bind_of_reads (run_liveRead c) fun read => ?_
  rw [run_bind, run_settings]
  dsimp only
  rw [run_bind, run_store]
  refine run_bind_of_reads (run_attempt ..) fun recipes => ?_
  refine run_bind_of_reads (run_attempt ..) fun shown => ?_
  exact run_bind_of_reads (run_described c.rules) fun description => run_pure ..

def itemsOf (s : Shelf) (settings : Settings) (now : Instant) (q : Search) :
    Attempt (List ListItem) :=
  ((s.collections.filter fun c => q.Admits c).mergeSort Collection.recentFirst).mapM fun c =>
    ListItem.of c settings now

def foundOf (s : Shelf) (settings : Settings) (now : Instant) (q : Search) :
    Attempt (List ListItem) := do
  let items ← itemsOf s settings now q
  .ok (items.filter fun i => q.qualified.all (i.isQualified == ·))

theorem run_found (q : Search) :
    (found q).run env s = (foundOf s env.settings env.now q, s) := by
  rw [found, run_bind, run_settings]
  dsimp only
  rw [run_bind, run_now]
  dsimp only
  rw [run_bind, run_get]
  exact run_bind_of_reads (run_attempt ..) fun items => run_pure ..

theorem run_list (q : Search) : (list q).run env s =
    ((foundOf s env.settings env.now q).map fun items => Page.of items q.page q.pageSize, s) := by
  rw [list, run_bind, run_found]
  cases foundOf s env.settings env.now q <;> rfl

/-- What a list shows is a row of the shelf as it stands. -/
theorem item_of_list {q : Search} {p : Page ListItem} {i : ListItem}
    (listed : ((list q).run env s).1 = .ok p) (member : i ∈ p.items) :
    i.collection ∈ s.collections ∧
      i.collection.standing env.settings env.settings.cacheTtl env.now = .ok i.standing := by
  rw [run_list] at listed
  obtain ⟨found, searched, rfl⟩ := Attempt.map_eq_ok_iff.mp listed
  obtain ⟨items, mapped, filtered⟩ := Attempt.bind_eq_ok_iff.mp searched
  obtain rfl := Except.ok.inj filtered
  have shown := List.mem_of_mem_drop (List.mem_of_mem_take member)
  have kept : i ∈ items := (List.mem_filter.mp shown).1
  obtain ⟨c, row, shown⟩ := Attempt.exists_of_mem_mapM mapped kept
  obtain ⟨standing, stands, rfl⟩ := Attempt.map_eq_ok_iff.mp shown
  exact ⟨(List.mem_filter.mp (List.mem_mergeSort.mp row)).1, stands⟩

theorem required_of_mem (keyed : s.Keyed) {c : Collection} (row : c ∈ s.collections) :
    required s c.id = .ok c := by
  unfold required
  rw [keyed.find?_eq_some row]

theorem liveReadOf_extends (st : Store) (settings : Settings) (c : Collection) :
    Attempt.Extends (liveReadOf st settings c) (liveReadOf st.restored settings c) :=
  (st.currentListing_extends c).bind fun _ => .refl _

theorem of_detail_eq_ok (keyed : s.Keyed) {c : Collection} (row : c ∈ s.collections) {d : Detail}
    (answered : ((detail c.id).run env s).1 = .ok d) :
    d.collection = c ∧ liveReadOf s.records env.settings c = .ok d.read := by
  rw [run_detail, required_of_mem keyed row] at answered
  change detailOf (env.records s) env.settings c = .ok d at answered
  obtain ⟨read, live, answered⟩ := Attempt.bind_eq_ok_iff.mp answered
  obtain ⟨recipes, _, answered⟩ := Attempt.bind_eq_ok_iff.mp answered
  obtain ⟨shown, viewed, answered⟩ := Attempt.bind_eq_ok_iff.mp answered
  obtain ⟨description, _, answered⟩ := Attempt.bind_eq_ok_iff.mp answered
  obtain rfl := Except.ok.inj answered
  have restored : (env.records s).restored = s.records := rfl
  have extended := liveReadOf_extends (env.records s) env.settings c read live
  rw [restored] at extended
  exact ⟨(Collection.viewed_eq_ok_iff.mp viewed).2, extended⟩

theorem records_of_outage_eq_none (service : env.outage = none) : env.records s = s.records := by
  unfold Surroundings.records
  rw [service]
  rfl

/-- The rule of a row that has a listing can be read, and so described. -/
theorem exists_describedOf {st : Store} {c : Collection} {l : Listing}
    (listed : st.currentListing c = .ok l) : ∃ text, describedOf c.rules = .ok text := by
  obtain ⟨r, rule, _⟩ := Store.currentListing_eq_ok_iff.mp listed
  unfold describedOf
  rw [rule]
  exact ⟨r.describe, rfl⟩

theorem exists_detail (keyed : s.Keyed) {c : Collection} (row : c ∈ s.collections)
    (service : env.outage = none) (shown : c.viewIssues = []) {read : LiveRead}
    (live : liveReadOf s.records env.settings c = .ok read) :
    ∃ d, ((detail c.id).run env s).1 = .ok d := by
  obtain ⟨text, described⟩ := exists_describedOf (liveReadOf_eq_ok_iff.mp live).1
  obtain ⟨recipes, fetched⟩ := s.records.exists_getMany rfl
    (Detail.beginning env.settings.detailLimit read.listing.ids)
  have viewed := Collection.viewed_eq_ok_iff.mpr ⟨shown, rfl⟩
  refine ⟨⟨c, read, text, recipes⟩, ?_⟩
  rw [run_detail, required_of_mem keyed row, records_of_outage_eq_none service]
  change detailOf s.records env.settings c = _
  refine Attempt.bind_eq_ok_iff.mpr ⟨read, live, ?_⟩
  refine Attempt.bind_eq_ok_iff.mpr ⟨recipes, fetched, ?_⟩
  refine Attempt.bind_eq_ok_iff.mpr ⟨c, viewed, ?_⟩
  exact Attempt.bind_eq_ok_iff.mpr ⟨text, described, rfl⟩

end Action

end Cookbook
