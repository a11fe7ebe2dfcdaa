import Cookbook.Proofs.Shelf.Drawn
import Cookbook.Proofs.Shelf.Sources

/-!
# Linking the catalog

Every unlinked source gets a collection.  A slug is given out only if it is not taken, by a row or
by a source before; the last resort ends in a part of a new id, and that it leads to an unused slug
is all that has to be assumed.
-/

namespace Cookbook

namespace LinkSource

variable {l : LinkSource} {ls : List LinkSource} {taken : List String} {n : Nat}

def typedSlug (l : LinkSource) : String := l.type ++ "-" ++ l.slug

/-- The last resort, with a part of the id of this number. -/
def suffixedSlug (l : LinkSource) (n : Nat) : String :=
  l.typedSlug ++ "-" ++ String.ofList ((idText n).toList.take 6)

/-- The slug for the source when so many ids are drawn already. -/
def slugAmong (l : LinkSource) (taken : List String) (n : Nat) : String :=
  if l.slug ∉ taken then l.slug
  else if l.typedSlug ∉ taken then l.typedSlug
  else l.suffixedSlug (n + 1)

/-- How many ids are drawn after that. -/
def drawnAfter (l : LinkSource) (taken : List String) (n : Nat) : Nat :=
  if l.slug ∈ taken ∧ l.typedSlug ∈ taken then n + 1 else n

/-- Whenever a source has to resort to a new id, this makes an unused slug. -/
def SuffixesFree : List String → Nat → List LinkSource → Prop
  | _, _, [] => True
  | taken, n, l :: ls =>
    (l.slug ∈ taken → l.typedSlug ∈ taken → l.suffixedSlug (n + 1) ∉ taken) ∧
      SuffixesFree (l.slugAmong taken n :: taken) (l.drawnAfter taken n + 1) ls

instance decidableSuffixesFree :
    ∀ (taken : List String) (n : Nat) (ls : List LinkSource), Decidable (SuffixesFree taken n ls)
  | _, _, [] => inferInstanceAs (Decidable True)
  | taken, n, l :: ls =>
    have := decidableSuffixesFree (l.slugAmong taken n :: taken) (l.drawnAfter taken n + 1) ls
    inferInstanceAs (Decidable (_ ∧ _))

theorem slugAmong_not_mem
    (free : l.slug ∈ taken → l.typedSlug ∈ taken → l.suffixedSlug (n + 1) ∉ taken) :
    l.slugAmong taken n ∉ taken := by
  unfold slugAmong
  split
  next unused => exact unused
  next used =>
    split
    next unused => exact unused
    next used' => exact free (not_not.mp used) (not_not.mp used')

theorem fitsColumns_toCollection (l : LinkSource) (slug id : String) (now : Instant) :
    (l.toCollection slug id now).FitsColumns := by
  change ∀ n ∈ [(10 : Int), 20, 0], (Number.int n).FitsWord
  decide

theorem le_drawnAfter (l : LinkSource) (taken : List String) (n : Nat) :
    n ≤ l.drawnAfter taken n := by
  unfold drawnAfter
  split <;> omega

/-- Collections for some sources in turn, with slugs that were not taken, and with ids that were
drawn in between. -/
structure Linked (now : Instant) (taken : List String) (m n : Nat) (ls : List LinkSource)
    (cs : List Collection) : Prop where
  made : List.Forall₂ (fun l c => c = l.toCollection c.slug c.id now) ls cs
  slugs : (cs.map Collection.slug).Nodup
  untaken : ∀ c ∈ cs, c.slug ∉ taken
  ids : (cs.map Collection.id).Nodup
  drawn : ∀ c ∈ cs, ∃ k, m < k ∧ k ≤ n ∧ c.id = idText k

theorem Linked.nil {now : Instant} : Linked now taken n n [] [] where
  made := .nil
  slugs := List.nodup_nil
  untaken := List.forall_mem_nil _
  ids := List.nodup_nil
  drawn := List.forall_mem_nil _

theorem Linked.cons {now : Instant} {n m k : Nat} {slug : String} {cs : List Collection}
    (unused : slug ∉ taken) (later : n < m) (within : m ≤ k)
    (rest : Linked now (slug :: taken) m k ls cs) :
    Linked now taken n k (l :: ls) (l.toCollection slug (idText m) now :: cs) where
  made := .cons rfl rest.made
  slugs := by
    refine List.nodup_cons.mpr ⟨fun member => ?_, rest.slugs⟩
    obtain ⟨c, among, same⟩ := List.mem_map.mp member
    exact rest.untaken c among (same ▸ List.mem_cons_self)
  untaken := by
    refine List.forall_mem_cons.mpr ⟨unused, fun c member => ?_⟩
    exact fun used => rest.untaken c member (List.mem_cons_of_mem _ used)
  ids := by
    refine List.nodup_cons.mpr ⟨fun member => ?_, rest.ids⟩
    obtain ⟨c, among, same⟩ := List.mem_map.mp member
    obtain ⟨j, after, _, number⟩ := rest.drawn c among
    exact absurd (idText_injective (number.symm.trans same)) after.ne'
  drawn := by
    refine List.forall_mem_cons.mpr ⟨⟨m, later, within, rfl⟩, fun c member => ?_⟩
    obtain ⟨j, after, last, number⟩ := rest.drawn c member
    exact ⟨j, later.trans after, last, number⟩

theorem Linked.map_links {now : Instant} {m : Nat} {cs : List Collection}
    (linked : Linked now taken m n ls cs) : cs.map Collection.links = ls.map LinkSource.links := by
  have made := linked.made
  clear linked
  induction made with
  | nil => rfl
  | cons same _ ih => exact congrArg₂ List.cons (congrArg Collection.links same) ih

theorem Linked.exists_source {now : Instant} {m : Nat} {cs : List Collection}
    (linked : Linked now taken m n ls cs) {c : Collection} (new : c ∈ cs) :
    ∃ l ∈ ls, c = l.toCollection c.slug c.id now := by
  have made := linked.made
  clear linked
  induction made with
  | nil => cases new
  | @cons l d ls cs same _ ih =>
    rcases List.mem_cons.mp new with rfl | new
    · exact ⟨l, List.mem_cons_self, same⟩
    · obtain ⟨m, source, made⟩ := ih new
      exact ⟨m, List.mem_cons_of_mem _ source, made⟩

end LinkSource

namespace Action

variable {env : Surroundings} {s : Shelf}

theorem run_freeSlug (l : LinkSource) (taken : List String) :
    (freeSlug taken l.type l.slug).run env s =
      (.ok (l.slugAmong taken s.drawn), { s with drawn := l.drawnAfter taken s.drawn }) := by
  have typed : l.type ++ "-" ++ l.slug = l.typedSlug := rfl
  unfold freeSlug LinkSource.slugAmong LinkSource.drawnAfter
  rw [typed]
  by_cases used : l.slug ∈ taken
  · by_cases used' : l.typedSlug ∈ taken
    · simp [used, used', LinkSource.suffixedSlug, Except.map]
    · simp [used, used']
  · simp [used]

/-- In turn each source gets its collection; the induction is on the sources, for all slugs that are
taken by then. -/
theorem run_link (env : Surroundings) (now : Instant) {ls : List LinkSource} :
    ∀ {taken : List String} {s : Shelf}, LinkSource.SuffixesFree taken s.drawn ls →
      ∃ cs n, (link now taken ls).run env s = (.ok cs, { s with drawn := n }) ∧ s.drawn ≤ n ∧
        LinkSource.Linked now taken s.drawn n ls cs := by
  induction ls with
  | nil =>
    intro taken s _
    exact ⟨[], s.drawn, rfl, le_rfl, .nil⟩
  | cons l ls ih =>
    intro taken s free
    obtain ⟨unused, rest⟩ := free
    obtain ⟨cs, n, ran, later, linked⟩ :=
      ih (s := { s with drawn := l.drawnAfter taken s.drawn + 1 }) rest
    have before := l.le_drawnAfter taken s.drawn
    dsimp only at later linked
    refine ⟨_, n, ?_, by omega,
      linked.cons (l := l) (LinkSource.slugAmong_not_mem unused) (by omega) later⟩
    rw [link, run_bind, run_freeSlug]
    dsimp only
    rw [run_bind, run_drawId]
    dsimp only
    rw [run_bind, ran]
    rfl

end Action

namespace Shelf

variable {env : Surroundings} {s : Shelf} {cs : List Collection} {n : Nat}

/-- What is linked is told apart from the rows and from each other. -/
theorem ToldApart.add_linked (apart : s.ToldApart) (later : s.drawn ≤ n) {now : Instant}
    {ls : List LinkSource}
    (linked : LinkSource.Linked now (s.collections.map Collection.slug) s.drawn n ls cs) :
    ({ s with drawn := n }.add cs).ToldApart :=
  apart.add later linked.slugs linked.untaken linked.ids linked.drawn

/-- Whatever was not linked is linked by its new collection. -/
theorem unlinkedSources_add_linked (named : s.catalog.Named) {now : Instant}
    {taken : List String} {m : Nat}
    (linked : LinkSource.Linked now taken m n s.unlinkedSources cs) :
    ({ s with drawn := n }.add cs).unlinkedSources = [] := by
  refine List.eq_nil_iff_forall_not_mem.mpr fun l unlinked => ?_
  have named' : ({ s with drawn := n }.add cs).catalog.Named := named
  obtain ⟨source, uncovered⟩ := (mem_unlinkedSources named').mp unlinked
  by_cases covered : s.Covers l.links
  · obtain ⟨c, row, covers⟩ := covered
    exact uncovered ⟨c, List.mem_append_left _ row, covers⟩
  · have before := (mem_unlinkedSources named).mpr ⟨source, covered⟩
    have new : l.links ∈ cs.map Collection.links :=
      linked.map_links ▸ List.mem_map_of_mem before
    obtain ⟨c, among, same⟩ := List.mem_map.mp new
    exact uncovered ⟨c, List.mem_append_right _ among, same ▸ Rule.Links.cover_refl _⟩

end Shelf

namespace Action

variable {env : Surroundings} {s : Shelf}

/-- In service the unlinked sources get their collections in one commit. -/
theorem run_syncLinked (service : env.outage = none) (apart : s.ToldApart)
    (free : LinkSource.SuffixesFree (s.collections.map Collection.slug) s.drawn
      s.unlinkedSources) :
    ∃ cs n, syncLinked.run env s = (.ok cs, { s with drawn := n }.add cs) ∧ s.drawn ≤ n ∧
      LinkSource.Linked env.now (s.collections.map Collection.slug) s.drawn n s.unlinkedSources
        cs := by
  obtain ⟨cs, n, ran, later, linked⟩ := run_link env env.now free
  refine ⟨cs, n, ?_, later, linked⟩
  have after := apart.add_linked later linked
  have allowed : insertable cs { s with drawn := n } = .ok () := by
    refine insertable_eq_ok (fun c new => ?_) ⟨after.ids, after.slugs⟩
    obtain ⟨l, _, made⟩ := linked.exists_source new
    rw [made]
    exact l.fitsColumns_toCollection _ _ _
  rw [syncLinked, run_bind, run_get]
  dsimp only
  rw [run_bind, run_now]
  dsimp only
  rw [run_bind, ran]
  dsimp only
  cases cs with
  | nil => simp [Shelf.add]
  | cons c cs =>
    change (insert (c :: cs) >>= fun _ => pure (c :: cs)).run env _ = _
    rw [run_bind, run_insert service allowed]
    rfl

/-- Where every source is linked nothing happens, whatever is out of service. -/
theorem run_syncLinked_of_unlinkedSources (nothing : s.unlinkedSources = []) (env : Surroundings) :
    syncLinked.run env s = (.ok [], s) := by
  rw [syncLinked, run_bind, run_get]
  dsimp only
  rw [nothing]
  rfl

end Action

/-- The sync of linked collections keeps every row and adds exactly one for each cuisine, location
and tag of a listed type that none is linked to; slugs and ids tell all of them apart.  Each new row
is the one for its source, its rule asks for the active recipes that are filed under the source, and
nothing is reported about it.  The next sync finds nothing to do. -/
theorem Shelf.syncLinked_exact {env : Surroundings} {s : Shelf} (service : env.outage = none)
    (apart : s.ToldApart) (keyed : s.catalog.Keyed) (named : s.catalog.Named)
    (free : LinkSource.SuffixesFree (s.collections.map Collection.slug) s.drawn
      s.unlinkedSources) :
    ∃ cs t, Action.syncLinked.run env s = (.ok cs, t) ∧
      t.catalog = s.catalog ∧ t.collections = s.collections ++ cs ∧ t.ToldApart ∧
      (∀ l ∈ s.catalog.linkSources,
        cs.countP (fun c => c.links = l.links) = if s.Covers l.links then 0 else 1) ∧
      (∀ c ∈ cs, ∃ l ∈ s.catalog.linkSources, ¬ s.Covers l.links ∧
        c = l.toCollection c.slug c.id env.now ∧
        c.ListsExactly t.records (·.FiledUnder l.links)) ∧
      ∀ env', Action.syncLinked.run env' t = (.ok [], t) := by
  obtain ⟨cs, n, ran, later, linked⟩ := Action.run_syncLinked service apart free
  have links := linked.map_links
  have count (l : LinkSource) : cs.countP (fun c => c.links = l.links) =
      (s.unlinkedSources.map LinkSource.links).count l.links := by
    rw [← links, List.count, List.countP_map]
    rfl
  have once : (s.unlinkedSources.map LinkSource.links).Nodup := by
    refine (((perm_unlinkedSources named).map _).nodup_iff).mpr ?_
    exact (List.filter_sublist.map _).nodup (Catalog.nodup_map_links_linkSources keyed)
  refine ⟨cs, _, ran, rfl, rfl, apart.add_linked later linked, ?_, ?_, ?_⟩
  · intro l source
    rw [count]
    split
    next covered =>
      refine List.count_eq_zero.mpr fun member => ?_
      obtain ⟨m, unlinked, same⟩ := List.mem_map.mp member
      exact ((mem_unlinkedSources named).mp unlinked).2 (same ▸ covered)
    next uncovered =>
      refine List.count_eq_one_of_mem once (List.mem_map_of_mem ?_)
      exact (mem_unlinkedSources named).mpr ⟨source, uncovered⟩
  · intro c new
    obtain ⟨l, unlinked, made⟩ := linked.exists_source new
    obtain ⟨source, uncovered⟩ := (mem_unlinkedSources named).mp unlinked
    refine ⟨l, source, uncovered, made, ?_⟩
    rw [made]
    exact LinkSource.listsExactly rfl keyed (LinkSource.follows named l source) _ _ _
  · exact Action.run_syncLinked_of_unlinkedSources (unlinkedSources_add_linked named linked)

namespace Shelf

/-- A cuisine, a location and a tag of one slug, which a row has as well, and another row has the
next best slug of the cuisine.  One cuisine is linked already, and one tag is of no listed type. -/
def sichuan : Shelf where
  catalog := ⟨.utc, [⟨"sc", "Sichuan", "sichuan"⟩, ⟨"it", "Italian", "italian"⟩],
    [⟨"sc", "Sichuan", "sichuan"⟩],
    [⟨"hot", "Hot", "sichuan", "taste"⟩, ⟨"new", "New", "new", "news"⟩],
    [{ Recipe.bare "a" Status.published with cuisineId := some "sc" },
      { Recipe.bare "b" Status.draft with tags := ["hot"] }]⟩
  collections := [{ Collection.trattoria with slug := "sichuan", links := ⟨some "it", none, none⟩ },
    { Collection.trattoria with id := "u", slug := "cuisine-sichuan" }]
  drawn := 0

theorem toldApart_sichuan : sichuan.ToldApart where
  ids := by decide
  slugs := by decide
  fresh n _ := idText_not_mem (by decide) n

theorem syncLinked_exact_sichuan :
    sichuan.ToldApart ∧ sichuan.catalog.Keyed ∧ sichuan.catalog.Named ∧
    LinkSource.SuffixesFree (sichuan.collections.map Collection.slug) sichuan.drawn
      sichuan.unlinkedSources ∧
    ∃ cs t, Action.syncLinked.run (.standard 1) sichuan = (.ok cs, t) ∧
      cs.map Collection.slug = ["cuisine-sichuan-id0001", "region-sichuan", "taste-sichuan"] ∧
      t.ToldApart ∧ (∀ c ∈ cs, ∃ l ∈ sichuan.catalog.linkSources,
        c.ListsExactly t.records (·.FiledUnder l.links)) ∧
      ∀ env, Action.syncLinked.run env t = (.ok [], t) := by
  have service : (Surroundings.standard 1).outage = none := rfl
  have keyed : sichuan.catalog.Keyed := by decide
  have named : sichuan.catalog.Named := ⟨by decide, by decide, by decide⟩
  have free : LinkSource.SuffixesFree (sichuan.collections.map Collection.slug) sichuan.drawn
      sichuan.unlinkedSources := by decide +kernel
  obtain ⟨cs, t, ran, _, _, apart, _, lists, again⟩ :=
    syncLinked_exact service toldApart_sichuan keyed named free
  have slugs : (Action.syncLinked.run (.standard 1) sichuan).1.map (List.map Collection.slug) =
      .ok ["cuisine-sichuan-id0001", "region-sichuan", "taste-sichuan"] := by decide +kernel
  rw [ran] at slugs
  refine ⟨toldApart_sichuan, keyed, named, free, cs, t, ran, Except.ok.inj slugs, apart, ?_, again⟩
  intro c new
  obtain ⟨l, source, _, _, exactly⟩ := lists c new
  exact ⟨l, source, exactly⟩

end Shelf

end Cookbook
