import Cookbook.Proofs.Listing.Answered
import Cookbook.Proofs.Listing.Recent
import Cookbook.Proofs.Shelf.Reading

/-!
# The pages of a list

A list is filtered by the columns of the rows, then by their counts, and only then cut into pages.
The pages of a search are consecutive parts of one list, so nothing is lost between them and nothing
comes twice, also when they are read at different times.
-/

namespace Cookbook

namespace Page

variable {α β : Type}

/-- How many items a page has room for. -/
def width (pageSize : Int) : Nat :=
  (min (max Search.smallestPage pageSize) Search.largestPage).toNat

/-- How many pages so many items fill, the last of them perhaps in part. -/
def count (length : Nat) (pageSize : Int) : Nat :=
  (length + width pageSize - 1) / width pageSize

/-- The items of the page after so many others. -/
def part (xs : List α) (pageSize : Int) (before : Nat) : List α :=
  (xs.drop (before * width pageSize)).take (width pageSize)

theorem natCast_width (pageSize : Int) :
    (width pageSize : Int) = min (max Search.smallestPage pageSize) Search.largestPage := by
  unfold width Search.smallestPage Search.largestPage
  omega

theorem width_pos (pageSize : Int) : 0 < width pageSize := by
  unfold width Search.smallestPage Search.largestPage
  omega

theorem count_le_iff {length k : Nat} {pageSize : Int} :
    count length pageSize ≤ k ↔ length ≤ k * width pageSize := by
  have pos := width_pos pageSize
  rw [count, Nat.div_le_iff_le_mul_add_pred pos, Nat.mul_comm]
  omega

theorem lt_count_iff {length k : Nat} {pageSize : Int} :
    k < count length pageSize ↔ k * width pageSize < length := by
  rw [← not_le, count_le_iff, not_le]

theorem pageSize_of (xs : List α) (page pageSize : Int) :
    (of xs page pageSize).pageSize = width pageSize := (natCast_width pageSize).symm

theorem totalPages_of (xs : List α) (page pageSize : Int) :
    (of xs page pageSize).totalPages = count xs.length pageSize := by
  have pos := width_pos pageSize
  change ((xs.length : Int) + min (max Search.smallestPage pageSize) Search.largestPage - 1) /
    min (max Search.smallestPage pageSize) Search.largestPage = _
  rw [← natCast_width, count, Int.natCast_ediv]
  congr 1
  omega

theorem items_of (xs : List α) (before : Nat) (pageSize : Int) :
    (of xs (before + 1) pageSize).items = part xs pageSize before := by
  have skipped : max 1 ((before : Int) + 1) - 1 = before := by omega
  unfold of part
  dsimp only
  rw [skipped, ← natCast_width, ← Int.natCast_mul, Int.toNat_natCast, Int.toNat_natCast]

theorem map_part (f : α → β) (xs : List α) (pageSize : Int) (before : Nat) :
    (part xs pageSize before).map f = part (xs.map f) pageSize before := by
  rw [part, part, List.map_take, List.map_drop]

/-- Consecutive parts of a list make its beginning. -/
theorem flatMap_part (xs : List α) (pageSize : Int) (pages : Nat) :
    (List.range pages).flatMap (part xs pageSize) = xs.take (pages * width pageSize) := by
  induction pages with
  | zero => simp
  | succ pages ih =>
    rw [List.range_succ, List.flatMap_append, ih, List.flatMap_singleton, part, Nat.succ_mul,
      List.take_add]

theorem flatMap_part_count (xs : List α) (pageSize : Int) :
    (List.range (count xs.length pageSize)).flatMap (part xs pageSize) = xs := by
  rw [flatMap_part, List.take_of_length_le (count_le_iff.mp le_rfl)]

theorem length_part (xs : List α) (pageSize : Int) (before : Nat) :
    (part xs pageSize before).length =
      min (width pageSize) (xs.length - before * width pageSize) := by
  rw [part, List.length_take, List.length_drop]

theorem length_part_of_lt {xs : List α} {pageSize : Int} {before : Nat}
    (more : before + 1 < count xs.length pageSize) :
    (part xs pageSize before).length = width pageSize := by
  have room := lt_count_iff.mp more
  rw [Nat.succ_mul] at room
  rw [length_part]
  omega

theorem length_part_pos {xs : List α} {pageSize : Int} {before : Nat}
    (within : before < count xs.length pageSize) : 0 < (part xs pageSize before).length := by
  have pos := width_pos pageSize
  have room := lt_count_iff.mp within
  rw [length_part]
  omega

theorem part_eq_nil {xs : List α} {pageSize : Int} {before : Nat}
    (beyond : count xs.length pageSize ≤ before) : part xs pageSize before = [] := by
  rw [part, List.drop_eq_nil_of_le (count_le_iff.mp beyond), List.take_nil]

end Page

namespace Collection

/-- Enough of its recipes are published, by the stored counts. -/
def Suffices (c : Collection) : Prop := c.minRequired ≤ c.cached.published

instance (c : Collection) : Decidable c.Suffices := inferInstanceAs (Decidable (_ ≤ _))

theorem recentFirst_iff {c d : Collection} :
    c.recentFirst d = true ↔ LaterFirst updatedAt (fun x y => x.id ≤ y.id) c d := by
  simp [recentFirst, LaterFirst]

theorem pairwise_mergeSort_recentFirst (cs : List Collection) :
    (cs.mergeSort recentFirst).Pairwise (LaterFirst updatedAt fun x y => x.id ≤ y.id) := by
  apply pairwise_mergeSort_of_iff
  · exact recentFirst_iff
  · exact fun first => first.trans String.le_trans
  · exact fun c d => LaterFirst.total (String.le_total c.id d.id)

end Collection

namespace Search

def Selects (q : Search) (c : Collection) : Prop :=
  q.Admits c ∧ ∀ wanted ∈ q.qualified, decide c.Suffices = wanted

instance (q : Search) (c : Collection) : Decidable (q.Selects c) :=
  inferInstanceAs (Decidable (_ ∧ _))

/-- The rows that a search finds, on all pages. -/
def rows (q : Search) (s : Shelf) : List Collection :=
  ((s.collections.filter fun c => q.Admits c).mergeSort Collection.recentFirst).filter
    fun c => q.qualified.all (decide c.Suffices == ·)

variable {q : Search} {s : Shelf}

theorem rows_perm (q : Search) (s : Shelf) :
    (q.rows s).Perm (s.collections.filter fun c => q.Selects c) := by
  have sorted := List.mergeSort_perm (s.collections.filter fun c => q.Admits c)
    Collection.recentFirst
  refine (sorted.filter _).trans (List.Perm.of_eq ?_)
  rw [List.filter_filter]
  refine List.filter_congr fun c _ => ?_
  cases chosen : q.qualified <;> simp [Selects, chosen, and_comm, Bool.beq_eq_decide_eq]

theorem nodup_rows (keyed : s.Keyed) : ((q.rows s).map Collection.id).Nodup :=
  ((rows_perm q s).map Collection.id).nodup_iff.mpr ((List.filter_sublist.map _).nodup keyed)

/-- Ids are told apart, so the order of the rows is strict. -/
theorem pairwise_rows (keyed : s.Keyed) :
    (q.rows s).Pairwise (LaterFirst Collection.updatedAt fun c d => c.id < d.id) := by
  have sorted := (Collection.pairwise_mergeSort_recentFirst
    (s.collections.filter fun c => q.Admits c)).sublist (List.filter_sublist
      (p := fun c => q.qualified.all (decide c.Suffices == ·)))
  have apart : (q.rows s).Pairwise fun c d => c.id ≠ d.id := List.pairwise_map.mp (nodup_rows keyed)
  exact (sorted.and apart).imp fun ⟨before, other⟩ =>
    before.imp_right fun ⟨same, le⟩ => ⟨same, Std.lt_of_le_of_ne le other⟩

/-- The lists of the qualified rows and of the others are parts of the list without that filter. -/
theorem rows_qualified (q : Search) (s : Shelf) (wanted : Bool) :
    { q with qualified := some wanted }.rows s =
      ({ q with qualified := none }.rows s).filter fun c => decide c.Suffices == wanted := by
  simp [rows, Admits]

/-- The pages of a search show these rows. -/
structure Paged (q : Search) (rows : List Collection) (pages : Int → Page ListItem) : Prop where
  page : ∀ k, (pages k).page = max 1 k
  pageSize : ∀ k, (pages k).pageSize = Page.width q.pageSize
  total : ∀ k, (pages k).total = rows.length
  totalPages : ∀ k, (pages k).totalPages = Page.count rows.length q.pageSize
  whole : (List.range (Page.count rows.length q.pageSize)).flatMap
    (fun before : Nat => (pages (before + 1)).items.map ListItem.collection) = rows
  full : ∀ k : Int, 1 ≤ k → k < Page.count rows.length q.pageSize →
    (pages k).items.length = Page.width q.pageSize
  last : 0 < Page.count rows.length q.pageSize →
    0 < (pages (Page.count rows.length q.pageSize)).items.length
  beyond : ∀ k : Int, Page.count rows.length q.pageSize < k → (pages k).items = []

theorem paged_of {found : Int → List ListItem} {rows : List Collection} (q : Search)
    (shown : ∀ k, (found k).map ListItem.collection = rows) :
    q.Paged rows fun k => Page.of (found k) k q.pageSize := by
  have total (k : Int) : (found k).length = rows.length := by rw [← shown k, List.length_map]
  have parts (before : Nat) :
      (Page.of (found (before + 1)) (before + 1) q.pageSize).items.map ListItem.collection =
        Page.part rows q.pageSize before := by
    rw [Page.items_of, Page.map_part, shown]
  have lengths (before : Nat) :
      (Page.of (found (before + 1)) (before + 1) q.pageSize).items.length =
        (Page.part rows q.pageSize before).length := by
    rw [← parts, List.length_map]
  have numbered {k : Int} (positive : 0 < k) : ∃ before : Nat, k = before + 1 :=
    ⟨(k - 1).toNat, by omega⟩
  constructor
  case page => exact fun k => rfl
  case pageSize => exact fun k => Page.pageSize_of ..
  case total => exact total
  case totalPages => exact fun k => total k ▸ Page.totalPages_of ..
  case whole =>
    exact (congrArg (List.flatMap · _) (funext parts)).trans (Page.flatMap_part_count ..)
  case full =>
    intro k first more
    obtain ⟨before, rfl⟩ := numbered (show 0 < k by omega)
    rw [lengths]
    exact Page.length_part_of_lt (by omega)
  case last =>
    intro some
    obtain ⟨before, last⟩ := numbered (Int.natCast_pos.mpr some)
    rw [last, lengths]
    exact Page.length_part_pos (by omega)
  case beyond =>
    intro k beyond
    obtain ⟨before, rfl⟩ := numbered (show 0 < k by omega)
    refine List.eq_nil_of_length_eq_zero ?_
    rw [lengths, Page.part_eq_nil (by omega), List.length_nil]

end Search

namespace ListItem

variable {c : Collection} {settings : Settings} {now : Instant} {i : ListItem}

theorem collection_of_eq_ok (item : of c settings now = .ok i) : i.collection = c := by
  obtain ⟨standing, _, rfl⟩ := Attempt.map_eq_ok_iff.mp item
  rfl

theorem isQualified_of_eq_ok (item : of c settings now = .ok i) :
    i.isQualified = decide c.Suffices := by
  obtain ⟨standing, stands, rfl⟩ := Attempt.map_eq_ok_iff.mp item
  exact (Progress.of_of_eq_ok (Collection.standing_eq_ok_iff.mp stands).2).2.1

theorem exists_of (span : settings.cacheTtl ≤ Snapshot.longestSpan)
    (word : (Number.int c.cached.published).FitsWord) (now : Instant) :
    ∃ i, of c settings now = .ok i := by
  have dated : ∃ state, Snapshot.freshness c.cachedAt settings.cacheTtl now = .ok state := by
    unfold Snapshot.freshness
    split
    next => exact ⟨_, rfl⟩
    next =>
      rw [if_neg (not_lt.mpr span)]
      split_ifs <;> exact ⟨_, rfl⟩
  obtain ⟨state, dated⟩ := dated
  obtain ⟨progress, measured⟩ :=
    Progress.exists_of word c.minRequired c.targetCount settings.nearThreshold
  exact ⟨⟨c, state, progress⟩, Attempt.map_eq_ok_iff.mpr
    ⟨⟨state, progress⟩, Collection.standing_eq_ok_iff.mpr ⟨dated, measured⟩, rfl⟩⟩

end ListItem

namespace Action

variable {s : Shelf} {settings : Settings} {now : Instant} {q : Search} {found : List ListItem}

theorem of_foundOf_eq_ok (searched : foundOf s settings now q = .ok found) :
    found.map ListItem.collection = q.rows s ∧
      ∀ i ∈ found, ListItem.of i.collection settings now = .ok i := by
  obtain ⟨items, mapped, filtered⟩ := Attempt.bind_eq_ok_iff.mp searched
  obtain rfl := Except.ok.inj filtered
  have itemOf : ∀ i ∈ items, ListItem.of i.collection settings now = .ok i := by
    intro i member
    obtain ⟨c, _, item⟩ := Attempt.exists_of_mem_mapM mapped member
    rwa [ListItem.collection_of_eq_ok item]
  refine ⟨?_, fun i member => itemOf i (List.mem_filter.mp member).1⟩
  rw [Search.rows, ← Attempt.map_eq_of_mapM_eq_ok ListItem.collection_of_eq_ok mapped,
    List.filter_map]
  refine congrArg _ (List.filter_congr fun i member => ?_)
  rw [ListItem.isQualified_of_eq_ok (itemOf i member)]
  rfl

theorem exists_foundOf (span : settings.cacheTtl ≤ Snapshot.longestSpan)
    (words : ∀ c ∈ s.collections, (Number.int c.cached.published).FitsWord) (now : Instant)
    (q : Search) : ∃ found, foundOf s settings now q = .ok found := by
  have items : ∃ items, itemsOf s settings now q = .ok items := by
    refine Attempt.exists_mapM fun c member => ListItem.exists_of span (words c ?_) now
    exact (List.mem_filter.mp (List.mem_mergeSort.mp member)).1
  obtain ⟨items, listed⟩ := items
  exact ⟨_, Attempt.bind_eq_ok_iff.mpr ⟨items, listed, rfl⟩⟩

end Action

/-- Searches are answered, each in surroundings of its own, and their pages show the same rows. -/
theorem Search.exists_pages {s : Shelf}
    (words : ∀ c ∈ s.collections, (Number.int c.cached.published).FitsWord)
    {env : Search → Surroundings}
    (spans : ∀ q, (env q).settings.cacheTtl ≤ Snapshot.longestSpan) :
    ∃ read : Search → Page ListItem,
      (∀ q, (Action.list q).run (env q) s = (.ok (read q), s)) ∧
      (∀ q, ∀ i ∈ (read q).items,
        ListItem.of i.collection (env q).settings (env q).now = .ok i) ∧
      ∀ q : Search, q.Paged (q.rows s) fun k => read { q with page := k } := by
  choose found searched using fun q => Action.exists_foundOf (spans q) words (env q).now q
  have shown (q : Search) := Action.of_foundOf_eq_ok (searched q)
  refine ⟨fun q => Page.of (found q) q.page q.pageSize, fun q => ?_, fun q i member => ?_,
    fun q => ?_⟩
  · rw [Action.run_list, searched]
    rfl
  · exact (shown q).2 i (List.mem_of_mem_drop (List.mem_of_mem_take member))
  · exact paged_of q fun k => (shown { q with page := k }).1

/-- Every search is answered, whenever it is made, and its pages show exactly the rows that all
filters let through: once each, last changed first and then by id.  All pages before the last are
full, the last is not empty, and all after it are.  A row is on the list of the qualified ones if
enough of its recipes are published, and on the list of the others if not. -/
theorem Shelf.pages_exact {s : Shelf} (keyed : s.Keyed)
    (words : ∀ c ∈ s.collections, (Number.int c.cached.published).FitsWord)
    {env : Search → Surroundings}
    (spans : ∀ q, (env q).settings.cacheTtl ≤ Snapshot.longestSpan) :
    ∃ read : Search → Page ListItem,
      (∀ q, (Action.list q).run (env q) s = (.ok (read q), s)) ∧
      (∀ q, ∀ i ∈ (read q).items, ListItem.of i.collection (env q).settings (env q).now = .ok i ∧
        i.isQualified = decide i.collection.Suffices) ∧
      ∀ q : Search, q.Paged (q.rows s) (fun k => read { q with page := k }) ∧
        (q.rows s).Perm (s.collections.filter fun c => q.Selects c) ∧
        ((q.rows s).map Collection.id).Nodup ∧
        (q.rows s).Pairwise (LaterFirst Collection.updatedAt fun c d => c.id < d.id) ∧
        ∀ wanted, { q with qualified := some wanted }.rows s =
          ({ q with qualified := none }.rows s).filter fun c => decide c.Suffices == wanted := by
  obtain ⟨read, answered, items, paged⟩ := Search.exists_pages words spans
  refine ⟨read, answered, fun q i member => ⟨items q i member, ?_⟩, fun q => ⟨paged q, ?_⟩⟩
  · exact ListItem.isQualified_of_eq_ok (items q i member)
  · exact ⟨q.rows_perm s, Search.nodup_rows keyed, Search.pairwise_rows keyed, q.rows_qualified s⟩

namespace Surroundings

/-- Each page is read at a time of its own. -/
def paged (q : Search) : Surroundings := ⟨.standard, ⟨q.page⟩, none⟩

theorem spans_paged (q : Search) : (paged q).settings.cacheTtl ≤ Snapshot.longestSpan :=
  show Settings.standard.cacheTtl ≤ _ by decide

end Surroundings

namespace Shelf

/-- Three drafts and a published row, all of one time. -/
def quartet : Shelf where
  catalog := .empty .utc
  collections := [("a", Status.draft), ("b", Status.published), ("d", Status.draft),
    ("e", Status.draft)].map fun (id, status) =>
      .ofNew ⟨"Any", id, Collection.themeType, status, none, none, Rule.emptyJson, .unlinked, [],
        [], 1, 2, 0⟩ Rule.emptyJson id ⟨0⟩
  drawn := 0

/-- Two drafts a page. -/
def drafts : Search := ⟨some Status.draft, none, none, none, 1, 2⟩

theorem pages_exact_quartet :
    quartet.Keyed ∧ (∀ c ∈ quartet.collections, (Number.int c.cached.published).FitsWord) ∧
    ∃ read : Int → Page ListItem,
      (∀ k, (Action.list { drafts with page := k }).run (.paged { drafts with page := k }) quartet =
        (.ok (read k), quartet)) ∧
      (read 1).total = 3 ∧ (read 1).totalPages = 2 ∧ (read 1).items.length = 2 ∧
      0 < (read 2).items.length ∧ (read 3).items = [] ∧
      ((read 1).items ++ (read 2).items).map ListItem.collection = drafts.rows quartet := by
  have keyed : quartet.Keyed := by decide
  have words : ∀ c ∈ quartet.collections, (Number.int c.cached.published).FitsWord := by decide
  have chosen : (quartet.collections.filter fun c => drafts.Selects c).length = 3 := by decide
  obtain ⟨read, answered, _, exact⟩ := pages_exact keyed words Surroundings.spans_paged
  obtain ⟨paged, perm, _⟩ := exact drafts
  have length := perm.length_eq.trans chosen
  have pages : Page.count (drafts.rows quartet).length drafts.pageSize = 2 := by
    rw [length]
    rfl
  have whole := paged.whole
  have last := paged.last (by rw [pages]; decide)
  rw [pages] at whole last
  refine ⟨keyed, words, fun k => read { drafts with page := k }, fun k => answered _, ?_, ?_, ?_,
    ?_, ?_, ?_⟩
  · exact (paged.total 1).trans length
  · exact (paged.totalPages 1).trans (congrArg _ pages)
  · exact paged.full 1 le_rfl (by rw [pages]; decide)
  · exact last
  · exact paged.beyond 3 (by rw [pages]; decide)
  · simpa [List.range_succ] using whole

end Shelf

end Cookbook
