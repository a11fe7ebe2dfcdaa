import Cookbook.Proofs.Shelf.Pages
import Mathlib.Data.Prod.Lex
import Mathlib.Data.String.Basic

/-!
# Collections on offer

Collections that are published and have enough published recipes are shown as cards, and a search
for them lists the same ones.  The cards are read off the columns and the list goes through the
snapshots, but both tell the same of a row, however old its counts are.
-/

namespace Cookbook

namespace Collection

/-- Collections are offered by their sort order, and of equal ones the one with more published
recipes comes first. -/
def offerKey (c : Collection) : ℤ ×ₗ ℤ ×ₗ String :=
  toLex (c.sortOrder, toLex (-c.cached.published, c.id))

variable {c d : Collection}

theorem offerFirst_iff : c.offerFirst d = true ↔ c.offerKey ≤ d.offerKey := by
  simp [offerFirst, offerKey, Prod.Lex.toLex_le_toLex]

theorem id_eq_of_offerKey_eq (same : c.offerKey = d.offerKey) : c.id = d.id :=
  congrArg (fun key => (ofLex (ofLex key).2).2) same

theorem pairwise_mergeSort_offerFirst (cs : List Collection) :
    (cs.mergeSort offerFirst).Pairwise fun c d => c.offerKey ≤ d.offerKey := by
  apply pairwise_mergeSort_of_iff
  · exact offerFirst_iff
  · exact le_trans
  · exact fun c d => le_total c.offerKey d.offerKey

/-- The card of a collection. -/
def card (c : Collection) : Card :=
  ⟨c, (Progress.percent? c.cached.published c.targetCount).getD .zero⟩

theorem card_of (word : (Number.int c.cached.published).FitsWord) : Card.of c = .ok c.card := by
  obtain ⟨x, computed⟩ := Progress.exists_percent? word c.targetCount
  rw [Card.of, card, computed]
  rfl

end Collection

namespace ListItem

/-- What a list item tells of a card. -/
def card (i : ListItem) : Card := ⟨i.collection, i.standing.progress.progress⟩

variable {c : Collection} {settings : Settings} {now : Instant} {i : ListItem}

theorem card_of_eq_ok (item : of c settings now = .ok i) : i.card = c.card := by
  obtain ⟨standing, stands, rfl⟩ := Attempt.map_eq_ok_iff.mp item
  rw [Collection.card, (Progress.of_of_eq_ok (Collection.standing_eq_ok_iff.mp stands).2).1]
  rfl

end ListItem

namespace Shelf

/-- The collections on offer, in their order. -/
def offered (s : Shelf) (type : Option String) : List Collection :=
  (s.collections.filter fun c =>
    decide c.OnOffer && (presentText? type).all (c.type == ·)).mergeSort Collection.offerFirst

variable {s : Shelf} {type : Option String} {c : Collection}

theorem offered_perm (s : Shelf) (type : Option String) : (s.offered type).Perm
    (s.collections.filter fun c => decide c.OnOffer && (presentText? type).all (c.type == ·)) :=
  List.mergeSort_perm ..

theorem mem_of_mem_offered (offer : c ∈ s.offered type) : c ∈ s.collections :=
  (List.mem_filter.mp ((s.offered_perm type).mem_iff.mp offer)).1

theorem length_offered_le : (s.offered type).length ≤ s.collections.length := by
  rw [(s.offered_perm type).length_eq]
  exact List.length_filter_le ..

/-- Ids are told apart, so the order of the offers is strict. -/
theorem pairwise_offered (keyed : s.Keyed) :
    (s.offered type).Pairwise fun c d => c.offerKey < d.offerKey := by
  have distinct : ((s.offered type).map Collection.id).Nodup :=
    ((s.offered_perm type).map Collection.id).nodup_iff.mpr
      ((List.filter_sublist.map _).nodup keyed)
  have apart : (s.offered type).Pairwise fun c d => c.id ≠ d.id := List.pairwise_map.mp distinct
  refine ((Collection.pairwise_mergeSort_offerFirst _).and apart).imp fun ⟨le, other⟩ => ?_
  exact lt_of_le_of_ne le (mt Collection.id_eq_of_offerKey_eq other)

end Shelf

/-- A page of the search for the qualified collections among the published ones. -/
def Search.onOffer (type : Option String) (pageSize page : Int) : Search :=
  ⟨some Status.published, type, some true, none, page, pageSize⟩

theorem Search.selects_onOffer (type : Option String) (pageSize page : Int) (c : Collection) :
    (onOffer type pageSize page).Selects c ↔ c.OnOffer ∧ ∀ t ∈ presentText? type, c.type = t := by
  have published : presentText? (some Status.published) = some Status.published := by decide
  have everything : presentText? none = none := rfl
  simp only [Selects, Admits, onOffer, published, everything, Option.mem_some_iff, forall_eq',
    Option.not_mem_none, false_imp_iff, implies_true, and_true, decide_eq_true_eq]
  exact and_right_comm

/-- The search and the offers have the same rows. -/
theorem Search.rows_onOffer_perm (s : Shelf) (type : Option String) (pageSize page : Int) :
    ((onOffer type pageSize page).rows s).Perm (s.offered type) := by
  refine (rows_perm _ s).trans (List.Perm.trans (.of_eq ?_) (s.offered_perm type).symm)
  refine List.filter_congr fun c _ => ?_
  rw [Bool.eq_iff_iff, decide_eq_true_eq, selects_onOffer]
  cases presentText? type <;> simp

namespace Store

variable {α β : Type} {limit : Int} {xs : List α}

theorem window_zero (limit : Int) (xs : List α) :
    window 0 (some limit) xs = if limit < 0 then xs else xs.take limit.toNat := rfl

theorem window_subset : window 0 (some limit) xs ⊆ xs := by
  rw [window_zero]
  split
  · exact List.Subset.refl xs
  · exact List.take_subset _ _

theorem map_window (f : α → β) (limit : Int) (xs : List α) :
    (window 0 (some limit) xs).map f = window 0 (some limit) (xs.map f) := by
  simp only [window_zero]
  split
  · rfl
  · exact List.map_take

theorem fitsWindow_zero_iff : FitsWindow 0 (some limit) ↔ (Number.int limit).FitsWord := by
  simp [FitsWindow, show (Number.int 0).FitsWord by decide]

end Store

namespace Page

variable {α β : Type}

/-- The items of all pages, one page after the other. -/
def whole (pages : Int → Page α) : List α :=
  (List.range (pages 1).totalPages.toNat).flatMap fun before : Nat => (pages (before + 1)).items

theorem map_whole (f : α → β) (pages : Int → Page α) : (whole pages).map f =
    (List.range (pages 1).totalPages.toNat).flatMap
      fun before : Nat => (pages (before + 1)).items.map f := by
  rw [whole, List.map_flatMap]

end Page

theorem Search.Paged.map_whole {q : Search} {rows : List Collection} {pages : Int → Page ListItem}
    (paged : q.Paged rows pages) : (Page.whole pages).map ListItem.collection = rows := by
  rw [Page.map_whole, paged.totalPages, Int.toNat_natCast]
  exact paged.whole

namespace Shelf

variable {s : Shelf} {type : Option String} {limit : Int}

/-- The cards are those of the offers, up to the limit if there is one. -/
theorem run_qualified (words : ∀ c ∈ s.collections, (Number.int c.cached.published).FitsWord)
    (env : Surroundings) (type : Option String) (limit : Int) :
    (Action.qualified type limit).run env s =
      (if (Number.int limit).FitsWord then
        .ok (Store.window 0 (some limit) ((s.offered type).map Collection.card))
      else .error .overflow, s) := by
  have part : ∀ c ∈ Store.window 0 (some limit) (s.offered type), Card.of c = .ok c.card := by
    intro c member
    exact Collection.card_of (words c (mem_of_mem_offered (Store.window_subset member)))
  rw [Action.qualified, Action.run_bind, Action.run_get]
  dsimp only
  by_cases fits : (Number.int limit).FitsWord
  · rw [if_neg (not_not_intro (Store.fitsWindow_zero_iff.mpr fits)), if_pos fits,
      ← Store.map_window, ← Attempt.mapM_eq_ok part]
    exact Action.run_attempt ..
  · rw [if_pos (mt Store.fitsWindow_zero_iff.mp fits), if_neg fits]
    rfl

/-- These cards are offered, the first of them where there is a limit.  A negative limit is none,
and a limit beyond a word of 64 bits is refused. -/
structure Offers (s : Shelf) (type : Option String) (cards : List Card) : Prop where
  ordered : cards.Pairwise fun a b => a.collection.offerKey < b.collection.offerKey
  everything : ∀ env (limit : Int), s.collections.length ≤ limit → (Number.int limit).FitsWord →
    (Action.qualified type limit).run env s = (.ok cards, s)
  first : ∀ env limit, 0 ≤ limit → (Number.int limit).FitsWord →
    (Action.qualified type limit).run env s = (.ok (cards.take limit.toNat), s)
  unlimited : ∀ env limit, limit < 0 → (Number.int limit).FitsWord →
    (Action.qualified type limit).run env s = (.ok cards, s)
  refused : ∀ env limit, ¬ (Number.int limit).FitsWord →
    (Action.qualified type limit).run env s = (.error .overflow, s)

theorem offers_offered (keyed : s.Keyed)
    (words : ∀ c ∈ s.collections, (Number.int c.cached.published).FitsWord)
    (type : Option String) : s.Offers type ((s.offered type).map Collection.card) := by
  have length : ((s.offered type).map Collection.card).length ≤ s.collections.length := by
    rw [List.length_map]
    exact length_offered_le
  constructor
  case ordered => exact List.pairwise_map.mpr (pairwise_offered keyed)
  case everything =>
    intro env limit long fits
    rw [run_qualified words, if_pos fits, Store.window_zero, if_neg (by omega),
      List.take_of_length_le (by omega)]
  case first =>
    intro env limit some fits
    rw [run_qualified words, if_pos fits, Store.window_zero, if_neg (by omega)]
  case unlimited =>
    intro env limit negative fits
    rw [run_qualified words, if_pos fits, Store.window_zero, if_pos negative]
  case refused =>
    intro env limit large
    rw [run_qualified words, if_neg large]

/-- The cards of a type and the items on all pages of the search for the qualified collections among
the published ones of that type are about the same collections, and tell the same of each, whenever
each page is read and however old the counts of a collection are.  The cards stand in the order of
the offers, and a limit keeps the first of them. -/
theorem offers_agree (keyed : s.Keyed)
    (words : ∀ c ∈ s.collections, (Number.int c.cached.published).FitsWord)
    (type : Option String) :
    ∃ cards, s.Offers type cards ∧
      ∀ (pageSize : Int) (env : Int → Surroundings),
        (∀ k, (env k).settings.cacheTtl ≤ Snapshot.longestSpan) →
        ∃ read : Int → Page ListItem,
          (∀ k, (Action.list (.onOffer type pageSize k)).run (env k) s = (.ok (read k), s)) ∧
          cards.Perm ((Page.whole read).map ListItem.card) ∧
          ∀ i ∈ Page.whole read,
            i.card.toJson.getD "publishedCount" = i.toJson.getD "publishedCount" ∧
            i.card.toJson.getD "progress" = i.toJson.getD "progress" := by
  refine ⟨_, offers_offered keyed words type, fun pageSize env spans => ?_⟩
  obtain ⟨read, answered, items, paged⟩ :=
    @Search.exists_pages s words (fun q => env q.page) fun q => spans q.page
  refine ⟨fun k => read (.onOffer type pageSize k), fun k => answered _, ?_, fun i _ => ⟨rfl, rfl⟩⟩
  have rows := (paged (.onOffer type pageSize 1)).map_whole
  have cards : (Page.whole fun k => read (.onOffer type pageSize k)).map ListItem.card =
      ((Search.onOffer type pageSize 1).rows s).map Collection.card := by
    rw [← rows, List.map_map]
    refine List.map_congr_left fun i member => ?_
    obtain ⟨before, _, shown⟩ := List.mem_flatMap.mp member
    exact ListItem.card_of_eq_ok (items _ i shown)
  rw [cards]
  exact ((Search.rows_onOffer_perm s type pageSize 1).map Collection.card).symm

/-- A row of one time with the counts that were taken of it. -/
def stall (id type status : String) (order published : Int) (cachedAt : Option Instant) :
    Collection :=
  { Collection.ofNew ⟨"Any", id, type, status, none, none, Rule.emptyJson, .unlinked, [], [], 2, 4,
      order⟩ Rule.emptyJson id ⟨0⟩ with
    cached := ⟨published, published, 0, 0⟩
    cachedAt := cachedAt }

/-- One that was never counted, and with the same sort order one that was counted long ago. -/
def firstStalls : List Collection :=
  [stall "b" "theme" Status.published 1 7 (some ⟨0⟩), stall "a" "theme" Status.published 1 3 none]

/-- The others do not suffice, are no longer published or of another type. -/
def stalls : Shelf where
  catalog := .empty .utc
  collections := firstStalls.reverse ++ [stall "c" "theme" Status.published 0 1 none,
    stall "d" "theme" Status.archived 0 9 none, stall "e" "scene" Status.published 0 2 none]
  drawn := 0

/-- A day after the last count. -/
def later : Surroundings := ⟨.standard, ⟨86400 * Instant.microsPerSecond⟩, none⟩

theorem offers_agree_stalls :
    stalls.Keyed ∧ (∀ c ∈ stalls.collections, (Number.int c.cached.published).FitsWord) ∧
    later.settings.cacheTtl ≤ Snapshot.longestSpan ∧
    ∃ (cards : List Card) (read : Int → Page ListItem),
      (∀ k, (Action.list (.onOffer (some "theme") 1 k)).run later stalls = (.ok (read k), stalls)) ∧
      (Action.qualified (some "theme") 5).run later stalls = (.ok cards, stalls) ∧
      (Action.qualified (some "theme") 1).run later stalls = (.ok (cards.take 1), stalls) ∧
      cards.map (fun k => (k.collection.id, k.progress)) =
        [("b", .ofInt 100), ("a", .ofInt 75)] ∧
      cards.Perm ((Page.whole read).map ListItem.card) := by
  have keyed : stalls.Keyed := by decide
  have words : ∀ c ∈ stalls.collections, (Number.int c.cached.published).FitsWord := by decide
  have span : later.settings.cacheTtl ≤ Snapshot.longestSpan := by decide
  have sorted : stalls.offered (some "theme") = firstStalls := by
    have chosen : (stalls.collections.filter fun c =>
        decide c.OnOffer && (presentText? (some "theme")).all (c.type == ·)) =
          firstStalls.reverse := by decide
    have perm := stalls.offered_perm (some "theme")
    rw [chosen] at perm
    refine (perm.trans (List.reverse_perm _)).eq_of_pairwise ?_ (pairwise_offered keyed) ?_
    · exact fun c d _ _ before after => absurd before after.asymm
    · simp [firstStalls, stall, Collection.offerKey, Collection.ofNew, Prod.Lex.toLex_lt_toLex]
  obtain ⟨cards, offers, pages⟩ := offers_agree keyed words (some "theme")
  obtain ⟨read, answered, same, _⟩ := pages 1 (fun _ => later) fun _ => span
  have whole := offers.everything later 5 (by decide) (by decide)
  refine ⟨keyed, words, span, cards, read, answered, whole,
    offers.first later 1 (by decide) (by decide), ?_, same⟩
  have shown : cards = firstStalls.map Collection.card := by
    rw [run_qualified words, sorted] at whole
    exact (Except.ok.inj (congrArg Prod.fst whole)).symm
  rw [shown]
  decide +kernel

/-- A limit beyond a word of 64 bits is longer than the shelf, but no cards are shown. -/
theorem long_limit_refused :
    (stalls.collections.length : Int) ≤ 2 ^ 63 ∧
    (∃ p, (Action.list (.onOffer (some "scene") 20 1)).run later stalls = (.ok p, stalls) ∧
      p.items.map (·.collection.id) = ["e"]) ∧
    ∀ cards, ((Action.qualified (some "scene") (2 ^ 63)).run later stalls).1 ≠ .ok cards := by
  have listed : ((Action.list (.onOffer (some "scene") 20 1)).run later stalls).1.map
      (fun p => p.items.map (·.collection.id)) = .ok ["e"] := by decide +kernel
  have refused : ((Action.qualified (some "scene") (2 ^ 63)).run later stalls).1 =
      .error .overflow := by decide +kernel
  obtain ⟨p, answered, items⟩ := Attempt.map_eq_ok_iff.mp listed
  refine ⟨by decide, ⟨p, ?_, items⟩, fun cards answer => ?_⟩
  · rw [Action.run_list] at answered ⊢
    exact Prod.ext answered rfl
  · cases refused.symm.trans answer

end Shelf

end Cookbook
