import Cookbook.Proofs.Shelf.Pages
import Cookbook.Proofs.Text.Pattern

/-!
# Searching for a text

A search for nothing but a text lists the rows with a name or a slug in which it occurs.  That is
where the text is contained, unless it has a character that a pattern takes for something else.
-/

namespace Cookbook

open Text

namespace Search

/-- A page of the search for a text, without other filters. -/
def forText (text : String) (pageSize page : Int) : Search :=
  ⟨none, none, none, some text, page, pageSize⟩

variable {q : Search} {s : Shelf} {text : String} {c : Collection}

theorem mem_rows : c ∈ q.rows s ↔ c ∈ s.collections ∧ q.Selects c := by
  rw [(rows_perm q s).mem_iff, List.mem_filter, decide_eq_true_eq]

theorem selects_forText (given : text ≠ "") (pageSize page : Int) :
    (forText text pageSize page).Selects c ↔ Occurs text c.name ∨ Occurs text c.slug := by
  simp [Selects, Admits, forText, presentText?, found_iff, given]

end Search

namespace Collection

/-- Name and slug are without null characters. -/
def Unbroken (c : Collection) : Prop := null ∉ c.name.toList ∧ null ∉ c.slug.toList

instance (c : Collection) : Decidable c.Unbroken := inferInstanceAs (Decidable (_ ∧ _))

def Mentions (c : Collection) (text : String) : Prop := Contains text c.name ∨ Contains text c.slug

instance (c : Collection) (text : String) : Decidable (c.Mentions text) :=
  inferInstanceAs (Decidable (_ ∨ _))

end Collection

/-- A search for nothing but a text is answered, and its pages show, once each, the rows with a name
or a slug in which the text occurs.  As far as names and slugs are unbroken, a text without null
characters is found wherever it is mentioned, and a plain text nowhere else.  Every other text finds
a name that does not contain it. -/
theorem Shelf.search_exact {s : Shelf} (keyed : s.Keyed)
    (words : ∀ c ∈ s.collections, (Number.int c.cached.published).FitsWord)
    {env : Search → Surroundings}
    (spans : ∀ q, (env q).settings.cacheTtl ≤ Snapshot.longestSpan) {text : String}
    (given : text ≠ "") (pageSize : Int) :
    ∃ (read : Int → Page ListItem) (found : List Collection),
      (∀ k, (Action.list (.forText text pageSize k)).run (env (.forText text pageSize k)) s =
        (.ok (read k), s)) ∧
      (Search.forText text pageSize 1).Paged found read ∧
      (found.map Collection.id).Nodup ∧
      (∀ c, c ∈ found ↔ c ∈ s.collections ∧ (Occurs text c.name ∨ Occurs text c.slug)) ∧
      (null ∉ text.toList → ∀ c ∈ s.collections, c.Unbroken → c.Mentions text → c ∈ found) ∧
      (Plain text → ∀ c ∈ s.collections, c.Unbroken → (c ∈ found ↔ c.Mentions text)) ∧
      (¬ Plain text → ∃ name : String, null ∉ name.toList ∧ ¬ Contains text name ∧
        ∀ c ∈ s.collections, c.name = name → c ∈ found) := by
  obtain ⟨read, answered, _, paged⟩ := Search.exists_pages words spans
  have mem_found (c : Collection) : c ∈ (Search.forText text pageSize 1).rows s ↔
      c ∈ s.collections ∧ (Occurs text c.name ∨ Occurs text c.slug) := by
    rw [Search.mem_rows, Search.selects_forText given]
  refine ⟨fun k => read (.forText text pageSize k), _, fun k => answered _, paged _,
    Search.nodup_rows keyed, mem_found, fun unbroken c row ends mentions => ?_,
    fun plain c row ends => ?_, fun other => ?_⟩
  · refine (mem_found c).mpr ⟨row, mentions.imp ?_ ?_⟩
    · exact occurs_of_contains unbroken ends.1
    · exact occurs_of_contains unbroken ends.2
  · rw [mem_found, plain.occurs_iff_contains ends.1, plain.occurs_iff_contains ends.2]
    exact and_iff_right row
  · obtain ⟨name, unbroken, occurs, missing⟩ := exists_occurs_not_contains other
    refine ⟨name, unbroken, missing, fun c row same => (mem_found c).mpr ⟨row, .inl ?_⟩⟩
    exact same ▸ occurs

def Collection.quick : Collection :=
  .ofNew ⟨"Quick Dinners", "quick", themeType, Status.draft, none, none, Rule.emptyJson, .unlinked,
    [], [], 1, 2, 0⟩ Rule.emptyJson "t" ⟨0⟩

namespace Shelf

def menus : Shelf where
  catalog := .empty .utc
  collections := [.quick, .ofNew ⟨"Rye, 50%", "rye", Collection.themeType, Status.draft, none, none,
    Rule.emptyJson, .unlinked, [], [], 1, 2, 0⟩ Rule.emptyJson "u" ⟨0⟩]
  drawn := 0

theorem search_exact_menus :
    menus.Keyed ∧ Plain "DINNER" ∧ ∃ (read : Int → Page ListItem) (found : List Collection),
      (∀ k, (Action.list (.forText "DINNER" 20 k)).run (.paged (.forText "DINNER" 20 k)) menus =
        (.ok (read k), menus)) ∧
      (Search.forText "DINNER" 20 1).Paged found read ∧ found = [.quick] := by
  have keyed : menus.Keyed := by decide
  have words : ∀ c ∈ menus.collections, (Number.int c.cached.published).FitsWord := by decide
  have plain : Plain "DINNER" := by decide
  have unbroken : ∀ c ∈ menus.collections, c.Unbroken := by decide
  have mentions : ∀ c ∈ menus.collections, c.Mentions "DINNER" ↔ c = .quick := by decide
  obtain ⟨read, found, answered, paged, once, mem_found, _, exact, _⟩ :=
    search_exact keyed words Surroundings.spans_paged (show "DINNER" ≠ "" by decide) 20
  have only (c : Collection) : c ∈ found ↔ c = .quick := by
    refine ⟨fun member => ?_, ?_⟩
    · have row := ((mem_found c).mp member).1
      exact (mentions c row).mp ((exact plain c row (unbroken c row)).mp member)
    · rintro rfl
      have row : Collection.quick ∈ menus.collections := List.mem_cons_self
      exact (exact plain _ row (unbroken _ row)).mpr ((mentions _ row).mpr rfl)
  refine ⟨keyed, plain, read, found, answered, paged, ?_⟩
  exact List.perm_singleton.mp ((List.perm_ext_iff_of_nodup once.of_map
    (List.nodup_singleton _)).mpr fun c => by rw [only, List.mem_singleton])

/-- An underscore finds the space in the name of a row that does not mention it. -/
theorem underscore_finds_other_text :
    (∃ p, (Action.list (.forText "k_d" 20 1)).run ⟨.standard, ⟨0⟩, none⟩ menus = (.ok p, menus) ∧
      p.items.map ListItem.collection = [.quick]) ∧
    "k_d" ≠ "" ∧ ¬ Collection.quick.Mentions "k_d" := by
  have listed : ((Action.list (.forText "k_d" 20 1)).run ⟨.standard, ⟨0⟩, none⟩ menus).1.map
      (fun p => p.items.map ListItem.collection) = .ok [.quick] := by decide +kernel
  obtain ⟨p, answered, items⟩ := Attempt.map_eq_ok_iff.mp listed
  refine ⟨⟨p, ?_, items⟩, by decide, by decide⟩
  rw [Action.run_list] at answered ⊢
  exact Prod.ext answered rfl

end Shelf

end Cookbook
