import Cookbook.Collection.Basic
import Cookbook.Compiled.Basic
import Cookbook.Proofs.Json.Sorted
import Cookbook.Proofs.Rule.Read

/-!
# What a fingerprint is taken of

The fingerprint of a compiled rule is the digest of a text, which tells every two rules and every
two sets of links apart.  The text has the written form of the rule, and the form can always be
written in JSON: the numbers that cannot were replaced in it.
-/

namespace Cookbook.Rule

open Json

section Written

variable {style : Style} {name : String} {o : Option String}

theorem map_fst_textMember_sublist (name : String) (o : Option String) :
    ((textMember name o).map Prod.fst).Sublist [name] := by
  cases o with
  | none => exact List.nil_sublist _
  | some s => exact List.Sublist.refl _

theorem faithful_of_mem_textMember : ∀ m ∈ textMember name o, m.2.Faithful style := by
  cases o with
  | none => nofun
  | some s => exact List.forall_mem_singleton.mpr trivial

theorem Condition.faithful_toJson {c : Condition} (wellFormed : c.value.WellFormed) :
    c.toJson.Faithful style := by
  have value : ((storedValue c.value).map Prod.fst).Sublist ["value"] := by
    unfold storedValue
    split
    · exact List.nil_sublist _
    · exact List.Sublist.refl _
  refine ⟨?_, membersFaithful_iff.mpr ?_⟩
  · have names : ["field", "operator", "value", "tagType"].Nodup := by decide
    refine List.Sublist.nodup ?_ names
    simp only [List.map_append]
    exact (((map_fst_textMember_sublist ..).append (map_fst_textMember_sublist ..)).append
      value).append (map_fst_textMember_sublist ..)
  · simp only [List.forall_mem_append]
    refine ⟨⟨⟨faithful_of_mem_textMember, faithful_of_mem_textMember⟩, ?_⟩,
      faithful_of_mem_textMember⟩
    unfold storedValue
    split
    · nofun
    · exact List.forall_mem_singleton.mpr wellFormed.writable

theorem faithful_map_toJson {cs : List Condition} (wellFormed : ∀ c ∈ cs, c.value.WellFormed) :
    (arr (cs.map Condition.toJson)).Faithful style :=
  itemsFaithful_iff.mpr <| List.forall_mem_map.mpr fun c part =>
    Condition.faithful_toJson (wellFormed c part)

theorem Group.faithful_toJson {g : Group} (wellFormed : ∀ c ∈ g.conditions, c.value.WellFormed) :
    g.toJson.Faithful style := by
  refine ⟨?_, membersFaithful_iff.mpr ?_⟩
  · have names : ["logic", "conditions"].Nodup := by decide
    refine List.Sublist.nodup ?_ names
    rw [List.map_append]
    exact (map_fst_textMember_sublist ..).append (List.Sublist.refl _)
  · rw [List.forall_mem_append]
    exact ⟨faithful_of_mem_textMember,
      List.forall_mem_singleton.mpr (faithful_map_toJson wellFormed)⟩

/-- Every style can write the written form of a rule. -/
theorem WellFormed.faithful_toJson {r : Rule} (wellFormed : r.WellFormed) :
    r.toJson.Faithful style := by
  cases r with
  | auto field value tagType =>
    refine ⟨?_, membersFaithful_iff.mpr ?_⟩
    · have names : ["mode", "field", "value", "tagType"].Nodup := by decide
      refine List.Sublist.nodup (List.Sublist.cons_cons "mode" ?_) names
      simp only [List.map_append]
      exact ((map_fst_textMember_sublist ..).append (map_fst_textMember_sublist ..)).append
        (map_fst_textMember_sublist ..)
    · simp only [List.forall_mem_cons, List.forall_mem_append]
      exact ⟨trivial, ⟨faithful_of_mem_textMember, faithful_of_mem_textMember⟩,
        faithful_of_mem_textMember⟩
  | custom groups exclude =>
    obtain ⟨grouped, excluded⟩ := List.forall_mem_append.mp wellFormed
    have each : (arr (groups.map Group.toJson)).Faithful style :=
      itemsFaithful_iff.mpr <| List.forall_mem_map.mpr fun g part =>
        Group.faithful_toJson (List.forall_mem_flatMap.mp grouped g part)
    exact ⟨by simp, trivial, each, faithful_map_toJson excluded, trivial⟩

end Written

theorem faithful_ofOption_str (style : Style) (o : Option String) :
    (Json.ofOption .str o).Faithful style := by
  cases o <;> trivial

theorem sameTree_ofOption_str_iff {o o' : Option String} :
    (Json.ofOption .str o).sameTree (Json.ofOption .str o') = true ↔ o = o' := by
  cases o <;> cases o' <;> simp [Json.ofOption, sameTree]

theorem Links.sameTree_toJson_iff {links links' : Links} :
    links.toJson.sameTree links'.toJson = true ↔ links.cuisine = links'.cuisine ∧
      links.location = links'.location ∧ links.tag = links'.tag := by
  simp [toJson, sameTree, sameTrees, sameTree_ofOption_str_iff]

variable {r r' : Rule}

theorem sourceText_eq_iff (left : r.WellFormed) (right : r'.WellFormed) (links links' : Links) :
    r.sourceText links = r'.sourceText links' ↔
      r.toJson.sameTree r'.toJson = true ∧ links.toJson.sameTree links'.toJson = true := by
  have faithful {r : Rule} (wellFormed : r.WellFormed) (links : Links) :
      (obj [("rule", r.toJson), ("links", links.toJson)]).Faithful unsorted :=
    ⟨by simp, wellFormed.faithful_toJson, ⟨faithful_ofOption_str _ _, faithful_ofOption_str _ _,
      faithful_ofOption_str _ _, trivial⟩, trivial⟩
  rw [sourceText, sourceText, text_canonical_eq_iff (faithful left links) (faithful right links')]
  simp [sameTree, among]

/-- The text under a fingerprint changes with every change of the written form, but for the order of
members, and with every change of a link.  The manual overrides, the thresholds and the id of a
collection do not come into it.  All rules that are read from well-formed values are well-formed. -/
theorem sourceText_tracks_rule_and_links (left : r.WellFormed) (right : r'.WellFormed) :
    (∀ ctx ctx' : Context, r.sourceText ctx.links = r'.sourceText ctx'.links ↔
      r.toJson.sameTree r'.toJson = true ∧ ctx.links.cuisine = ctx'.links.cuisine ∧
        ctx.links.location = ctx'.links.location ∧ ctx.links.tag = ctx'.links.tag) ∧
    ∀ c c' : Collection, r.sourceText c.context.links = r'.sourceText c'.context.links ↔
      r.toJson.sameTree r'.toJson = true ∧ c.links.cuisine = c'.links.cuisine ∧
        c.links.location = c'.links.location ∧ c.links.tag = c'.links.tag := by
  have tracked (links links' : Links) :=
    (sourceText_eq_iff left right links links').trans (and_congr_right' Links.sameTree_toJson_iff)
  exact ⟨fun ctx ctx' => tracked ctx.links ctx'.links, fun c c' => tracked c.links c'.links⟩

/-- A rule with an object as a value. -/
def remark (members : Members) : Rule :=
  .custom [⟨some "AND", [⟨some "title", some "in", .obj members, none⟩]⟩] []

def one : Binary64 := .finite false 4503599627370496 1022

def quoted : Json := .arr [.int 1, .str "\"\\\n😀"]

theorem sourceText_tracks_rule_and_links_remark :
    (∀ pinned excluded links,
      (remark [("a", quoted), ("b", .null)]).sourceText (Context.mk links pinned excluded).links =
        (remark [("b", .null), ("a", quoted)]).sourceText links) ∧
    (remark [("a", .int 1)]).sourceText .unlinked ≠
      (remark [("a", .float one)]).sourceText .unlinked ∧
    (remark [("a", .int 1)]).sourceText .unlinked ≠
      (remark [("a", .int 1)]).sourceText ⟨some "", none, none⟩ := by
  have wellFormed {ms : Members} (part : (obj ms).WellFormed) : (remark ms).WellFormed :=
    List.forall_mem_singleton.mpr part
  have forward : (obj [("a", quoted), ("b", .null)]).WellFormed :=
    ⟨by decide, ⟨trivial, trivial, trivial⟩, trivial, trivial⟩
  have backward : (obj [("b", .null), ("a", quoted)]).WellFormed :=
    ⟨by decide, trivial, ⟨trivial, trivial, trivial⟩, trivial⟩
  have whole : (obj [("a", .int 1)]).WellFormed := ⟨by decide, trivial, trivial⟩
  have fraction : (obj [("a", .float one)]).WellFormed :=
    ⟨by decide, (by decide : one.Canonical), trivial⟩
  refine ⟨fun pinned excluded links => ?_, fun same => ?_, fun same => ?_⟩
  · exact ((sourceText_tracks_rule_and_links (wellFormed forward) (wellFormed backward)).1
      ⟨links, pinned, excluded⟩ ⟨links, [], []⟩).mpr ⟨by decide, rfl, rfl, rfl⟩
  · have tree := ((sourceText_tracks_rule_and_links (wellFormed whole) (wellFormed fraction)).1
      ⟨.unlinked, [], []⟩ ⟨.unlinked, [], []⟩).mp same
    exact absurd tree.1 (by decide)
  · have links := ((sourceText_tracks_rule_and_links (wellFormed whole) (wellFormed whole)).1
      ⟨.unlinked, [], []⟩ ⟨⟨some "", none, none⟩, [], []⟩).mp same
    exact absurd links.2.1 (by decide)

end Cookbook.Rule
