import Cookbook.Text.Pattern
import Mathlib.Data.List.Infix
import Mathlib.Data.List.TakeWhile

/-!
# What a search finds

A pattern admits the texts that fall into parts, one for each of its signs.  For a text of plain
characters this is the search for a part of a text, letters in either case; any other text finds
something that does not contain it.
-/

namespace Cookbook.Text

theorem mem_suffixes {α : Type} {t s : List α} : t ∈ suffixes s ↔ t <:+ s := by
  induction s with
  | nil => simp [suffixes]
  | cons x s ih => rw [suffixes, List.mem_cons, ih, List.suffix_cons_iff]

/-- What one sign of a pattern stands for. -/
def StandsFor (c : Char) (part : List Char) : Prop :=
  c = anyText ∨ ∃ d, part = [d] ∧ (c = anyChar ∨ alikeChars c d = true)

/-- The text falls into parts, one for each sign of the pattern. -/
inductive Fits : List Char → List Char → Prop where
  | nil : Fits [] []
  | cons {c : Char} {p part s : List Char} :
    StandsFor c part → Fits p s → Fits (c :: p) (part ++ s)

section Fits

variable {c : Char} {p q s : List Char}

theorem fits_nil_iff : Fits [] s ↔ s = [] := by
  constructor
  · intro fits
    cases fits
    rfl
  · rintro rfl
    exact .nil

theorem fits_cons_iff :
    Fits (c :: p) s ↔ ∃ part rest, part ++ rest = s ∧ StandsFor c part ∧ Fits p rest := by
  constructor
  · intro fits
    cases fits with
    | cons stands fits => exact ⟨_, _, rfl, stands, fits⟩
  · rintro ⟨part, rest, rfl, stands, fits⟩
    exact .cons stands fits

theorem fits_append_iff :
    Fits (p ++ q) s ↔ ∃ first rest, first ++ rest = s ∧ Fits p first ∧ Fits q rest := by
  induction p generalizing s with
  | nil => simp [fits_nil_iff]
  | cons c p ih =>
    simp only [List.cons_append, fits_cons_iff, ih]
    constructor
    · rintro ⟨part, _, rfl, stands, first, rest, rfl, fits, last⟩
      exact ⟨part ++ first, rest, by simp, ⟨part, first, rfl, stands, fits⟩, last⟩
    · rintro ⟨_, rest, rfl, ⟨part, first, rfl, stands, fits⟩, last⟩
      exact ⟨part, first ++ rest, by simp, stands, first, rest, rfl, fits, last⟩

theorem fits_anyText_cons : Fits (anyText :: p) s ↔ ∃ t, t <:+ s ∧ Fits p t := by
  rw [fits_cons_iff]
  constructor
  · rintro ⟨part, rest, rfl, -, fits⟩
    exact ⟨rest, List.suffix_append .., fits⟩
  · rintro ⟨rest, ⟨part, rfl⟩, fits⟩
    exact ⟨part, rest, rfl, .inl rfl, fits⟩

theorem fits_append_anyText : Fits (p ++ [anyText]) s ↔ ∃ t, t <+: s ∧ Fits p t := by
  have any (rest : List Char) : Fits [anyText] rest :=
    fits_anyText_cons.mpr ⟨[], List.nil_suffix, .nil⟩
  rw [fits_append_iff]
  constructor
  · rintro ⟨first, rest, rfl, fits, -⟩
    exact ⟨first, List.prefix_append .., fits⟩
  · rintro ⟨first, ⟨rest, rfl⟩, fits⟩
    exact ⟨first, rest, rfl, fits, any rest⟩

theorem admits_iff : admits p s = true ↔ Fits p s := by
  induction p generalizing s with
  | nil => rw [admits, List.isEmpty_iff, fits_nil_iff]
  | cons c p ih =>
    unfold admits
    by_cases any : c = anyText
    · subst any
      simp only [if_true, List.any_eq_true, mem_suffixes, ih, fits_anyText_cons]
    · rw [if_neg any, fits_cons_iff]
      cases s with
      | nil => simp [StandsFor, any]
      | cons d s =>
        simp only [Bool.and_eq_true, Bool.or_eq_true, beq_iff_eq, ih]
        constructor
        · rintro ⟨stands, fits⟩
          exact ⟨[d], s, rfl, .inr ⟨d, rfl, stands⟩, fits⟩
        · rintro ⟨_, rest, parts, any' | ⟨e, rfl, stands⟩, fits⟩
          · exact absurd any' any
          · obtain ⟨rfl, rfl⟩ := List.cons.inj parts
            exact ⟨stands, fits⟩

end Fits

section Visible

variable {cs : List Char}

theorem null_not_mem_visible (cs : List Char) : null ∉ visible cs := by
  intro member
  simpa using List.mem_takeWhile_imp member

theorem visible_eq_self (unbroken : null ∉ cs) : visible cs = cs := by
  refine List.takeWhile_eq_self_iff.mpr fun c member => ?_
  simpa using fun same : c = null => unbroken (same ▸ member)

theorem visible_append (cs ds : List Char) :
    visible (cs ++ ds) = if null ∈ cs then visible cs else cs ++ visible ds := by
  induction cs with
  | nil => rfl
  | cons c cs ih =>
    by_cases ends : c = null
    · subst ends
      simp [visible]
    · have other : null ≠ c := fun same => ends same.symm
      have kept (ds : List Char) : visible (c :: ds) = c :: visible ds := by simp [visible, ends]
      rw [List.cons_append, kept, kept, ih]
      split <;> simp_all

end Visible

/-- A part of the text fits what is sought.  What is sought up to a null character is looked for at
the end of the text. -/
def Occurs (sought text : String) : Prop :=
  ∃ part, Fits (visible sought.toList) part ∧
    if null ∈ sought.toList then part <:+ visible text.toList else part <:+: visible text.toList

theorem found_iff {sought text : String} : Found sought text ↔ Occurs sought text := by
  have pattern : visible (anywhere sought) = anyText :: visible (sought.toList ++ [anyText]) := rfl
  rw [Found, admits_iff, pattern, fits_anyText_cons, Occurs, visible_append]
  by_cases ends : null ∈ sought.toList
  · simp only [if_pos ends, and_comm]
  · simp only [if_neg ends]
    rw [visible_eq_self ends, show visible [anyText] = [anyText] from rfl]
    simp only [fits_append_anyText]
    constructor
    · rintro ⟨rest, suffix, part, first, fits⟩
      exact ⟨part, fits, first.isInfix.trans suffix.isInfix⟩
    · rintro ⟨part, fits, before, after, parts⟩
      refine ⟨part ++ after, ⟨before, ?_⟩, part, List.prefix_append .., fits⟩
      rw [← parts, List.append_assoc]

/-- The text has what is sought as a part, the letters A to Z in either case. -/
def Contains (sought text : String) : Prop :=
  sought.toList.map Char.toLower <:+: text.toList.map Char.toLower

instance (sought text : String) : Decidable (Contains sought text) :=
  inferInstanceAs (Decidable (_ <:+: _))

/-- The characters that a comparison does not take for themselves. -/
def special : List Char := [anyText, anyChar, null, '\uFFFD', '\uFFFE', '\uFFFF']

def Plain (sought : String) : Prop := ∀ c ∈ sought.toList, c ∉ special

instance (sought : String) : Decidable (Plain sought) := List.decidableBAll _ _

section Plain

variable {c d : Char} {p s : List Char} {sought text : String}

theorem toNat_toLower (c : Char) :
    c.toLower.toNat = if 65 ≤ c.toNat ∧ c.toNat ≤ 90 then c.toNat + 32 else c.toNat := by
  have upper : (c.val ≥ 'A'.val ∧ c.val ≤ 'Z'.val) ↔ 65 ≤ c.toNat ∧ c.toNat ≤ 90 := Iff.rfl
  unfold Char.toLower
  by_cases letter : 65 ≤ c.toNat ∧ c.toNat ≤ 90
  · rw [dif_pos (upper.mpr letter), if_pos letter]
    change (c.val + 32).toNat = c.val.toNat + 32
    have bounds : 65 ≤ c.val.toNat ∧ c.val.toNat ≤ 90 := letter
    rw [UInt32.toNat_add]
    change (c.val.toNat + 32) % 4294967296 = _
    omega
  · rw [dif_neg (upper.not.mpr letter), if_neg letter]

/-- No other character is taken for one beyond the letters. -/
theorem toLower_eq_iff (beyond : d.toNat < 65 ∨ 122 < d.toNat) : c.toLower = d ↔ c = d := by
  rw [← Char.toNat_inj, ← Char.toNat_inj, toNat_toLower]
  split <;> omega

theorem replaced_toLower_eq_iff (plain : c ∉ special) :
    replaced c.toLower = replaced d.toLower ↔ c.toLower = d.toLower := by
  have other : c.toLower ≠ '\uFFFD' ∧ c.toLower ≠ '\uFFFE' ∧ c.toLower ≠ '\uFFFF' := by
    rw [Ne, Ne, Ne, toLower_eq_iff (by decide), toLower_eq_iff (by decide),
      toLower_eq_iff (by decide)]
    simp_all [special]
  generalize c.toLower = e at other ⊢
  generalize d.toLower = f
  obtain ⟨low, middle, high⟩ := other
  unfold replaced
  rw [if_neg (not_or.mpr ⟨middle, high⟩)]
  split
  next taken =>
    refine iff_of_false low ?_
    rintro rfl
    exact taken.elim middle high
  next => exact Iff.rfl

theorem fits_of_map_toLower_eq (same : p.map Char.toLower = s.map Char.toLower) : Fits p s := by
  induction p generalizing s with
  | nil => exact fits_nil_iff.mpr (List.map_eq_nil_iff.mp same.symm)
  | cons c p ih =>
    obtain ⟨d, t, rfl, lower, rest⟩ := List.map_eq_cons_iff.mp same.symm
    refine fits_cons_iff.mpr ⟨[d], t, rfl, .inr ⟨d, rfl, .inr ?_⟩, ih rest.symm⟩
    simp [alikeChars, lower]

theorem map_toLower_eq_of_fits (plain : ∀ c ∈ p, c ∉ special) (fits : Fits p s) :
    p.map Char.toLower = s.map Char.toLower := by
  induction fits with
  | nil => rfl
  | cons stands fits ih =>
    obtain ⟨first, rest⟩ := List.forall_mem_cons.mp plain
    rcases stands with any | ⟨d, rfl, any | alike⟩
    · exact absurd (any ▸ by decide) first
    · exact absurd (any ▸ by decide) first
    · rw [alikeChars, beq_iff_eq, replaced_toLower_eq_iff first] at alike
      rw [List.map_cons, List.singleton_append, List.map_cons, alike, ih rest]

theorem contains_iff : Contains sought text ↔
    ∃ part, part <:+: text.toList ∧ sought.toList.map Char.toLower = part.map Char.toLower :=
  List.infix_map_iff

theorem occurs_iff_of_unbroken (sought' : null ∉ sought.toList) (text' : null ∉ text.toList) :
    Occurs sought text ↔ ∃ part, part <:+: text.toList ∧ Fits sought.toList part := by
  simp only [Occurs, visible_eq_self sought', visible_eq_self text', if_neg sought', and_comm]

/-- A search misses nothing. -/
theorem occurs_of_contains (sought' : null ∉ sought.toList) (text' : null ∉ text.toList)
    (contains : Contains sought text) : Occurs sought text := by
  obtain ⟨part, among, same⟩ := contains_iff.mp contains
  exact (occurs_iff_of_unbroken sought' text').mpr ⟨part, among, fits_of_map_toLower_eq same⟩

theorem Plain.null_not_mem (plain : Plain sought) : null ∉ sought.toList :=
  fun member => plain null member (by decide)

theorem Plain.occurs_iff_contains (plain : Plain sought) (text' : null ∉ text.toList) :
    Occurs sought text ↔ Contains sought text := by
  refine ⟨fun occurs => ?_, occurs_of_contains plain.null_not_mem text'⟩
  obtain ⟨part, among, fits⟩ := (occurs_iff_of_unbroken plain.null_not_mem text').mp occurs
  exact contains_iff.mpr ⟨part, among, map_toLower_eq_of_fits plain fits⟩

/-- Another character that a special one stands for. -/
def instead (c : Char) : Char :=
  if c = '\uFFFD' then '\uFFFE'
  else if c = '\uFFFE' ∨ c = '\uFFFF' then '\uFFFD'
  else if c = anyText ∨ c = anyChar then 'a'
  else c

theorem standsFor_instead (c : Char) : StandsFor c [instead c] := by
  unfold instead
  split_ifs with low high any
  · exact .inr ⟨_, rfl, .inr (low ▸ by decide)⟩
  · exact .inr ⟨_, rfl, .inr (by rcases high with rfl | rfl <;> decide)⟩
  · exact any.imp_right fun any => ⟨_, rfl, .inl any⟩
  · exact .inr ⟨c, rfl, .inr (by simp [alikeChars])⟩

theorem fits_map_instead (p : List Char) : Fits p (p.map instead) := by
  induction p with
  | nil => exact .nil
  | cons c p ih => exact .cons (standsFor_instead c) ih

theorem toLower_instead_ne (taken : c ∈ special) (other : c ≠ null) :
    c.toLower ≠ (instead c).toLower := by
  have each : special.all (fun c => c == null || c.toLower != (instead c).toLower) = true := by
    decide
  simpa [other] using List.all_eq_true.mp each c taken

theorem instead_ne_null (other : c ≠ null) : instead c ≠ null := by
  unfold instead
  split_ifs <;> first | decide | exact other

/-- Everything else that is sought is also found where it is not contained. -/
theorem exists_occurs_not_contains (other : ¬ Plain sought) :
    ∃ text : String, null ∉ text.toList ∧ Occurs sought text ∧ ¬ Contains sought text := by
  have unbroken : null ∉ (visible sought.toList).map instead := by
    intro member
    obtain ⟨c, among, same⟩ := List.mem_map.mp member
    exact instead_ne_null (fun ends => null_not_mem_visible _ (ends ▸ among)) same
  refine ⟨.ofList ((visible sought.toList).map instead), ?_, ⟨_, fits_map_instead _, ?_⟩, ?_⟩
  · rwa [String.toList_ofList]
  · rw [String.toList_ofList, visible_eq_self unbroken]
    split
    · exact List.suffix_rfl
    · exact List.infix_rfl
  · rw [Contains, String.toList_ofList]
    intro contains
    by_cases ends : null ∈ sought.toList
    · obtain ⟨c, member, same⟩ := List.mem_map.mp (contains.subset (List.mem_map_of_mem ends))
      have broken : c = null := (toLower_eq_iff (by decide)).mp same
      exact unbroken (broken ▸ member)
    · rw [visible_eq_self ends] at contains
      have same := contains.eq_of_length (by simp)
      rw [List.map_map, List.map_inj_left] at same
      refine other fun c member taken => ?_
      exact toLower_instead_ne taken (fun broken => ends (broken ▸ member)) (same c member)

end Plain

end Cookbook.Text
