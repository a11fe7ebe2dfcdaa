import Cookbook.Proofs.Compiled.Nesting
import Cookbook.Proofs.Json.Library
import Cookbook.Proofs.Predicate.ReadBack
import Cookbook.Proofs.Rule.Dropped
import Cookbook.Proofs.Rule.Read

/-!
# Compiled rules in writing

A compiled rule is read back from its text as itself, whenever that is, if and only if the numbers
of its predicate are finite and the library of JSON goes that far.  Compiling a rule puts no other
number into a predicate and nests it nine deep at most.
-/

namespace Cookbook

open Schema

theorem Json.writableItems_eq_map (xs : List Json) : writableItems xs = xs.map writable := by
  induction xs with
  | nil => rfl
  | cons x xs ih => rw [writableItems, ih, List.map_cons]

namespace Rule

/-- A warning names no place, or a place in the rule. -/
theorem location_of_mem_warnings {r : Rule} {links : Links} {w : Warning}
    (warned : w ∈ r.warnings links) :
    w.location = none ∨ ∃ l : Location, w.location = some l.marks := by
  cases r with
  | auto field value tagType =>
    simp only [warnings, bind] at warned
    split at warned
    next => cases warned
    next unbound =>
      obtain rfl := List.mem_singleton.mp warned
      split at unbound
      next => cases unbound; exact .inl rfl
      split at unbound
      next => cases unbound; exact .inl rfl
      split at unbound
      next => cases unbound; exact .inl rfl
      next => cases unbound
  | custom groups exclude =>
    rw [warnings, customWarnings_eq] at warned
    obtain ⟨p, _, rfl⟩ := List.mem_map.mp warned
    exact .inr ⟨p.place, rfl⟩

end Rule

namespace Compiled

theorem marksOf_toJson (ms : Rule.Marks) :
    marksOf (Json.writableMembers (ms.map fun (k, i) => (k, Json.ofOption .int i))) = .ok ms := by
  induction ms with
  | nil => rfl
  | cons m ms ih =>
    obtain ⟨k, i⟩ := m
    rw [List.map_cons, Json.writableMembers, marksOf, ih]
    cases i <;> rfl

theorem location_toJson (location : Option Rule.Marks) :
    optional marks (Json.ofOption Rule.Marks.toJson location).writable = .ok location := by
  cases location with
  | none => rfl
  | some ms => exact congrArg (Checked.map some) (marksOf_toJson ms)

theorem warningCode_name (code : Warning.Code) : warningCode (.str code.name) = .ok code := by
  cases code <;> rfl

theorem warning_toJson (w : Warning) : warning w.toJson.writable = .ok w := by
  obtain ⟨code, message, location⟩ := w
  simp only [Warning.toJson, Json.writable, Json.writableMembers]
  rw [warning, member_of_find? rfl (warningCode_name code),
    member_of_find? rfl (rfl : text (.str message) = .ok message),
    memberD_of_find? rfl (location_toJson location)]
  rfl

theorem warnings_toJson (ws : List Warning) :
    list warning (.arr (Json.writableItems (ws.map Warning.toJson))) = .ok ws := by
  have readBack : items warning 0 (ws.map (Json.writable ∘ Warning.toJson)) = .ok (ws.map id) :=
    items_map warning_toJson ws 0
  rw [Json.writableItems_eq_map, List.map_map, list, readBack, List.map_id]

theorem mode_name (mode : Rule.Mode) :
    named [Rule.Mode.auto, .custom] Rule.Mode.name (.str mode.name) = .ok mode := by
  cases mode <;> rfl

/-- All numbers of the predicate are finite. -/
def Finite (c : Compiled) : Prop := ∀ n ∈ c.predicate.numbers, n.isFinite = true

instance : DecidablePred Finite := fun c =>
  inferInstanceAs (Decidable (∀ n ∈ c.predicate.numbers, n.isFinite = true))

/-- The numbers of the predicate are in their one spelling, and each place that is warned of has
one mark of a name. -/
structure WellFormed (c : Compiled) : Prop where
  numbers : ∀ n ∈ c.predicate.numbers, n.Canonical
  marks : ∀ w ∈ c.warnings, ∀ ms ∈ w.location, (ms.map Prod.fst).Nodup

variable {c : Compiled}

theorem wellFormed_marks {ms : Rule.Marks} (distinct : (ms.map Prod.fst).Nodup) :
    ms.toJson.WellFormed := by
  have names : (ms.map fun (k, i) => (k, Json.ofOption .int i)).map Prod.fst = ms.map Prod.fst := by
    rw [List.map_map]
    rfl
  refine ⟨names ▸ distinct, ?_⟩
  clear distinct names
  induction ms with
  | nil => trivial
  | cons m ms ih => exact ⟨by cases m.2 <;> trivial, ih⟩

theorem wellFormed_warning {w : Warning}
    (distinct : ∀ ms ∈ w.location, (ms.map Prod.fst).Nodup) : w.toJson.WellFormed := by
  obtain ⟨code, message, location⟩ := w
  refine ⟨by simp, trivial, trivial, ?_, trivial⟩
  cases location with
  | none => trivial
  | some ms => exact wellFormed_marks (distinct ms rfl)

theorem wellFormed_warnings : ∀ ws : List Warning,
    (∀ w ∈ ws, ∀ ms ∈ w.location, (ms.map Prod.fst).Nodup) →
      Json.ItemsWellFormed (ws.map Warning.toJson)
  | [], _ => trivial
  | w :: ws, distinct =>
    ⟨wellFormed_warning (distinct w List.mem_cons_self),
      wellFormed_warnings ws fun v among => distinct v (List.mem_cons_of_mem w among)⟩

theorem WellFormed.toJson (wellFormed : c.WellFormed) : c.toJson.WellFormed :=
  ⟨by simp, trivial, Predicate.wellFormed_toJson c.predicate wellFormed.numbers,
    wellFormed_warnings c.warnings wellFormed.marks, Json.wellFormed_ofOption_str c.sourceHash,
    trivial, trivial⟩

section

variable (later : Instant)

theorem ofJson_toJson (finite : c.Finite) : ofJson later c.toJson.writable = .ok c := by
  obtain ⟨mode, predicate, warnings, sourceHash, compiledAt⟩ := c
  have hash : (Json.ofOption .str sourceHash).writable = Json.ofOption .str sourceHash := by
    cases sourceHash <;> rfl
  simp only [toJson, Json.writable, Json.writableMembers, hash]
  rw [ofJson, member_of_find? rfl (mode_name mode),
    member_of_find? rfl (Predicate.ofJson_toJson predicate finite),
    memberD_of_find? rfl (warnings_toJson warnings),
    memberD_of_find? rfl (optional_text sourceHash),
    memberD_of_find? rfl (rfl : text (.str compiledAt) = .ok compiledAt)]
  rfl

theorem finite_of_ofJson_toJson {c' : Compiled}
    (readBack : ofJson later c.toJson.writable = .ok c') : c.Finite := by
  simp only [toJson, Json.writable, Json.writableMembers] at readBack
  obtain ⟨_, withHash, _⟩ := Checked.seq_eq_ok_iff.mp readBack
  obtain ⟨_, withWarnings, _⟩ := Checked.seq_eq_ok_iff.mp withHash
  obtain ⟨_, withPredicate, _⟩ := Checked.seq_eq_ok_iff.mp withWarnings
  obtain ⟨_, _, p, read, _⟩ := Checked.seq_eq_ok_iff.mp withPredicate
  exact Predicate.isFinite_of_ofJson_toJson c.predicate (Checked.of_under_eq_ok read)

end

end Compiled

theorem Rule.WellFormed.compile {r : Rule} (wellFormed : r.WellFormed) (links : Links)
    (now : Instant) : (r.compile links now).WellFormed where
  numbers := wellFormed.canonical_predicate links
  marks := by
    intro w warned ms place
    obtain absent | ⟨l, marks⟩ := location_of_mem_warnings warned
    · rw [absent] at place
      cases place
    · rw [marks] at place
      obtain rfl := Option.some.inj place
      simp [Location.marks]

namespace Compiled

/-- It is written, and its text is read as the compiled rule that it was. -/
def ReadsBack (lib : Json.Library) (later : Instant) (c : Compiled) : Prop :=
  ∃ s, c.toText lib = .ok s ∧ ofText lib later s = .ok c

section

variable {lib : Json.Library} {b : Json.Bounds} {c c' : Compiled} {later : Instant} {s : String}

theorem ofText_of_within (keeps : lib.Keeps b) (wellFormed : c.WellFormed)
    (written : c.toText lib = .ok s) (within : c.toJson.Within b) :
    ofText lib later s = ofJson later c.toJson.writable := by
  rw [ofText, keeps.reads c.toJson s wellFormed.toJson written within]
  rfl

/-- What is read at all is within the bounds, has finite numbers and is what was written. -/
theorem of_ofText_eq_ok (keeps : lib.Keeps b) (wellFormed : c.WellFormed)
    (written : c.toText lib = .ok s) (readBack : ofText lib later s = .ok c') :
    c.toJson.Within b ∧ c.Finite ∧ c' = c := by
  have within : c.toJson.Within b := by
    by_contra beyond
    obtain ⟨is, refused⟩ := keeps.refuses c.toJson s wellFormed.toJson written beyond
    rw [ofText, refused] at readBack
    cases readBack
  rw [ofText_of_within keeps wellFormed written within] at readBack
  have finite := finite_of_ofJson_toJson later readBack
  rw [ofJson_toJson later finite] at readBack
  exact ⟨within, finite, (Checked.ok.inj readBack).symm⟩

theorem readsBack_of_within (keeps : lib.Keeps b) (wellFormed : c.WellFormed)
    (within : c.toJson.Within b) (finite : c.Finite) : c.ReadsBack lib later := by
  obtain ⟨s, written⟩ := keeps.writes c.toJson wellFormed.toJson within
  refine ⟨s, written, ?_⟩
  rw [ofText_of_within keeps wellFormed written within]
  exact ofJson_toJson later finite

end

/-- With a library that keeps what is within its bounds, exactly the compiled rules that are within
them and have finite numbers are read back from their texts, whenever that is: as they were, with
every number of its kind, the warnings with their places, the fingerprint and the time.  No text of
one is read as another.  What a rule is compiled to has finite numbers and is nested at most nine
deep, whatever the rule.  What is asked of the values of the rule holds of every rule that was read
from a text. -/
theorem readsBack_iff {lib : Json.Library} {b : Json.Bounds} (keeps : lib.Keeps b)
    (later : Instant) :
    (∀ c : Compiled, c.WellFormed →
      (c.ReadsBack lib later ↔ c.Finite ∧ c.toJson.Within b) ∧
      ∀ s c', c.toText lib = .ok s → ofText lib later s = .ok c' → c' = c) ∧
    (∀ (r : Rule) (links : Rule.Links) (now : Instant),
      (r.compile links now).Finite ∧ (r.compile links now).toJson.nesting ≤ 9 ∧
      (r.WellFormed → (r.compile links now).WellFormed)) ∧
    ∀ (s : String) (j : Json) (r : Rule), Json.ofText? s = some j → Rule.ofJson j = .ok r →
      r.WellFormed := by
  refine ⟨fun c wellFormed => ⟨⟨?_, ?_⟩, ?_⟩, fun r links now => ?_, fun s j r read readAs => ?_⟩
  · rintro ⟨s, written, readBack⟩
    obtain ⟨within, finite, _⟩ := of_ofText_eq_ok keeps wellFormed written readBack
    exact ⟨finite, within⟩
  · rintro ⟨finite, within⟩
    exact readsBack_of_within keeps wellFormed within finite
  · intro s c' written readBack
    exact (of_ofText_eq_ok keeps wellFormed written readBack).2.2
  · exact ⟨r.isFinite_predicate links, r.nesting_compile_le links now,
      fun wellFormed => wellFormed.compile links now⟩
  · exact Rule.wellFormed_of_ofJson (Json.wellFormed_of_ofText? read) readAs

/-- A whole number beyond 64 bits beside two as a binary64 number, below each other connective. -/
def layered : Compiled where
  mode := .custom
  predicate := .and [.or [.not (.numeric .cookTime .lte (.int (2 ^ 70))), .and []],
    .numeric .prepTime .eq (.float (.finite false (2 ^ 52) 1023)),
    .tag .some ["hot", "sour"] (some "taste"), .relation .cuisine .eq ["it"], .ids ["r1"]]
  warnings := [⟨.unsupportedCondition, "Exclude condition 1: unsupported",
    some (Rule.Location.ofExclude 0).marks⟩, ⟨.unresolvedReference, "no tag", none⟩]
  sourceHash := none
  compiledAt := "2026-01-01T12:00:00+00:00"

/-- The infinite number. -/
def endless : Compiled :=
  { layered with predicate := .not (.numeric .cookTime .lt (.float (.infinite false))) }

/-- A condition that is dropped, and one with two as a binary64 number. -/
def lateText : String :=
  "\x7b\"mode\":\"custom\",\"exclude\":[\x7b\"field\":\"tag\"\x7d," ++
  "\x7b\"field\":\"cookTime\",\"operator\":\"gte\",\"value\":2.0\x7d]\x7d"

def late : Rule :=
  .custom [] [⟨some "tag", none, .null, none⟩,
    ⟨some "cookTime", some "gte", .float (.finite false (2 ^ 52) 1023), none⟩]

/-- Only numbers can be beyond the bounds of a library that takes all texts. -/
theorem within_standard {c : Compiled} (shallow : c.toJson.nesting ≤ 200)
    (predicate : ∀ x ∈ c.predicate.toJson.scalars, Json.Bounds.standard.Takes x)
    (warnings : ∀ x ∈ Json.scalarsOfItems (c.warnings.map Warning.toJson),
      Json.Bounds.standard.Takes x) : c.toJson.Within .standard := by
  have texts (s : String) : Json.Bounds.standard.Takes (.str s) := fun _ _ => nofun
  have absent : Json.Bounds.standard.Takes .null := trivial
  refine ⟨shallow, ?_⟩
  obtain ⟨mode, p, ws, sourceHash, compiledAt⟩ := c
  cases sourceHash <;>
    simp only [toJson, Json.ofOption, Json.scalars, Json.scalarsOfMembers, List.forall_mem_cons,
      List.forall_mem_append, List.not_mem_nil, false_imp_iff, implies_true, texts, absent,
      true_and, and_true] <;>
    exact ⟨predicate, warnings⟩

theorem readsBack_iff_layered :
    Json.Library.standard.Keeps .standard ∧
    layered.WellFormed ∧ layered.Finite ∧ layered.toJson.Within .standard ∧
    layered.ReadsBack .standard ⟨7⟩ ∧
    endless.WellFormed ∧ ¬ endless.Finite ∧ ¬ endless.ReadsBack .standard ⟨7⟩ ∧
    (Json.ofText? lateText).map Rule.ofJson = some (.ok late) ∧
    (late.warnings .unlinked).length = 1 ∧
    (late.predicate .unlinked).numbers = [.float (.finite false (2 ^ 52) 1023)] ∧
    (late.compile .unlinked ⟨0⟩).ReadsBack .standard ⟨7⟩ := by
  have keeps := Json.Library.keeps_standard
  obtain ⟨written, compiled, wellFormed⟩ := readsBack_iff keeps ⟨7⟩
  have full : layered.WellFormed := ⟨by decide +kernel, by decide +kernel⟩
  have finite : layered.Finite := by decide +kernel
  have within : layered.toJson.Within .standard := by decide +kernel
  have unbounded : endless.WellFormed := ⟨by decide +kernel, by decide +kernel⟩
  have infinite : ¬ endless.Finite := by decide +kernel
  have read : (Json.ofText? lateText).map Rule.ofJson = some (.ok late) := by decide +kernel
  obtain ⟨j, text, readAs⟩ := Option.map_eq_some_iff.mp read
  obtain ⟨lateFinite, _, compiles⟩ := compiled late .unlinked ⟨0⟩
  have lateFull := compiles (wellFormed lateText j late text readAs)
  have lateWithin : (late.compile .unlinked ⟨0⟩).toJson.Within .standard :=
    within_standard ((late.nesting_compile_le _ _).trans (by decide)) (by decide +kernel)
      (by decide +kernel)
  exact ⟨keeps, full, finite, within, (written layered full).1.mpr ⟨finite, within⟩, unbounded,
    infinite, fun readBack => infinite ((written endless unbounded).1.mp readBack).1, read,
    by decide +kernel, by decide +kernel,
    (written _ lateFull).1.mpr ⟨lateFinite, lateWithin⟩⟩

/-- A negation below so many others. -/
def negations : Nat → Predicate
  | 0 => .all
  | n + 1 => .not (negations n)

def deep : Compiled := { layered with predicate := negations 199 }

/-- A whole number of 4301 digits. -/
def long : Compiled := { layered with predicate := .numeric .cookTime .lt (.int (10 ^ 4300)) }

/-- Neither a tree of any shape nor a whole number of any size is read back. -/
theorem deep_and_long_refused :
    deep.WellFormed ∧ deep.Finite ∧ (∃ s is, deep.toText .standard = .ok s ∧
      ofText .standard ⟨7⟩ s = .bad is) ∧
    long.WellFormed ∧ long.Finite ∧ (∃ s is, long.toText .standard = .ok s ∧
      ofText .standard ⟨7⟩ s = .bad is) := by
  have refused (c : Compiled) (wellFormed : c.WellFormed) (written : c.toJson.nesting ≤ 255)
      (beyond : ¬ c.toJson.Within .standard) : ∃ s is, c.toText .standard = .ok s ∧
        ofText .standard ⟨7⟩ s = .bad is := by
    have text : c.toText .standard = .ok (c.toJson.text Json.compact) := if_pos written
    obtain ⟨is, refused⟩ :=
      Json.Library.keeps_standard.refuses c.toJson _ wellFormed.toJson text beyond
    refine ⟨_, is, text, ?_⟩
    rw [ofText, refused]
    rfl
  have deepFull : deep.WellFormed := ⟨by decide +kernel, by decide +kernel⟩
  have longFull : long.WellFormed := ⟨by decide +kernel, by decide +kernel⟩
  refine ⟨deepFull, by decide +kernel, refused deep deepFull (by decide +kernel) ?_, longFull,
    by decide +kernel, refused long longFull (by decide +kernel) ?_⟩
  · exact fun within => absurd within.1 (by decide +kernel)
  · decide +kernel

end Compiled

end Cookbook
