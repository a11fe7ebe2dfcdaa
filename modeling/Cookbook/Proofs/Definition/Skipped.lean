import Cookbook.Proofs.Definition.Registered
import Cookbook.Proofs.Listing.Exact

/-!
# Files that are left out

Reading a folder gives what its files give, one after another by name, and leaves out the files that
fail.  One fault of a file is not left out, an item that is no mapping or has keys that are no
texts: the file breaks off there and stops the folder.  The library stops it too, if it fails on a
file in a way of its own.
-/

namespace Cookbook

open Attempt

theorem Attempt.flatten_toOption {α : Type} (as : List (Attempt (List α))) :
    (as.map fun a => a.toOption.getD []).flatten = (as.filterMap Except.toOption).flatten := by
  induction as with
  | nil => rfl
  | cons a as ih =>
    rw [List.map_cons, List.flatten_cons, ih]
    cases a <;> rfl

theorem Attempt.eq_error_of_map {α β : Type} {a : Attempt α} {f : α → β} {e : Failure}
    (failed : a.map f = .error e) : a = .error e := by
  cases a with
  | ok x => cases failed
  | error e' => exact congrArg Except.error (Except.error.inj failed)

namespace Sheet

variable {n : Yaml.Node} {e : Failure}

/-- The faults of a node that is a mapping are left out when a folder is read. -/
theorem ofNode_eq_error_cases (faulty : ofNode n = .error e) :
    n.arguments? = none ∧ e = .noMapping ∨ (∃ ms, n.arguments? = some ms) ∧ Loading.Skips e := by
  rcases bind_eq_error_iff.mp faulty with unshaped | ⟨s, shaped, refused⟩
  · cases named : n.arguments? with
    | none =>
      rw [named] at unshaped
      exact .inl ⟨rfl, (Except.error.inj unshaped).symm⟩
    | some ms =>
      rw [named, shaped] at unshaped
      refine .inr ⟨⟨ms, rfl⟩, ?_⟩
      unfold Definition.required at unshaped
      split at unshaped
      · cases unshaped
      · obtain rfl := Except.error.inj unshaped
        trivial
  · obtain ⟨ms, named⟩ : ∃ ms, n.arguments? = some ms := by
      cases named : n.arguments? with
      | none =>
        rw [named] at shaped
        cases shaped
      | some ms => exact ⟨ms, rfl⟩
    refine .inr ⟨⟨ms, named⟩, ?_⟩
    unfold checked at refused
    split at refused
    · cases refused
    · obtain rfl := Except.error.inj refused
      trivial

theorem ofNode_eq_noMapping_iff : ofNode n = .error .noMapping ↔ n.arguments? = none := by
  constructor
  · intro faulty
    rcases ofNode_eq_error_cases faulty with ⟨unnamed, _⟩ | ⟨_, skipped⟩
    · exact unnamed
    · exact skipped.elim
  · intro unnamed
    rw [ofNode, unnamed]
    rfl

end Sheet

namespace Folder

variable (yaml : Yaml.Library) (f : Folder) (name : String) {e : Failure}

/-- The file stops a folder: it fails with a failure that is not left out. -/
def Stops (e : Failure) : Prop := f.answerAt yaml name = .error e ∧ ¬ Loading.Skips e

variable {yaml f name}

/-- A file stops a folder if it cannot be read and that is not left out, or if it breaks off at an
item that is no mapping with texts for keys. -/
theorem stops_iff : f.Stops yaml name e ↔
    f.root yaml name = .error e ∧ ¬ Loading.Skips e ∨
    e = .noMapping ∧ ∃ root before item after ss, f.root yaml name = .ok root ∧
      root.contents = before ++ item :: after ∧ before.mapM Sheet.ofNode = .ok ss ∧
      item.arguments? = none := by
  constructor
  · rintro ⟨failed, stays⟩
    have breaks := breaksOff_of_answerAt_eq_error failed
    generalize f.registeredAt yaml name = ss at breaks
    cases breaks with
    | unread unread => exact .inl ⟨unread, stays⟩
    | item read parts good faulty =>
      rcases Sheet.ofNode_eq_error_cases faulty with ⟨unnamed, stops⟩ | ⟨_, skipped⟩
      · exact .inr ⟨stops, _, _, _, _, ss, read, parts, good, unnamed⟩
      · exact absurd skipped stays
  · rintro (⟨unread, stays⟩ | ⟨rfl, _, _, _, _, ss, read, parts, good, unnamed⟩)
    · exact ⟨(BreaksOff.unread unread).answerAt_eq_error, stays⟩
    · have faulty := Sheet.ofNode_eq_noMapping_iff.mpr unnamed
      exact ⟨(BreaksOff.item read parts good faulty).answerAt_eq_error, id⟩

/-- A file with a faulty item gives nothing. -/
theorem exists_answerAt_eq_error {root item : Yaml.Node} (read : f.root yaml name = .ok root)
    (part : item ∈ root.contents) (faulty : Sheet.ofNode item = .error e) :
    ∃ e', f.answerAt yaml name = .error e' := by
  cases answered : f.answerAt yaml name with
  | error e' => exact ⟨e', rfl⟩
  | ok ss =>
    obtain ⟨n, same, mapped⟩ := bind_eq_ok_iff.mp answered
    obtain rfl := Except.ok.inj (read.symm.trans same)
    obtain ⟨s, _, good⟩ := exists_of_mem mapped part
    cases faulty.symm.trans good

theorem answerOrNone_of_not_stops (passable : ∀ e, ¬ f.Stops yaml name e) :
    f.answerOrNone yaml name = .ok ((f.answerAt yaml name).toOption.getD []) := by
  unfold answerOrNone
  cases answered : f.answerAt yaml name with
  | ok ss => rfl
  | error e =>
    have skipped : Loading.Skips e := by
      by_contra stays
      exact passable e ⟨answered, stays⟩
    exact if_pos skipped

theorem answerOrNone_of_stops (stops : f.Stops yaml name e) :
    f.answerOrNone yaml name = .error e := by
  rw [answerOrNone, stops.1]
  exact if_neg stops.2

theorem mapM_answerOrNone {names : List String}
    (passable : ∀ n ∈ names, ∀ e, ¬ f.Stops yaml n e) :
    names.mapM (f.answerOrNone yaml) =
      .ok (names.map fun n => (f.answerAt yaml n).toOption.getD []) := by
  induction names with
  | nil => rfl
  | cons name names ih =>
    obtain ⟨first, rest⟩ := List.forall_mem_cons.mp passable
    rw [List.mapM_cons, answerOrNone_of_not_stops first, ih rest]
    rfl

/-- Where nothing stops it, a folder gives what those of its files give that can be read. -/
theorem answer_of_not_stops (passable : ∀ n ∈ f.names, ∀ e, ¬ f.Stops yaml n e) :
    f.answer yaml = .ok (f.names.filterMap fun n => (f.answerAt yaml n).toOption).flatten := by
  rw [answer, mapM_answerOrNone passable, ← Function.comp_def, ← List.filterMap_map,
    ← flatten_toOption, List.map_map]
  rfl

/-- The first file that stops a folder decides how it fails. -/
theorem answer_of_stops {before after : List String} (parts : f.names = before ++ name :: after)
    (passable : ∀ n ∈ before, ∀ e, ¬ f.Stops yaml n e) (stops : f.Stops yaml name e) :
    f.answer yaml = .error e := by
  rw [answer, parts, List.mapM_append, mapM_answerOrNone passable, List.mapM_cons,
    answerOrNone_of_stops stops]
  rfl

theorem mem_names : name ∈ f.names ↔
    name.endsWith ending = true ∧ ∃ n ∈ f.files.map Prod.fst, entry n = name := by
  simp only [names, List.mem_mergeSort, mem_distinct, List.mem_filter, List.mem_map]
  constructor
  · rintro ⟨⟨file, member, rfl⟩, ends⟩
    exact ⟨ends, file.1, ⟨file, member, rfl⟩, rfl⟩
  · rintro ⟨ends, _, ⟨file, member, rfl⟩, rfl⟩
    exact ⟨⟨file, member, rfl⟩, ends⟩

theorem pairwise_names (f : Folder) : f.names.Pairwise (· ≤ ·) := pairwise_mergeSort_key id _

theorem nodup_names (f : Folder) : f.names.Nodup :=
  (List.mergeSort_perm _ _).nodup_iff.mpr (nodup_distinct _)

end Folder

/-- Reading a folder, with any library, gives in the order of the names of its files the definitions
of exactly those that can be read, unless some file fails with a failure that is not left out: then
the first such file decides how the folder fails.  Such a failure is the library's own, or the file
breaks off at an item that is no mapping with texts for keys.  What a file gives does not depend on
what was read before, and with one faulty item it gives nothing. -/
theorem Loading.ofFolder_skips (yaml : Yaml.Library) (f : Folder) (reg : Registry) :
    (∀ n reg', ((ofFile yaml f n).run reg').1 = f.answerAt yaml n) ∧
    (f.names.Pairwise (· ≤ ·) ∧ f.names.Nodup ∧ ∀ n, n ∈ f.names ↔
      n.endsWith Folder.ending = true ∧ ∃ m ∈ f.files.map Prod.fst, Folder.entry m = n) ∧
    ((∀ n ∈ f.names, ∀ e, ¬ f.Stops yaml n e) → ((ofFolder yaml f).run reg).1 =
      .ok (f.names.filterMap fun n => (f.answerAt yaml n).toOption).flatten) ∧
    (∀ before n after e, f.names = before ++ n :: after →
      (∀ m ∈ before, ∀ e, ¬ f.Stops yaml m e) → f.Stops yaml n e →
      ((ofFolder yaml f).run reg).1 = .error e) ∧
    (∀ n e, f.Stops yaml n e ↔ f.root yaml n = .error e ∧ ¬ Skips e ∨
      e = .noMapping ∧ ∃ root before item after ss, f.root yaml n = .ok root ∧
        root.contents = before ++ item :: after ∧ before.mapM Sheet.ofNode = .ok ss ∧
        item.arguments? = none) ∧
    ∀ n root item e, f.root yaml n = .ok root → item ∈ root.contents →
      Sheet.ofNode item = .error e → ∃ e', f.answerAt yaml n = .error e' := by
  have answered : ((ofFolder yaml f).run reg).1 = f.answer yaml := by
    rw [Folder.does_ofFolder yaml f reg]
  refine ⟨fun n reg' => by rw [Folder.does_ofFile yaml f n reg'],
    ⟨f.pairwise_names, f.nodup_names, fun n => Folder.mem_names⟩, fun passable => ?_,
    fun before n after e parts passable stops => ?_, fun n e => Folder.stops_iff,
    fun n root item e => Folder.exists_answerAt_eq_error⟩
  · rw [answered, Folder.answer_of_not_stops passable]
  · rw [answered, Folder.answer_of_stops parts passable stops]

namespace Folder

theorem names_eq_mergeSort {f : Folder} {ns : List String}
    (kept : distinct ((f.files.map fun e => entry e.1).filter (·.endsWith ending)) = ns) :
    f.names = ns.mergeSort fun a b => decide (a ≤ b) := by
  rw [← kept]
  rfl

/-- A file that is no YAML, one with a definition, and one of another kind. -/
def larder : Folder :=
  ⟨[("jam.yaml", .text "slug: jam\nname: Plum Jam\n"), ("brine.yaml", .text "slug: [unclosed\n"),
    ("notes.txt", .text "to do")]⟩

theorem names_larder : larder.names = ["brine.yaml", "jam.yaml"] := by
  have kept : distinct ((larder.files.map fun e => entry e.1).filter (·.endsWith ending)) =
      ["jam.yaml", "brine.yaml"] := by
    decide +kernel
  rw [names_eq_mergeSort kept]
  simp [List.mergeSort, List.MergeSort.Internal.splitInTwo]

theorem ofFolder_skips_larder :
    larder.answerAt .simple "brine.yaml" = .error .noYaml ∧
    (∀ n ∈ larder.names, ∀ e, ¬ larder.Stops .simple n e) ∧
    ((Loading.ofFolder .simple larder).run .empty).1 =
      .ok (larder.names.filterMap fun n => (larder.answerAt .simple n).toOption).flatten ∧
    ((larder.names.filterMap fun n => (larder.answerAt .simple n).toOption).flatten.map
      Definition.slug) = ["jam"] := by
  have unread : larder.answerAt .simple "brine.yaml" = .error .noYaml :=
    eq_error_of_map (f := List.length) (by decide +kernel)
  have read : (larder.answerAt .simple "jam.yaml").isOk := by decide +kernel
  have passable : ∀ n ∈ larder.names, ∀ e, ¬ larder.Stops .simple n e := by
    rw [names_larder]
    refine List.forall_mem_cons.mpr ⟨?_, List.forall_mem_singleton.mpr ?_⟩
    · rintro e ⟨failed, stays⟩
      obtain rfl := Except.error.inj (unread.symm.trans failed)
      exact stays trivial
    · rintro e ⟨failed, _⟩
      rw [failed] at read
      cases read
  obtain ⟨_, _, gives, _⟩ := Loading.ofFolder_skips .simple larder .empty
  refine ⟨unread, passable, gives passable, ?_⟩
  rw [names_larder]
  decide +kernel

/-- A text that is no mapping, and a definition. -/
def scraps : Folder :=
  ⟨[("a.yaml", .text "just text\n"), ("jam.yaml", .text "slug: jam\nname: Plum Jam\n")]⟩

theorem names_scraps : scraps.names = ["a.yaml", "jam.yaml"] := by
  have kept : distinct ((scraps.files.map fun e => entry e.1).filter (·.endsWith ending)) =
      ["a.yaml", "jam.yaml"] := by
    decide +kernel
  rw [names_eq_mergeSort kept]
  simp [List.mergeSort, List.MergeSort.Internal.splitInTwo]

/-- A file that is a mere text stops the folder, and a file that can be read is lost with it. -/
theorem text_stops_folder :
    scraps.Stops .simple "a.yaml" .noMapping ∧
    ((Loading.ofFile .simple scraps "jam.yaml").run .empty).1.map (List.map Definition.slug) =
      .ok ["jam"] ∧
    ((Loading.ofFolder .simple scraps).run .empty).1 = .error .noMapping := by
  have stops : scraps.Stops .simple "a.yaml" .noMapping :=
    ⟨eq_error_of_map (f := List.length) (by decide +kernel), id⟩
  refine ⟨stops, by decide +kernel, ?_⟩
  rw [does_ofFolder .simple scraps]
  have parts : scraps.names = [] ++ "a.yaml" :: ["jam.yaml"] := names_scraps
  exact answer_of_stops parts nofun stops

end Folder

end Cookbook
