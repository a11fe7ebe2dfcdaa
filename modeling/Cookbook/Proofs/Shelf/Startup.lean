import Cookbook.Proofs.Definition.Written
import Cookbook.Proofs.Shelf.Synced

/-!
# Putting in place what was loaded

The definitions of a file or of a folder have rules that collections can have.  What they need not
have is a name and a slug, and a collection needs both; and the rule of a file can hold bytes that
are no text, which are not written in JSON.  They are put in place up to the first one that lacks
any of this, and there the sync fails.
-/

namespace Cookbook

/-- It has the name and the slug that a collection needs. -/
def Definition.Titled {R : Type} (d : Definition R) : Prop := d.name ≠ "" ∧ d.slug ≠ ""

instance {R : Type} : DecidablePred (Definition.Titled (R := R)) :=
  fun d => inferInstanceAs (Decidable (d.name ≠ "" ∧ d.slug ≠ ""))

namespace Sheet

/-- It can be put in place: it has a name and a slug, and its rule can be written. -/
def Ready (s : Sheet) : Prop := s.Titled ∧ ∃ d, s.written = .ok d

/-- The sheets are read of a file or of a folder, whatever was read before. -/
inductive Loaded (yaml : Yaml.Library) : List Sheet → Prop where
  | file {f : Folder} {name : String} {reg : Registry} {ss : List Sheet}
      (read : ((Loading.ofFile yaml f name).run reg).1 = .ok ss) : Loaded yaml ss
  | folder {f : Folder} {reg : Registry} {ss : List Sheet}
      (read : ((Loading.ofFolder yaml f).run reg).1 = .ok ss) : Loaded yaml ss

variable {yaml : Yaml.Library} {ss : List Sheet} {s : Sheet} {d : Definition}

theorem Loaded.sound (loaded : Loaded yaml ss) : ∀ s ∈ ss, s.problems = [] := by
  have read (n : Yaml.Node) (s : Sheet) (given : ofNode n = .ok s) : s.problems = [] :=
    (of_ofNode_eq_ok given).2
  cases loaded with
  | file given => exact Loading.yields_ofFile read _ _ _ ss given
  | folder given => exact Loading.yields_ofFolder read _ _ ss given

theorem mem_definitions (member : d ∈ definitions ss) : ∃ s ∈ ss, s.written = .ok d := by
  induction ss with
  | nil => cases member
  | cons s ss ih =>
    rw [definitions] at member
    split at member
    next e written =>
      rcases List.mem_cons.mp member with rfl | later
      · exact ⟨s, List.mem_cons_self, written⟩
      · obtain ⟨t, among, found⟩ := ih later
        exact ⟨t, List.mem_cons_of_mem _ among, found⟩
    next => cases member

theorem map_slug_definitions (ready : ∀ s ∈ ss, s.Ready) :
    (definitions ss).map Definition.slug = ss.map Definition.slug := by
  induction ss with
  | nil => rfl
  | cons s ss ih =>
    obtain ⟨⟨_, d, written⟩, rest⟩ := List.forall_mem_cons.mp ready
    obtain ⟨r, _, same⟩ := of_written_eq_ok written
    rw [definitions, written, List.map_cons, List.map_cons, ← ih rest, same]

/-- Sheets without problems come to definitions that fit. -/
theorem fit_of_mem_definitions (sound : ∀ s ∈ ss, s.problems = []) (ready : ∀ s ∈ ss, s.Ready)
    (columns : ∀ s ∈ ss, ∀ n ∈ [s.minRequired, s.targetCount, s.sortOrder],
      (Number.int n).FitsWord) : ∀ d ∈ definitions ss, d.Fit := by
  intro d member
  obtain ⟨s, among, written⟩ := mem_definitions member
  have accepted := accepted_of_written (sound s among) written
  obtain ⟨r, _, rfl⟩ := of_written_eq_ok written
  exact ⟨(ready s among).1.1, (ready s among).1.2, accepted, columns s among⟩

/-- Either all of them have a property or there is a first one without it. -/
theorem forall_or_exists_first (P : Sheet → Prop) (ss : List Sheet) :
    (∀ s ∈ ss, P s) ∨
      ∃ before s after, ss = before ++ s :: after ∧ (∀ e ∈ before, P e) ∧ ¬ P s := by
  induction ss with
  | nil => exact .inl nofun
  | cons s ss ih =>
    by_cases first : P s
    · rcases ih with all | ⟨before, t, after, rfl, good, lacks⟩
      · exact .inl (List.forall_mem_cons.mpr ⟨first, all⟩)
      · exact .inr ⟨s :: before, t, after, rfl, List.forall_mem_cons.mpr ⟨first, good⟩, lacks⟩
    · exact .inr ⟨[], s, ss, rfl, nofun, first⟩

end Sheet

namespace Action

variable {env : Surroundings} {s : Shelf} {ss before after : List Sheet} {sheet : Sheet}

theorem run_define_of_not_titled {d : Definition} (lacks : ¬ d.Titled) (a : SyncAnswer) :
    (define a d).run env s = (.error (.request d.emptyIssues), s) := by
  have wrong : d.emptyIssues ≠ [] := fun none => lacks (Definition.emptyIssues_eq_nil_iff.mp none)
  rw [define, run_bind, run_get]
  dsimp only
  split
  next none => exact absurd none wrong
  next => rfl

theorem run_place_of_not_ready (lacks : ¬ sheet.Ready) (a : SyncAnswer) :
    (place a sheet).run env s = (.error sheet.refusal, s) := by
  cases written : sheet.written with
  | error e => exact run_place_of_unwritten written a
  | ok d =>
    have untitled : ¬ sheet.Titled := fun titled => lacks ⟨titled, d, written⟩
    rw [run_place written]
    obtain ⟨r, _, rfl⟩ := Sheet.of_written_eq_ok written
    rw [run_define_of_not_titled untitled, Sheet.refusal]
    have wrong : sheet.emptyIssues ≠ [] := fun none =>
      untitled (by simpa [Definition.emptyIssues, Definition.Titled] using none)
    split
    next none => exact absurd none wrong
    next => rfl

/-- Sheets that can be put in place are put in place as their definitions are. -/
theorem run_foldlM_place (ready : ∀ sheet ∈ ss, sheet.Ready) (a : SyncAnswer) (s : Shelf) :
    (ss.foldlM place a).run env s = ((Sheet.definitions ss).foldlM define a).run env s := by
  induction ss generalizing a s with
  | nil => rfl
  | cons sheet ss ih =>
    obtain ⟨⟨_, d, written⟩, rest⟩ := List.forall_mem_cons.mp ready
    rw [Sheet.definitions, written]
    dsimp only
    rw [List.foldlM_cons, List.foldlM_cons, run_bind, run_bind, run_place written]
    split
    next b t _ => exact ih rest b t
    next => rfl

/-- What comes after a sheet that cannot be put in place is not looked at. -/
theorem run_syncSheets_of_not_ready {a : SyncAnswer} {t : Shelf}
    (ran : (syncSheets before).run env s = (.ok a, t)) (lacks : ¬ sheet.Ready)
    (after : List Sheet) :
    (syncSheets (before ++ sheet :: after)).run env s = (.error sheet.refusal, t) := by
  have parts : syncSheets (before ++ sheet :: after) =
      syncSheets before >>= fun a => place a sheet >>= fun a => after.foldlM place a := by
    simp [syncSheets, List.foldlM_append]
  rw [parts, run_bind, ran]
  dsimp only
  rw [run_bind, run_place_of_not_ready lacks]

/-- To start up is to put in place what the folder holds. -/
theorem run_startUp (wanted : env.settings.syncOnStartup = true) {yaml : Yaml.Library} {f : Folder}
    (read : ((Loading.ofFolder yaml f).run .empty).1 = .ok ss) :
    (startUp (.folder yaml f)).run env s = (((syncSheets ss).run env s).1.map fun _ => (),
      ((syncSheets ss).run env s).2) := by
  rw [startUp, run_bind, run_settings]
  dsimp only
  rw [wanted, if_pos rfl, run_bind, syncSource, run_bind, run_attempt, read]
  dsimp only
  rcases (syncSheets ss).run env s with ⟨_ | _, t⟩ <;> rfl

end Action

/-- In service, with rows that are told apart, what any library loaded and fits the columns can be
put in place exactly if all of it has a name, a slug and a rule that can be written, and then all of
it is.  The first definition without ends the sync with what it lacks, and the ones before it stay
in place.  A startup that puts the definitions of a folder in place ends as their sync does. -/
theorem Shelf.sync_of_loaded {env : Surroundings} {s : Shelf} {yaml : Yaml.Library}
    {ss : List Sheet} (service : env.outage = none) (apart : s.ToldApart)
    (loaded : Sheet.Loaded yaml ss)
    (columns : ∀ d ∈ ss, ∀ n ∈ [d.minRequired, d.targetCount, d.sortOrder],
      (Number.int n).FitsWord) :
    ((∃ a t, (Action.syncSheets ss).run env s = (.ok a, t)) ↔ ∀ d ∈ ss, d.Ready) ∧
    (∀ a t, (Action.syncSheets ss).run env s = (.ok a, t) →
      Definition.SettleAll (Sheet.definitions ss) s t ∧ a.Reports s (ss.map Definition.slug)) ∧
    (∀ before d after, ss = before ++ d :: after → (∀ e ∈ before, e.Ready) → ¬ d.Ready →
      ∃ t, (Action.syncSheets ss).run env s = (.error d.refusal, t) ∧
        Definition.SettleAll (Sheet.definitions before) s t) ∧
    (∀ f, ((Loading.ofFolder yaml f).run .empty).1 = .ok ss → env.settings.syncOnStartup = true →
      (Action.startUp (.folder yaml f)).run env s =
        (((Action.syncSheets ss).run env s).1.map fun _ => (),
          ((Action.syncSheets ss).run env s).2)) := by
  have finishes (part : List Sheet) (among : ∀ d ∈ part, d ∈ ss) (ready : ∀ d ∈ part, d.Ready) :
      ∃ a t, (Action.syncSheets part).run env s = (.ok a, t) ∧
        Definition.SettleAll (Sheet.definitions part) s t ∧
        a.Reports s (part.map Definition.slug) := by
    have fit := Sheet.fit_of_mem_definitions (fun d member => loaded.sound d (among d member)) ready
      fun d member => columns d (among d member)
    obtain ⟨a, t, ran, settled, reports⟩ := Action.exists_syncDefinitions service apart fit
    refine ⟨a, t, (Action.run_foldlM_place ready .nothing s).trans ran, settled, ?_⟩
    exact Sheet.map_slug_definitions ready ▸ reports
  have stops : ∀ before d after, ss = before ++ d :: after → (∀ e ∈ before, e.Ready) →
      ¬ d.Ready → ∃ t, (Action.syncSheets ss).run env s = (.error d.refusal, t) ∧
        Definition.SettleAll (Sheet.definitions before) s t := by
    rintro before d after rfl ready lacks
    obtain ⟨a, t, ran, settled, _⟩ :=
      finishes before (fun e member => List.mem_append_left _ member) ready
    exact ⟨t, Action.run_syncSheets_of_not_ready ran lacks after, settled⟩
  have ready {a : SyncAnswer} {t : Shelf} (ran : (Action.syncSheets ss).run env s = (.ok a, t)) :
      ∀ d ∈ ss, d.Ready := by
    refine (Sheet.forall_or_exists_first Sheet.Ready ss).resolve_right ?_
    rintro ⟨before, d, after, parts, first, lacks⟩
    obtain ⟨u, failed, _⟩ := stops before d after parts first lacks
    cases ran.symm.trans failed
  refine ⟨⟨?_, ?_⟩, ?_, stops, fun f read wanted => Action.run_startUp wanted read⟩
  · rintro ⟨a, t, ran⟩
    exact ready ran
  · intro all
    obtain ⟨a, t, ran, _⟩ := finishes ss (fun _ => id) all
    exact ⟨a, t, ran⟩
  · intro a t ran
    obtain ⟨b, u, ran', settled, reports⟩ := finishes ss (fun _ => id) (ready ran)
    cases ran.symm.trans ran'
    exact ⟨settled, reports⟩

def Sheet.sketch (slug name : String) : Sheet :=
  ⟨slug, name, Collection.themeType, Status.draft, none, none, noRule, .unlinked, [], [], 10, 20, 0⟩

namespace Shelf

/-- One file with a definition that has a name and one whose name is empty. -/
def cards : Folder :=
  ⟨[("cards.yaml", .text "- slug: good\n  name: Good\n- slug: x\n  name: ''\n")]⟩

def carded : List Sheet := [.sketch "good" "Good", .sketch "x" ""]

def starting : Surroundings :=
  { Surroundings.standard 1 with settings := { Settings.standard with syncOnStartup := true } }

theorem read_cards : ((Loading.ofFolder .simple cards).run .empty).1 = .ok carded := by
  decide +kernel

theorem fitsWord_carded : ∀ d ∈ carded, ∀ n ∈ [d.minRequired, d.targetCount, d.sortOrder],
    (Number.int n).FitsWord := by decide +kernel

theorem sync_of_loaded_cards :
    starting.outage = none ∧ trattorie.ToldApart ∧ Sheet.Loaded .simple carded ∧
    ∃ t, (Action.syncSheets carded).run starting trattorie =
        (.error (.request [⟨[.name "name"], .emptyText⟩]), t) ∧
      Definition.SettleAll (Sheet.definitions [.sketch "good" "Good"]) trattorie t ∧
      (Action.startUp (.folder .simple cards)).run starting trattorie =
        (.error (.request [⟨[.name "name"], .emptyText⟩]), t) := by
  have service : starting.outage = none := rfl
  have loaded : Sheet.Loaded .simple carded := .folder read_cards
  obtain ⟨_, _, stops, starts⟩ := sync_of_loaded service toldApart_trattorie loaded fitsWord_carded
  have good : (Sheet.sketch "good" "Good").Ready := ⟨by decide, _, rfl⟩
  obtain ⟨t, failed, settled⟩ := stops [.sketch "good" "Good"] (.sketch "x" "") [] rfl
    (List.forall_mem_singleton.mpr good) fun ready => absurd ready.1 (by decide)
  refine ⟨service, toldApart_trattorie, loaded, t, failed, settled, ?_⟩
  rw [starts cards read_cards rfl, failed]
  rfl

/-- A definition that was loaded stops the sync and the startup, with the one before it in place. -/
theorem loaded_stops_sync :
    ((Loading.ofFolder .simple cards).run .empty).1 = .ok carded ∧
    (∀ d ∈ carded, ∀ n ∈ [d.minRequired, d.targetCount, d.sortOrder], (Number.int n).FitsWord) ∧
    trattorie.ToldApart ∧ starting.outage = none ∧
    ((Action.syncSheets carded).run starting trattorie).1 =
      .error (.request [⟨[.name "name"], .emptyText⟩]) ∧
    ((Action.startUp (.folder .simple cards)).run starting trattorie).1 =
      .error (.request [⟨[.name "name"], .emptyText⟩]) ∧
    ((Action.startUp (.folder .simple cards)).run starting trattorie).2.collections.map
      Collection.slug = ["trattoria", "good"] :=
  ⟨read_cards, fitsWord_carded, toldApart_trattorie, rfl, by decide +kernel, by decide +kernel,
    by decide +kernel⟩

end Shelf

end Cookbook
