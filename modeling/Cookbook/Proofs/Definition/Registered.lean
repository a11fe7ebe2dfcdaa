import Cookbook.Proofs.Definition.Loaded
import Cookbook.Proofs.Shelf.Synced

/-!
# What the registry holds

A load answers the same whatever was registered before.  It registers the definitions of a file one
by one, up to the first faulty one, so the registry can hold more than the loads gave.  After any
loads, the definition of a slug is the last one of that slug that they registered.
-/

namespace Cookbook

namespace Attempt

variable {α β γ : Type} {f : α → Attempt β} {xs : List α}

/-- What the items of a list come to, up to the first that fails and with what that one leaves. -/
def upToFailure (f : α → Attempt β) (part : α → List γ) : List α → List γ
  | [] => []
  | x :: xs => part x ++ match f x with
    | .ok _ => upToFailure f part xs
    | .error _ => []

theorem exists_of_isOk {a : Attempt α} (ok : a.isOk) : ∃ x, a = .ok x := by
  cases a with
  | ok x => exact ⟨x, rfl⟩
  | error e => cases ok

theorem upToFailure_eq_flatMap {ys : List β} (part : α → List γ) (mapped : xs.mapM f = .ok ys) :
    upToFailure f part xs = xs.flatMap part := by
  rw [mapM_eq_ok_iff] at mapped
  induction mapped with
  | nil => rfl
  | cons first _ ih => rw [upToFailure, first, List.flatMap_cons, ih]

theorem flatMap_toOption {ys : List β} (mapped : xs.mapM f = .ok ys) :
    (xs.flatMap fun x => (f x).toOption.toList) = ys := by
  rw [mapM_eq_ok_iff] at mapped
  induction mapped with
  | nil => rfl
  | cons first _ ih =>
    rw [List.flatMap_cons, first, ih]
    rfl

/-- A list that fails has a first item that does. -/
theorem of_mapM_eq_error {e : Failure} (failed : xs.mapM f = .error e) :
    ∃ before x after ys, xs = before ++ x :: after ∧ before.mapM f = .ok ys ∧ f x = .error e ∧
      ∀ {γ : Type} (part : α → List γ),
        upToFailure f part xs = before.flatMap part ++ part x := by
  induction xs with
  | nil => cases failed
  | cons x xs ih =>
    rw [List.mapM_cons] at failed
    rcases bind_eq_error_iff.mp failed with first | ⟨y, first, failed⟩
    · refine ⟨[], x, xs, [], rfl, rfl, first, fun part => ?_⟩
      rw [upToFailure, first, List.append_nil]
      rfl
    · rcases bind_eq_error_iff.mp failed with rest | ⟨ys, _, answer⟩
      · obtain ⟨before, z, after, ys, rfl, mapped, faulty, gathered⟩ := ih rest
        refine ⟨x :: before, z, after, y :: ys, rfl, ?_, faulty, fun part => ?_⟩
        · rw [List.mapM_cons]
          exact bind_eq_ok_iff.mpr ⟨y, first, bind_eq_ok_iff.mpr ⟨ys, mapped, rfl⟩⟩
        · rw [upToFailure, first, List.flatMap_cons, List.append_assoc, ← gathered part]
      · cases answer

end Attempt

open Attempt

namespace Registry

/-- A definition that takes the place of its slug is found under its slug alone. -/
theorem find?_replaced (ds : List Sheet) (d : Sheet) (slug : String) :
    (ds.map fun e => if e.slug = d.slug then d else e).find? (·.slug == slug) =
      if d.slug = slug ∧ slug ∈ ds.map Definition.slug then some d
      else ds.find? (·.slug == slug) := by
  induction ds with
  | nil => simp
  | cons e ds ih =>
    rw [List.map_cons, List.find?_cons, List.find?_cons, ih]
    by_cases sought : e.slug = slug
    · by_cases same : d.slug = slug <;> simp [sought, same, Ne.symm]
    · have passed : (e.slug == slug) = false := beq_eq_false_iff_ne.mpr sought
      by_cases here : e.slug = d.slug
      · have other : d.slug ≠ slug := here ▸ sought
        simp [here, other, beq_eq_false_iff_ne.mpr other]
      · simp [here, passed, Ne.symm sought]

theorem get?_put (reg : Registry) (d : Sheet) (slug : String) :
    (reg.put d).get? slug = if d.slug = slug then some d else reg.get? slug := by
  obtain ⟨ds⟩ := reg
  unfold put get? slugs
  split
  next old =>
    have listed : d.slug ∈ ds.map Definition.slug := List.contains_iff_mem.mp old
    dsimp only
    rw [find?_replaced]
    by_cases same : d.slug = slug
    · rw [if_pos ⟨same, same ▸ listed⟩, if_pos same]
    · simp [same]
  next new =>
    have absent (same : d.slug = slug) : ds.find? (·.slug == slug) = none := by
      refine List.find?_eq_none.mpr fun e member found => new (List.contains_iff_mem.mpr ?_)
      rw [same, ← beq_iff_eq.mp found]
      exact List.mem_map_of_mem member
    dsimp only
    rw [List.find?_append]
    by_cases same : d.slug = slug
    · simp [same, absent same]
    · simp [same]

/-- Of the definitions that are registered one after another, the last one of a slug is found. -/
theorem get?_foldl_put (reg : Registry) (ds : List Sheet) (slug : String) :
    (ds.foldl put reg).get? slug = (Definition.last? ds slug).or (reg.get? slug) := by
  induction ds using List.reverseRecOn with
  | nil => rfl
  | append_singleton ds d ih =>
    rw [List.foldl_append, List.foldl_cons, List.foldl_nil, get?_put, ih,
      Definition.last?_append_singleton]
    split <;> rfl

end Registry

namespace Loading

variable {α β : Type}

/-- It answers and registers the same whatever was registered before. -/
def Does (l : Loading α) (a : Attempt α) (ds : List Sheet) : Prop :=
  ∀ reg, l.run reg = (a, ds.foldl Registry.put reg)

namespace Does

theorem pure (a : α) : Does (Pure.pure a) (.ok a) [] := fun _ => rfl

theorem throw (e : Failure) : Does (throw e : Loading α) (.error e) [] := fun _ => rfl

variable {l : Loading α} {a : Attempt α} {ds : List Sheet}

theorem bind {f : α → Loading β} {g : α → Attempt β} {es : List Sheet} (first : Does l a ds)
    (next : ∀ x, a = .ok x → Does (f x) (g x) es) (stop : ∀ e, a = .error e → es = []) :
    Does (l >>= f) (a >>= g) (ds ++ es) := by
  intro reg
  rw [run_bind, first reg]
  cases a with
  | ok x =>
    dsimp only
    rw [next x rfl, List.foldl_append]
    rfl
  | error e =>
    rw [stop e rfl, List.append_nil]
    rfl

theorem map (first : Does l a ds) (f : α → β) :
    Does (do return f (← l)) (a.map f) ds := by
  have mapped : Does (l >>= fun x => Pure.pure (f x)) (a >>= fun x => .ok (f x)) (ds ++ []) :=
    first.bind (fun x _ => pure (f x)) fun _ _ => rfl
  rw [List.append_nil] at mapped
  cases a <;> exact mapped

theorem mapM {f : α → Loading β} {g : α → Attempt β} {part : α → List Sheet}
    (each : ∀ x, Does (f x) (g x) (part x)) (xs : List α) :
    Does (xs.mapM f) (xs.mapM g) (upToFailure g part xs) := by
  induction xs with
  | nil => exact pure []
  | cons x xs ih =>
    rw [List.mapM_cons, List.mapM_cons, upToFailure]
    refine (each x).bind (fun y first => ?_) fun e first => by rw [first]
    rw [first]
    exact ih.map (y :: ·)

end Does

/-- The definition of a node is registered if there is one. -/
theorem does_register (n : Yaml.Node) :
    Does (register n) (Sheet.ofNode n) (Sheet.ofNode n).toOption.toList := by
  intro reg
  unfold register
  cases Sheet.ofNode n <;> rfl

end Loading

namespace Folder

variable (yaml : Yaml.Library) (f : Folder) (name : String)

/-- What a file of a folder gives: the definitions of all that it holds. -/
def answerAt : Attempt (List Sheet) := f.root yaml name >>= fun n => n.contents.mapM Sheet.ofNode

/-- What a file of a folder registers: the definitions of what it holds, up to the first faulty
one. -/
def registeredAt : List Sheet :=
  match f.root yaml name with
  | .ok n => upToFailure Sheet.ofNode (fun n => (Sheet.ofNode n).toOption.toList) n.contents
  | .error _ => []

/-- The file breaks off with a failure, after some definitions: it cannot be read at all, or there
is an item without a definition after items that have theirs. -/
inductive BreaksOff : Failure → List Sheet → Prop where
  | unread {e : Failure} (unread : f.root yaml name = .error e) : BreaksOff e []
  | item {root item : Yaml.Node} {before after : List Yaml.Node} {e : Failure} {ss : List Sheet}
      (read : f.root yaml name = .ok root) (parts : root.contents = before ++ item :: after)
      (good : before.mapM Sheet.ofNode = .ok ss) (faulty : Sheet.ofNode item = .error e) :
      BreaksOff e ss

variable {yaml f name} {e : Failure} {ss : List Sheet}

theorem registeredAt_of_answerAt_eq_ok (given : f.answerAt yaml name = .ok ss) :
    f.registeredAt yaml name = ss := by
  obtain ⟨n, read, mapped⟩ := bind_eq_ok_iff.mp given
  rw [registeredAt, read]
  dsimp only
  rw [upToFailure_eq_flatMap _ mapped, flatMap_toOption mapped]

theorem breaksOff_of_answerAt_eq_error (failed : f.answerAt yaml name = .error e) :
    f.BreaksOff yaml name e (f.registeredAt yaml name) := by
  unfold registeredAt
  rcases bind_eq_error_iff.mp failed with unread | ⟨n, read, stopped⟩
  · rw [unread]
    exact .unread unread
  · obtain ⟨before, x, after, ss, parts, good, faulty, gathered⟩ := of_mapM_eq_error stopped
    rw [read]
    refine .item read parts ?_ faulty
    dsimp only
    rw [gathered, flatMap_toOption good, faulty]
    exact good.trans (congrArg Except.ok (List.append_nil ss).symm)

theorem BreaksOff.answerAt_eq_error (breaks : f.BreaksOff yaml name e ss) :
    f.answerAt yaml name = .error e := by
  unfold answerAt
  cases breaks with
  | unread unread => exact bind_eq_error_iff.mpr (.inl unread)
  | item read parts good faulty =>
    refine bind_eq_error_iff.mpr (.inr ⟨_, read, ?_⟩)
    rw [parts, List.mapM_append, good, List.mapM_cons, faulty]
    rfl

theorem does_ofFile (yaml : Yaml.Library) (f : Folder) (name : String) :
    (Loading.ofFile yaml f name).Does (f.answerAt yaml name) (f.registeredAt yaml name) := by
  unfold Loading.ofFile answerAt registeredAt
  cases f.root yaml name with
  | ok n => exact Loading.Does.mapM Loading.does_register n.contents
  | error e => exact .throw e

/-- A file that cannot be read to its end gives nothing, unless it stops the folder. -/
def answerOrNone (yaml : Yaml.Library) (f : Folder) (name : String) : Attempt (List Sheet) :=
  match f.answerAt yaml name with
  | .ok ss => .ok ss
  | .error e => if Loading.Skips e then .ok [] else .error e

theorem does_ofFileOrNone (yaml : Yaml.Library) (f : Folder) (name : String) :
    (Loading.ofFileOrNone yaml f name).Does (f.answerOrNone yaml name)
      (f.registeredAt yaml name) := by
  intro reg
  unfold Loading.ofFileOrNone answerOrNone
  rw [Loading.run_tryCatch, does_ofFile yaml f name reg]
  cases f.answerAt yaml name with
  | ok ss => rfl
  | error e =>
    dsimp only
    split <;> rfl

/-- What a folder gives. -/
def answer (yaml : Yaml.Library) (f : Folder) : Attempt (List Sheet) :=
  (f.names.mapM (f.answerOrNone yaml)).map List.flatten

/-- What a folder registers, up to the first file that stops it. -/
def registered (yaml : Yaml.Library) (f : Folder) : List Sheet :=
  upToFailure (f.answerOrNone yaml) (f.registeredAt yaml) f.names

theorem does_ofFolder (yaml : Yaml.Library) (f : Folder) :
    (Loading.ofFolder yaml f).Does (f.answer yaml) (f.registered yaml) :=
  (Loading.Does.mapM (does_ofFileOrNone yaml f) f.names).map List.flatten

theorem registered_of_answer_eq_ok (given : f.answer yaml = .ok ss) :
    f.registered yaml = f.names.flatMap (f.registeredAt yaml) := by
  obtain ⟨_, mapped, _⟩ := map_eq_ok_iff.mp given
  exact upToFailure_eq_flatMap _ mapped

/-- The files are read in their order, and all of them unless one stops the folder. -/
theorem exists_read (yaml : Yaml.Library) (f : Folder) : ∃ read, read <+: f.names ∧
    f.registered yaml = read.flatMap (f.registeredAt yaml) ∧
    ∀ ss, f.answer yaml = .ok ss → read = f.names := by
  cases mapped : f.names.mapM (f.answerOrNone yaml) with
  | ok sss => exact ⟨f.names, List.prefix_rfl, upToFailure_eq_flatMap _ mapped, fun _ _ => rfl⟩
  | error e =>
    obtain ⟨before, name, after, _, parts, _, _, gathered⟩ := of_mapM_eq_error mapped
    refine ⟨before ++ [name], ⟨after, by simp [parts]⟩, ?_, fun ss given => ?_⟩
    · rw [registered, gathered]
      simp
    · obtain ⟨_, whole, _⟩ := map_eq_ok_iff.mp given
      cases mapped.symm.trans whole

/-- What a folder gives is part of what it registers. -/
theorem sublist_of_answer_eq_ok (given : f.answer yaml = .ok ss) :
    ss.Sublist (f.registered yaml) := by
  rw [registered_of_answer_eq_ok given]
  obtain ⟨sss, mapped, rfl⟩ := map_eq_ok_iff.mp given
  rw [← flatMap_toOption mapped]
  clear given mapped
  induction f.names with
  | nil => exact .slnil
  | cons name names ih =>
    rw [List.flatMap_cons, List.flatMap_cons, List.flatten_append]
    refine List.Sublist.append ?_ ih
    unfold answerOrNone
    cases read : f.answerAt yaml name with
    | ok ss =>
      rw [registeredAt_of_answerAt_eq_ok read]
      simp [Except.toOption]
    | error e => by_cases skipped : Loading.Skips e <;> simp [skipped, Except.toOption]

end Folder

/-- A load of a file, or of the folder that a reader was made with or one within it. -/
inductive Load where
  | file (folder : Folder) (name : String)
  | folder (made inner : Option Folder)
deriving DecidableEq, Repr

namespace Load

variable (yaml : Yaml.Library)

def perform : Load → Loading (List Sheet)
  | file f name => Loading.ofFile yaml f name
  | folder made inner => Loading.ofChosen yaml made inner

def answer : Load → Attempt (List Sheet)
  | file f name => f.answerAt yaml name
  | folder made inner =>
    match inner.or made with
    | some f => f.answer yaml
    | none => .error (.value "No collections directory specified")

/-- The definitions that it gives, none if it fails. -/
def given (l : Load) : List Sheet := (l.answer yaml).toOption.getD []

def registered : Load → List Sheet
  | file f name => f.registeredAt yaml name
  | folder made inner => ((inner.or made).map (Folder.registered yaml)).getD []

theorem does_perform (l : Load) : (l.perform yaml).Does (l.answer yaml) (l.registered yaml) := by
  cases l with
  | file f name => exact Folder.does_ofFile yaml f name
  | folder made inner =>
    cases inner with
    | some f => exact Folder.does_ofFolder yaml f
    | none =>
      cases made with
      | some f => exact Folder.does_ofFolder yaml f
      | none => exact .throw _

theorem sublist_registered (l : Load) : (l.given yaml).Sublist (l.registered yaml) := by
  unfold given
  cases answered : l.answer yaml with
  | error e => exact List.nil_sublist _
  | ok ss =>
    change ss.Sublist (l.registered yaml)
    cases l with
    | file f name =>
      rw [← Folder.registeredAt_of_answerAt_eq_ok answered]
      exact .refl _
    | folder made inner =>
      simp only [answer] at answered
      simp only [registered]
      split at answered
      next f chosen =>
        rw [chosen]
        exact Folder.sublist_of_answer_eq_ok answered
      next => cases answered

end Load

namespace Registry

/-- The registry after some loads, one after another. -/
def after (yaml : Yaml.Library) (reg : Registry) (ls : List Load) : Registry :=
  ls.foldl (fun reg l => ((l.perform yaml).run reg).2) reg

theorem after_eq_foldl_put (yaml : Yaml.Library) (reg : Registry) (ls : List Load) :
    reg.after yaml ls = (ls.flatMap (Load.registered yaml)).foldl put reg := by
  induction ls generalizing reg with
  | nil => rfl
  | cons l ls ih =>
    rw [List.flatMap_cons, List.foldl_append, ← ih, after, List.foldl_cons, l.does_perform yaml reg]
    rfl

/-- After any loads, with any library, a slug has the last definition of it that they registered, or
else the one from before.  A file registers what it gives; one that fails registers the definitions
of the items before the faulty one, and a folder what its files register, up to one that stops it.
So where the loads registered no more than they gave, a slug has the last definition of it that they
gave. -/
theorem get?_after_loads (yaml : Yaml.Library) (reg : Registry) (ls : List Load) (slug : String) :
    (reg.after yaml ls).get? slug =
      (Definition.last? (ls.flatMap (Load.registered yaml)) slug).or (reg.get? slug) ∧
    (∀ l : Load, ((l.perform yaml).run reg).1 = l.answer yaml ∧
      (l.given yaml).Sublist (l.registered yaml)) ∧
    (∀ f name ss, (Load.file f name).answer yaml = .ok ss →
      (Load.file f name).registered yaml = ss) ∧
    (∀ f name e, (Load.file f name).answer yaml = .error e →
      f.BreaksOff yaml name e ((Load.file f name).registered yaml)) ∧
    (∀ made inner f, inner.or made = some f → ∃ read, read <+: f.names ∧
      (Load.folder made inner).registered yaml = read.flatMap (f.registeredAt yaml) ∧
      ∀ ss, (Load.folder made inner).answer yaml = .ok ss → read = f.names) ∧
    ((∀ l ∈ ls, l.registered yaml = l.given yaml) →
      (empty.after yaml ls).get? slug = Definition.last? (ls.flatMap (Load.given yaml)) slug) := by
  have found (reg : Registry) : (reg.after yaml ls).get? slug =
      (Definition.last? (ls.flatMap (Load.registered yaml)) slug).or (reg.get? slug) := by
    rw [after_eq_foldl_put, get?_foldl_put]
  refine ⟨found reg, fun l => ⟨by rw [l.does_perform yaml reg], l.sublist_registered yaml⟩,
    fun f name ss => Folder.registeredAt_of_answerAt_eq_ok,
    fun f name e => Folder.breaksOff_of_answerAt_eq_error,
    fun made inner f chosen => ?_, fun clean => ?_⟩
  · obtain ⟨read, first, registered, all⟩ := f.exists_read yaml
    refine ⟨read, first, ?_, fun ss given => all ss ?_⟩
    · simpa only [Load.registered, chosen, Option.map_some, Option.getD_some] using registered
    · simpa only [Load.answer, chosen] using given
  · have same : ls.flatMap (Load.registered yaml) = ls.flatMap (Load.given yaml) := by
      simp only [List.flatMap_def, List.map_congr_left clean]
    rw [found, same]
    exact Option.or_none

/-- A file with an item that lacks its name after one that has it, and one with a definition of the
same slug. -/
def courses : Folder :=
  ⟨[("menu.yaml", .text "- slug: soup\n  name: Broth\n- slug: fish\n"),
    ("soup.yaml", .text "slug: soup\nname: Bisque\n")]⟩

def servings : List Load := [.file courses "soup.yaml", .file courses "fish.yaml"]

theorem get?_after_loads_courses :
    (∀ l ∈ servings, l.registered .simple = l.given .simple) ∧
    (empty.after .simple servings).get? "soup" =
      Definition.last? (servings.flatMap (Load.given .simple)) "soup" ∧
    (servings.flatMap (Load.given .simple)).map Definition.name = ["Bisque"] := by
  have clean : ∀ l ∈ servings, l.registered .simple = l.given .simple := by
    have readable : ((Load.file courses "soup.yaml").answer .simple).isOk := by decide +kernel
    obtain ⟨ss, read⟩ := Attempt.exists_of_isOk readable
    refine List.forall_mem_cons.mpr ⟨?_, List.forall_mem_singleton.mpr rfl⟩
    rw [Load.given, read]
    exact Folder.registeredAt_of_answerAt_eq_ok read
  obtain ⟨_, _, _, _, _, found⟩ := get?_after_loads .simple .empty servings "soup"
  exact ⟨clean, found clean, by decide +kernel⟩

/-- A load that fails has registered a definition. -/
theorem failed_load_registers :
    ((Loading.ofFile .simple courses "menu.yaml").run .empty).1.map (List.map Definition.slug) =
      .error (.request [⟨[.name "name"], .missing⟩]) ∧
    (empty.get? "soup").isNone ∧
    (((Loading.ofFile .simple courses "menu.yaml").run .empty).2.get? "soup").map
      Definition.name = some "Broth" := by
  decide +kernel

end Registry

end Cookbook
