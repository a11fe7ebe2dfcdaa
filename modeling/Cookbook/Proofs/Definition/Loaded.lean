import Cookbook.Definition.Folder
import Cookbook.Definition.Packaged
import Cookbook.Proofs.Attempt
import Cookbook.Proofs.Schema.Reading
import Cookbook.Shelf.Call

/-!
# What requests and definitions promise

Whatever is read of a request or of a definition has no negative minimum and no negative target.
Definitions that are loaded from a file or a folder are all read, with a rule that has no problems,
and the ones that come with the library are written so.
-/

namespace Cookbook

namespace Schema

variable {α : Type} {P : α → Prop} {read : Shape α} {ms : Members} {names : List String}

theorem le_of_atLeast_eq_ok {bound n : Int} {j : Json} (readAs : atLeast bound j = .ok n) :
    bound ≤ n :=
  Readers.le_of_atLeast_eq_ok (w := .json) readAs

theorem of_kept_eq_ok {o : Option α} (holds : ∀ j a, read j = .ok a → P a)
    (found : Changes.kept ms names read = .ok o) : ∀ a ∈ o, P a := by
  obtain ⟨given, member, rfl⟩ := Checked.map_eq_ok_iff.mp found
  rcases of_member?_eq_ok member with ⟨_, rfl⟩ | ⟨j, o, _, readAs, rfl⟩
  · intro a absent
    cases absent
  rcases of_optional_eq_ok readAs with ⟨_, rfl⟩ | ⟨_, a, value, rfl⟩
  · intro a absent
    cases absent
  · intro b same
    obtain rfl := Option.some.inj same
    exact holds j a value

end Schema

open Schema

/-- Neither the minimum nor the target that is asked for is negative. -/
def Call.Bounded : Call → Prop
  | create n => 0 ≤ n.minRequired ∧ 0 ≤ n.targetCount
  | update _ ch => (∀ n ∈ ch.minRequired, 0 ≤ n) ∧ ∀ n ∈ ch.targetCount, 0 ≤ n
  | _ => True

theorem NewCollection.bounded_of_ofMembers {ms : Members} {n : NewCollection}
    (requested : NewCollection.ofMembers ms = .ok n) : (Call.create n).Bounded := by
  simp only [NewCollection.ofMembers, Checked.seq_eq_ok_iff, Checked.map_eq_ok_iff] at requested
  -- One level for each part, the first one innermost.
  obtain ⟨_, ⟨_, ⟨_, ⟨_, ⟨_, ⟨_, ⟨_, ⟨_, ⟨_, ⟨_, ⟨_, ⟨_, ⟨_, _, rfl⟩, _, _, rfl⟩, _, _, rfl⟩, _,
    _, rfl⟩, _, _, rfl⟩, _, _, rfl⟩, _, _, rfl⟩, _, _, rfl⟩, _, _, rfl⟩, _, _, rfl⟩, _,
    minRequired, rfl⟩, _, targetCount, rfl⟩, _, _, rfl⟩ := requested
  constructor
  · exact of_memberD_eq_ok (fun _ _ => le_of_atLeast_eq_ok) (by decide) minRequired
  · exact of_memberD_eq_ok (fun _ _ => le_of_atLeast_eq_ok) (by decide) targetCount

theorem Changes.bounded_of_ofMembers {ms : Members} {ch : Changes} (id : String)
    (requested : Changes.ofMembers ms = .ok ch) : (Call.update id ch).Bounded := by
  simp only [Changes.ofMembers, Checked.seq_eq_ok_iff, Checked.map_eq_ok_iff] at requested
  obtain ⟨_, ⟨_, ⟨_, ⟨_, ⟨_, ⟨_, ⟨_, ⟨_, ⟨_, ⟨_, ⟨_, ⟨_, ⟨_, ⟨_, ⟨_, _, rfl⟩, _, _, rfl⟩, _, _,
    rfl⟩, _, _, rfl⟩, _, _, rfl⟩, _, _, rfl⟩, _, _, rfl⟩, _, _, rfl⟩, _, _, rfl⟩, _, _, rfl⟩, _,
    _, rfl⟩, _, _, rfl⟩, _, minRequired, rfl⟩, _, targetCount, rfl⟩, _, _, rfl⟩ := requested
  constructor
  · exact of_kept_eq_ok (fun _ _ => le_of_atLeast_eq_ok) minRequired
  · exact of_kept_eq_ok (fun _ _ => le_of_atLeast_eq_ok) targetCount

namespace Definition

variable {R V : Type}

def Bounded (d : Definition R) : Prop := 0 ≤ d.minRequired ∧ 0 ≤ d.targetCount

instance (d : Definition R) : Decidable d.Bounded := inferInstanceAs (Decidable (_ ∧ _))

theorem bounded_of_read {w : Readers V} {rule : V → Checked R} {absent : R}
    {ms : List (String × V)} {d : Definition R} (requested : read w rule absent ms = .ok d) :
    d.Bounded := by
  simp only [read, Checked.seq_eq_ok_iff, Checked.map_eq_ok_iff] at requested
  obtain ⟨_, ⟨_, ⟨_, ⟨_, ⟨_, ⟨_, ⟨_, ⟨_, ⟨_, ⟨_, ⟨_, ⟨_, ⟨_, _, rfl⟩, _, _, rfl⟩, _, _, rfl⟩, _,
    _, rfl⟩, _, _, rfl⟩, _, _, rfl⟩, _, _, rfl⟩, _, _, rfl⟩, _, _, rfl⟩, _, _, rfl⟩, _,
    minRequired, rfl⟩, _, targetCount, rfl⟩, _, _, rfl⟩ := requested
  constructor
  · exact of_memberD_eq_ok (fun _ _ => Readers.le_of_atLeast_eq_ok) (by decide) minRequired
  · exact of_memberD_eq_ok (fun _ _ => Readers.le_of_atLeast_eq_ok) (by decide) targetCount

theorem bounded_of_ofMembers {ms : Members} {d : Definition} (requested : ofMembers ms = .ok d) :
    d.Bounded :=
  bounded_of_read requested

theorem Bounded.toNew {d : Definition} (bounded : d.Bounded) :
    (Call.create d.toNew).Bounded := bounded

theorem Bounded.toChanges {d : Definition} (bounded : d.Bounded) (id : String) :
    (Call.update id d.toChanges).Bounded := by
  constructor
  · rintro n ⟨⟩
    exact bounded.1
  · rintro n ⟨⟩
    exact bounded.2

theorem bounded_of_packaged : ∀ d ∈ packaged, d.Bounded := by decide

end Definition

namespace Sheet

variable {s : Sheet} {n : Yaml.Node}

/-- What is read of a node has the members of a definition and a rule without problems. -/
theorem of_ofNode_eq_ok (read : ofNode n = .ok s) :
    (∃ ms, n.arguments? = some ms ∧
      Definition.read Yaml.Node.checking Yaml.Node.members noRule ms = .ok s) ∧
    s.problems = [] := by
  obtain ⟨t, shaped, checked⟩ := Attempt.bind_eq_ok_iff.mp read
  have passed : t.problems = [] ∧ t = s := by
    unfold Sheet.checked at checked
    split at checked
    next sound => exact ⟨sound, Except.ok.inj checked⟩
    next => cases checked
  obtain ⟨sound, rfl⟩ := passed
  refine ⟨?_, sound⟩
  unfold Sheet.shaped at shaped
  split at shaped
  next ms named =>
    refine ⟨ms, named, ?_⟩
    unfold Definition.required at shaped
    split at shaped
    next requested => exact Except.ok.inj shaped ▸ requested
    next => cases shaped
  next => cases shaped

theorem bounded_of_ofNode (read : ofNode n = .ok s) : s.Bounded := by
  obtain ⟨⟨ms, _, requested⟩, _⟩ := of_ofNode_eq_ok read
  exact Definition.bounded_of_read requested

/-- What is written of a sheet is the sheet but for its rule. -/
theorem of_written_eq_ok {d : Definition} (written : s.written = .ok d) :
    ∃ r, Rule.ofMembers Yaml.Node.writing s.rules = .ok r ∧ d = { s with rules := r.asGiven } := by
  unfold Sheet.written at written
  split at written
  next r readAs => exact ⟨r, readAs, (Except.ok.inj written).symm⟩
  next => cases written

theorem eq_unwritable_of_written_eq_error {e : Failure} (unwritten : s.written = .error e) :
    e = unwritable := by
  unfold Sheet.written at unwritten
  split at unwritten
  next => cases unwritten
  next => exact (Except.error.inj unwritten).symm

theorem bounded_of_written {d : Definition} (bounded : s.Bounded) (written : s.written = .ok d) :
    d.Bounded := by
  obtain ⟨r, _, rfl⟩ := of_written_eq_ok written
  exact bounded

/-- The definitions that sheets come to, up to the first one that cannot be written. -/
def definitions : List Sheet → List Definition
  | [] => []
  | s :: ss =>
    match s.written with
    | .ok d => d :: definitions ss
    | .error _ => []

end Sheet

namespace Loading

variable {α β : Type} {P : α → Prop} {Q : β → Prop}

/-- Whatever is loaded has the property, whatever was registered before. -/
def Yields (l : Loading α) (P : α → Prop) : Prop := ∀ reg a, (l.run reg).1 = .ok a → P a

theorem run_bind (l : Loading α) (f : α → Loading β) (reg : Registry) :
    (l >>= f).run reg = match l.run reg with
      | (.ok a, reg) => (f a).run reg
      | (.error e, reg) => (.error e, reg) := by
  change ExceptT.bindCont f (l.run reg).1 (l.run reg).2 = _
  obtain ⟨_ | _, reg⟩ := l.run reg <;> rfl

theorem run_tryCatch (l : Loading α) (h : Failure → Loading α) (reg : Registry) :
    (tryCatch l h).run reg = match l.run reg with
      | (.ok a, reg) => (.ok a, reg)
      | (.error e, reg) => (h e).run reg := by
  have ran : l reg = l.run reg := rfl
  change ExceptT.tryCatch l h reg = _
  simp only [ExceptT.tryCatch, ExceptT.mk, bind, StateT.bind, ran]
  obtain ⟨_ | _, reg⟩ := l.run reg <;> rfl

namespace Yields

theorem pure {a : α} (holds : P a) : Yields (Pure.pure a) P := by
  intro reg b loaded
  obtain rfl := Except.ok.inj loaded
  exact holds

theorem throw (f : Failure) : Yields (throw f : Loading α) P := by
  intro reg a loaded
  cases loaded

theorem bind {l : Loading α} {f : α → Loading β} (first : Yields l P)
    (next : ∀ a, P a → Yields (f a) Q) : Yields (l >>= f) Q := by
  intro reg b loaded
  rw [run_bind] at loaded
  have loads := first reg
  generalize l.run reg = outcome at loads loaded
  obtain ⟨answer, reg⟩ := outcome
  cases answer with
  | ok a => exact next a (loads a rfl) reg b loaded
  | error e => cases loaded

theorem tryCatch {l : Loading α} {h : Failure → Loading α} (body : Yields l P)
    (handler : ∀ f, Yields (h f) P) : Yields (tryCatch l h) P := by
  intro reg a loaded
  rw [run_tryCatch] at loaded
  have loads := body reg
  generalize l.run reg = outcome at loads loaded
  obtain ⟨answer, reg⟩ := outcome
  cases answer with
  | ok b => exact loads a loaded
  | error e => exact handler e reg a loaded

theorem mapM {f : α → Loading β} (each : ∀ a, Yields (f a) Q) (as : List α) :
    Yields (as.mapM f) fun bs => ∀ b ∈ bs, Q b := by
  induction as with
  | nil =>
    refine pure ?_
    intro b absent
    cases absent
  | cons a as ih =>
    rw [List.mapM_cons]
    refine bind (each a) fun b holds => bind ih fun bs rest => pure ?_
    exact List.forall_mem_cons.mpr ⟨holds, rest⟩

end Yields

section

variable {yaml : Yaml.Library} {P : Sheet → Prop} (read : ∀ n s, Sheet.ofNode n = .ok s → P s)
include read

theorem yields_register (n : Yaml.Node) : Yields (register n) P := by
  unfold register
  cases found : Sheet.ofNode n with
  | error f => exact .throw f
  | ok s =>
    refine .bind (P := fun _ => True) (fun _ _ _ => trivial) fun _ _ => .pure ?_
    exact read n s found

theorem yields_ofFile (f : Folder) (name : String) :
    Yields (ofFile yaml f name) fun ss => ∀ s ∈ ss, P s := by
  unfold ofFile
  cases f.root yaml name with
  | ok n => exact .mapM (yields_register read) n.contents
  | error e => exact .throw e

theorem yields_ofFolder (f : Folder) : Yields (ofFolder yaml f) fun ss => ∀ s ∈ ss, P s := by
  have each : ∀ name, Yields (ofFileOrNone yaml f name) fun ss => ∀ s ∈ ss, P s := by
    intro name
    refine (yields_ofFile read f name).tryCatch fun failure => ?_
    split
    · refine .pure ?_
      intro s absent
      cases absent
    · exact .throw _
  refine (Yields.mapM each f.names).bind fun found holds => .pure ?_
  intro s member
  obtain ⟨ss, among, part⟩ := List.mem_flatten.mp member
  exact holds ss among s part

end

end Loading

end Cookbook
