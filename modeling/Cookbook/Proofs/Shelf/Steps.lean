import Cookbook.Proofs.Shelf.Run
import Mathlib.Logic.Relation

/-!
# Actions by steps

An action changes the shelf by lasting steps, and a failure does not take back those before it.  The
rules say of what is built from actions which steps it may take; a proof about an operation has the
shape of the operation.
-/

open Relation in
abbrev Cookbook.Shelf.Reaches (C : Cookbook.Shelf → Cookbook.Shelf → Prop) :
    Cookbook.Shelf → Cookbook.Shelf → Prop :=
  ReflTransGen C

namespace Cookbook.Action

open Cookbook.Shelf (Reaches)

variable {α β : Type} {env : Surroundings} {C D : Shelf → Shelf → Prop} {P E : Shelf → Prop}
  {Q R : α → Shelf → Prop}

/-- On a shelf with `P` the action takes steps of `C` only, however it ends; what it returns stands
in `Q` to the shelf that it leaves. -/
def Steps (env : Surroundings) (C : Shelf → Shelf → Prop) (P : Shelf → Prop) (a : Action α)
    (Q : α → Shelf → Prop) : Prop :=
  ∀ s, P s → Reaches C s (a.run env s).2 ∧
    ∀ x, (a.run env s).1 = .ok x → Q x (a.run env s).2

namespace Steps

theorem of_run {a : Action α} {answer : Shelf → Attempt α}
    (unchanged : ∀ s, a.run env s = (answer s, s))
    (returned : ∀ s, P s → ∀ x, answer s = .ok x → Q x s) : Steps env C P a Q := by
  intro s before
  rw [unchanged]
  exact ⟨.refl, returned s before⟩

theorem pure {x : α} (holds : ∀ s, P s → Q x s) : Steps env C P (Pure.pure x) Q := by
  intro s before
  refine ⟨.refl, fun y returned => ?_⟩
  obtain rfl := Except.ok.inj returned
  exact holds s before

theorem throw (f : Failure) : Steps env C P (throw f : Action α) Q := by
  intro s before
  exact ⟨.refl, fun _ returned => nomatch returned⟩

theorem bind {a : Action β} {f : β → Action α} {T : β → Shelf → Prop}
    (first : Steps env C P a T) (next : ∀ x, Steps env C (T x) (f x) Q) :
    Steps env C P (a >>= f) Q := by
  intro s before
  obtain ⟨path, post⟩ := first s before
  rw [run_bind]
  generalize a.run env s = outcome at path post
  obtain ⟨answer, t⟩ := outcome
  cases answer with
  | ok x =>
    obtain ⟨rest, final⟩ := next x t (post x rfl)
    exact ⟨path.trans rest, final⟩
  | error e => exact ⟨path, fun _ returned => nomatch returned⟩

theorem throw_bind (f : Failure) (next : β → Action α) :
    Steps env C P ((MonadExcept.throw f : Action β) >>= next) Q :=
  bind (throw (Q := fun _ _ => False) f) fun _ _ absurd => absurd.elim

/-- What every path of the steps leads to holds after the action. -/
theorem frame {a : Action α} (steps : Steps env C P a Q)
    (framed : ∀ s t, P s → Reaches C s t → E t) : Steps env C P a fun _ t => E t := by
  intro s before
  obtain ⟨path, _⟩ := steps s before
  exact ⟨path, fun _ _ => framed s _ before path⟩

theorem tryCatch {a : Action α} {h : Failure → Action α} (body : Steps env C P a Q)
    (framed : ∀ s t, P s → Reaches C s t → E t) (handler : ∀ f, Steps env C E (h f) Q) :
    Steps env C P (tryCatch a h) Q := by
  intro s before
  obtain ⟨path, post⟩ := body s before
  have after := framed s _ before path
  rw [run_tryCatch]
  generalize a.run env s = outcome at path post after
  obtain ⟨answer, t⟩ := outcome
  cases answer with
  | ok x => exact ⟨path, post⟩
  | error e =>
    obtain ⟨rest, final⟩ := handler e t after
    exact ⟨path.trans rest, final⟩

theorem pre {a : Action α} (steps : Steps env C E a Q) (implies : ∀ s, P s → E s) :
    Steps env C P a Q := fun s before => steps s (implies s before)

theorem post {a : Action α} (steps : Steps env C P a Q) (implies : ∀ x s, Q x s → R x s) :
    Steps env C P a R := by
  intro s before
  obtain ⟨path, final⟩ := steps s before
  exact ⟨path, fun x returned => implies x _ (final x returned)⟩

theorem widen {a : Action α} (steps : Steps env C P a Q) (implies : ∀ s t, C s t → D s t) :
    Steps env D P a Q := by
  intro s before
  obtain ⟨path, final⟩ := steps s before
  exact ⟨Relation.ReflTransGen.mono implies _ _ path, final⟩

theorem attempt (a : Attempt α) :
    Steps env C P (Action.attempt a) fun x t => P t ∧ a = .ok x :=
  of_run (run_attempt env · a) fun _ before _ returned => ⟨before, returned⟩

/-- Only what the attempt answers is gone on with. -/
theorem attempt_bind {a : Attempt β} {f : β → Action α}
    (next : ∀ x, a = .ok x → Steps env C P (f x) Q) :
    Steps env C P (Action.attempt a >>= f) Q := by
  cases a with
  | ok x => exact next x rfl
  | error e => exact throw_bind e f

theorem get : Steps env C P (MonadState.get : Action Shelf) fun s t => P t ∧ s = t :=
  of_run (run_get env) fun _ before _ returned => ⟨before, (Except.ok.inj returned).symm⟩

theorem settings : Steps env C P Action.settings fun x t => P t ∧ x = env.settings :=
  of_run (run_settings env) fun _ before _ returned => ⟨before, (Except.ok.inj returned).symm⟩

theorem now : Steps env C P Action.now fun x t => P t ∧ x = env.now :=
  of_run (run_now env) fun _ before _ returned => ⟨before, (Except.ok.inj returned).symm⟩

theorem store : Steps env C P Action.store fun st t => P t ∧ st.catalog = t.catalog := by
  refine of_run (fun _ => run_store) fun s before st returned => ⟨before, ?_⟩
  rw [← Except.ok.inj returned]
  rfl

theorem require (id : String) :
    Steps env C P (Action.require id) fun c t => P t ∧ t.find? id = some c := by
  intro s before
  rw [run_require, required]
  cases found : s.find? id with
  | none => exact ⟨.refl, fun _ returned => nomatch returned⟩
  | some c =>
    refine ⟨.refl, fun d returned => ⟨before, ?_⟩⟩
    rw [← Except.ok.inj returned]
    exact found

theorem drawId (draws : ∀ s, P s → C s { s with drawn := s.drawn + 1 }) :
    Steps env C P Action.drawId fun id t =>
      id = idText t.drawn ∧ ∃ s, P s ∧ t = { s with drawn := s.drawn + 1 } := by
  intro s before
  refine ⟨.single (draws s before), fun id returned => ⟨?_, s, before, rfl⟩⟩
  exact (Except.ok.inj returned).symm

theorem reload (failure : Failure) (id : String) :
    Steps env C P (Action.reload failure id) fun _ t => P t := by
  intro s before
  rw [run_reload]
  split <;> exact ⟨.refl, fun _ _ => before⟩

theorem readBack (failure : Failure) (id : String) :
    Steps env C P (Action.readBack failure id) fun _ t => P t := by
  intro s before
  rw [run_readBack]
  split <;> exact ⟨.refl, fun _ _ => before⟩

theorem commit {failure : Failure} {allowed : Shelf → Attempt Unit} {change : Shelf → Shelf}
    (step : ∀ s, P s → allowed s = .ok () → C s (change s)) :
    Steps env C P (Action.commit failure allowed change) fun _ _ => True := by
  intro s before
  rw [run_commit]
  split
  · exact ⟨.refl, fun _ _ => trivial⟩
  cases permitted : allowed s with
  | ok _ => exact ⟨.single (step s before permitted), fun _ _ => trivial⟩
  | error f => exact ⟨.refl, fun _ _ => trivial⟩

/-- An action that takes no steps leaves the shelf as it is. -/
theorem shelf_eq {a : Action α} {s : Shelf} (reads : Steps env (fun _ _ => False) P a Q)
    (before : P s) : (a.run env s).2 = s := by
  obtain ⟨path, _⟩ := reads s before
  cases path.cases_tail with
  | inl same => exact same
  | inr reached =>
    obtain ⟨_, _, step⟩ := reached
    exact step.elim

theorem unchanged {a : Action α} {s t : Shelf} {x : α}
    (reads : Steps env (fun _ _ => False) P a Q) (before : P s)
    (answered : a.run env s = (.ok x, t)) : t = s ∧ Q x s := by
  have same := reads.shelf_eq before
  obtain ⟨_, post⟩ := reads s before
  rw [answered] at same post
  obtain rfl : t = s := same
  exact ⟨rfl, post x rfl⟩

section Lists

variable {f : β → Action α} {xs : List β}

theorem forM {f : β → Action Unit} (each : ∀ x ∈ xs, Steps env C P (f x) fun _ t => P t) :
    Steps env C P (xs.forM f) fun _ t => P t := by
  induction xs with
  | nil => exact pure fun _ before => before
  | cons x xs ih =>
    exact bind (each x List.mem_cons_self) fun _ =>
      ih fun y member => each y (List.mem_cons_of_mem _ member)

/-- What each action finds may depend on which ones are still to come. -/
theorem mapM {J : List β → Shelf → Prop}
    (each : ∀ x rest, Steps env C (J (x :: rest)) (f x) fun _ t => J rest t) :
    Steps env C (J xs) (xs.mapM f) fun _ _ => True := by
  induction xs with
  | nil => exact pure fun _ _ => trivial
  | cons x xs ih =>
    rw [List.mapM_cons]
    refine bind (each x xs) fun _ => ?_
    exact bind ih fun _ => pure fun _ _ => trivial

theorem foldlM {f : α → β → Action α} (each : ∀ a, ∀ x ∈ xs, Steps env C P (f a x) fun _ t => P t)
    (a : α) : Steps env C P (xs.foldlM f a) fun _ t => P t := by
  induction xs generalizing a with
  | nil => exact pure fun _ before => before
  | cons x xs ih =>
    rw [List.foldlM_cons]
    exact bind (each a x List.mem_cons_self) fun b =>
      ih (fun a y member => each a y (List.mem_cons_of_mem _ member)) b

end Lists

end Steps

end Cookbook.Action
