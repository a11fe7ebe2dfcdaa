import Cookbook.Failure
import Mathlib.Data.List.Forall2

/-!
# Attempts

An attempt in steps answers when every step does.
-/

namespace Cookbook.Attempt

variable {α β : Type}

instance (x : Attempt α) : Decidable (∃ a, x = .ok a) :=
  match x with
  | .ok a => isTrue ⟨a, rfl⟩
  | .error _ => isFalse nofun

theorem bind_eq_ok_iff {x : Attempt α} {f : α → Attempt β} {b : β} :
    x >>= f = .ok b ↔ ∃ a, x = .ok a ∧ f a = .ok b := by
  cases x <;> simp [bind, Except.bind]

theorem bind_eq_error_iff {x : Attempt α} {f : α → Attempt β} {e : Failure} :
    x >>= f = .error e ↔ x = .error e ∨ ∃ a, x = .ok a ∧ f a = .error e := by
  cases x <;> simp [bind, Except.bind]

theorem map_eq_ok_iff {x : Attempt α} {f : α → β} {b : β} :
    x.map f = .ok b ↔ ∃ a, x = .ok a ∧ f a = b := by
  cases x <;> simp [Except.map]

theorem map_eq_error_iff {x : Attempt α} {f : α → β} {e : Failure} :
    x.map f = .error e ↔ x = .error e := by
  cases x <;> simp [Except.map]

/-- Steps answer one for one. -/
theorem mapM_eq_ok_iff {f : α → Attempt β} {xs : List α} {ys : List β} :
    xs.mapM f = .ok ys ↔ List.Forall₂ (fun x y => f x = .ok y) xs ys := by
  induction xs generalizing ys with
  | nil => simp [pure, Except.pure, eq_comm]
  | cons x xs ih =>
    rw [List.mapM_cons, bind_eq_ok_iff, List.forall₂_cons_left_iff]
    refine exists_congr fun y => ?_
    rw [bind_eq_ok_iff]
    constructor
    · rintro ⟨first, zs, rest, answer⟩
      exact ⟨zs, first, ih.mp rest, (Except.ok.inj answer).symm⟩
    · rintro ⟨zs, first, rest, rfl⟩
      exact ⟨first, zs, ih.mpr rest, rfl⟩

theorem exists_of_mem_mapM {f : α → Attempt β} {xs : List α} {ys : List β}
    (mapped : xs.mapM f = .ok ys) {y : β} (member : y ∈ ys) : ∃ x ∈ xs, f x = .ok y := by
  rw [mapM_eq_ok_iff] at mapped
  induction mapped with
  | nil => cases member
  | cons first _ ih =>
    rcases List.mem_cons.mp member with rfl | member
    · exact ⟨_, List.mem_cons_self, first⟩
    · obtain ⟨x, among, found⟩ := ih member
      exact ⟨x, List.mem_cons_of_mem _ among, found⟩

theorem eq_map_of_mapM_eq_ok {f : α → Attempt β} {g : α → β} {xs : List α} {ys : List β}
    (each : ∀ x ∈ xs, ∀ {y}, f x = .ok y → y = g x) (mapped : xs.mapM f = .ok ys) :
    ys = xs.map g := by
  rw [mapM_eq_ok_iff] at mapped
  induction mapped with
  | nil => rfl
  | cons first _ ih =>
    obtain ⟨own, others⟩ := List.forall_mem_cons.mp each
    rw [List.map_cons, own first, ih others]

/-- What each step answers tells what it was about. -/
theorem map_eq_of_mapM_eq_ok {f : α → Attempt β} {g : β → α}
    (back : ∀ {x y}, f x = .ok y → g y = x) {xs : List α} {ys : List β}
    (mapped : xs.mapM f = .ok ys) : ys.map g = xs := by
  rw [mapM_eq_ok_iff] at mapped
  induction mapped with
  | nil => rfl
  | cons first _ ih => rw [List.map_cons, back first, ih]

theorem exists_of_mem {f : α → Attempt β} {xs : List α} {ys : List β}
    (mapped : xs.mapM f = .ok ys) {x : α} (member : x ∈ xs) : ∃ y ∈ ys, f x = .ok y := by
  rw [mapM_eq_ok_iff] at mapped
  induction mapped with
  | nil => cases member
  | cons first _ ih =>
    rcases List.mem_cons.mp member with rfl | member
    · exact ⟨_, List.mem_cons_self, first⟩
    · obtain ⟨y, among, found⟩ := ih member
      exact ⟨y, List.mem_cons_of_mem _ among, found⟩

theorem exists_mapM {f : α → Attempt β} {xs : List α}
    (each : ∀ x ∈ xs, ∃ y, f x = .ok y) : ∃ ys, xs.mapM f = .ok ys := by
  induction xs with
  | nil => exact ⟨[], rfl⟩
  | cons x xs ih =>
    obtain ⟨y, first⟩ := each x List.mem_cons_self
    obtain ⟨ys, rest⟩ := ih fun z member => each z (List.mem_cons_of_mem _ member)
    refine ⟨y :: ys, ?_⟩
    rw [List.mapM_cons]
    exact bind_eq_ok_iff.mpr ⟨y, first, bind_eq_ok_iff.mpr ⟨ys, rest, rfl⟩⟩

/-- The first step that fails is the one that is told of. -/
theorem mapM_eq_error_iff {f : α → Attempt β} {xs : List α} {e : Failure} :
    xs.mapM f = .error e ↔ ∃ earlier x later, xs = earlier ++ x :: later ∧
      (∀ w ∈ earlier, ∃ y, f w = .ok y) ∧ f x = .error e := by
  induction xs with
  | nil => simp [pure, Except.pure]
  | cons x xs ih =>
    rw [List.mapM_cons, bind_eq_error_iff]
    constructor
    · rintro (first | ⟨y, first, rest⟩)
      · exact ⟨[], x, xs, rfl, by simp, first⟩
      · rcases bind_eq_error_iff.mp rest with rest | ⟨_, _, answer⟩
        · obtain ⟨earlier, z, later, rfl, answered, failed⟩ := ih.mp rest
          refine ⟨x :: earlier, z, later, rfl, ?_, failed⟩
          exact List.forall_mem_cons.mpr ⟨⟨y, first⟩, answered⟩
        · cases answer
    · rintro ⟨earlier, z, later, parts, answered, failed⟩
      cases earlier with
      | nil =>
        obtain ⟨rfl, rfl⟩ := List.cons.inj parts
        exact .inl failed
      | cons w earlier =>
        obtain ⟨rfl, rfl⟩ := List.cons.inj parts
        obtain ⟨⟨y, first⟩, answered⟩ := List.forall_mem_cons.mp answered
        exact .inr ⟨y, first, bind_eq_error_iff.mpr
          (.inl (ih.mpr ⟨earlier, z, later, rfl, answered, failed⟩))⟩

/-- The attempt answers unless something stands against it, and what it fails with then is one of
the things that do. -/
def Hinges (x : Attempt α) (against : Failure → Prop) : Prop :=
  ((∃ a, x = .ok a) ↔ ∀ f, ¬ against f) ∧ ∀ f, x = .error f → against f

section Hinges

variable {x : Attempt α} {against against' : Failure → Prop}

theorem hinges_ok (a : α) : Hinges (.ok a : Attempt α) fun _ => False :=
  ⟨⟨fun _ _ => id, fun _ => ⟨a, rfl⟩⟩, fun _ failed => nomatch failed⟩

theorem Hinges.congr (hinges : x.Hinges against) (same : ∀ f, against f ↔ against' f) :
    x.Hinges against' := by
  obtain rfl : against = against' := funext fun f => propext (same f)
  exact hinges

theorem Hinges.bind {g : α → Attempt β} (first : x.Hinges against)
    (next : ∀ a, x = .ok a → (g a).Hinges against') :
    Hinges (x >>= g) fun f => against f ∨ against' f := by
  cases x with
  | error e =>
    have stands := first.2 e rfl
    constructor
    · constructor
      · rintro ⟨b, answered⟩
        cases answered
      · intro free
        exact absurd (.inl stands) (free e)
    · intro f failed
      obtain rfl : e = f := Except.error.inj failed
      exact .inl stands
  | ok a =>
    have free := first.1.mp ⟨a, rfl⟩
    apply (next a rfl).congr
    intro f
    exact ⟨.inr, fun stands => stands.resolve_left (free f)⟩

theorem Hinges.map (hinges : x.Hinges against) (g : α → β) : Hinges (x.map g) against := by
  constructor
  · rw [← hinges.1]
    simp only [map_eq_ok_iff]
    exact ⟨fun ⟨_, a, answered, _⟩ => ⟨a, answered⟩, fun ⟨a, answered⟩ => ⟨_, a, answered, rfl⟩⟩
  · intro f failed
    exact hinges.2 f (map_eq_error_iff.mp failed)

theorem Hinges.mapM {f : α → Attempt β} {cause : α → Failure → Prop} {xs : List α}
    (each : ∀ x ∈ xs, (f x).Hinges (cause x)) :
    (xs.mapM f).Hinges fun e => ∃ x ∈ xs, cause x e := by
  induction xs with
  | nil => exact (hinges_ok []).congr fun e => by simp
  | cons x xs ih =>
    obtain ⟨first, others⟩ := List.forall_mem_cons.mp each
    rw [List.mapM_cons]
    have step := first.bind fun y _ => (ih others).bind fun ys _ => hinges_ok (y :: ys)
    refine step.congr fun e => ?_
    simp

end Hinges

theorem mapM_eq_ok {f : α → Attempt β} {g : α → β} {xs : List α}
    (each : ∀ x ∈ xs, f x = .ok (g x)) : xs.mapM f = .ok (xs.map g) := by
  obtain ⟨ys, mapped⟩ := exists_mapM fun x member => ⟨g x, each x member⟩
  rw [mapped, eq_map_of_mapM_eq_ok (g := g) (fun x member y found => ?_) mapped]
  exact Except.ok.inj (found.symm.trans (each x member))

end Cookbook.Attempt
