import Cookbook.Proofs.Schema.Reading
import Mathlib.Data.List.Forall2

/-!
# Readings that succeed together

One reading covers another if it succeeds wherever that one does, with a result that is related to
the other one's.  Records, their members and lists cover each other part by part.
-/

namespace Cookbook.Schema

variable {α β : Type}

/-- Where the second reading succeeds the first one does, with a related result. -/
def Checked.Covers (Rel : α → β → Prop) (x : Checked α) (y : Checked β) : Prop :=
  ∀ b, y = .ok b → ∃ a, x = .ok a ∧ Rel a b

namespace Checked.Covers

variable {α' β' : Type} {Rel : α → β → Prop} {Rel' : α' → β' → Prop} {x : Checked α} {y : Checked β}

theorem self (x : Checked α) : Covers Eq x x := fun a given => ⟨a, given, rfl⟩

theorem ok {a : α} {b : β} (related : Rel a b) : Covers Rel (.ok a) (.ok b) := by
  intro _ given
  obtain rfl := Checked.ok.inj given
  exact ⟨a, rfl, related⟩

theorem bad (x : Checked α) (is : List Issue) : Covers Rel x (.bad is) := nofun

theorem map (covers : Covers Rel x y) {f : α → α'} {g : β → β'}
    (each : ∀ a b, Rel a b → Rel' (f a) (g b)) : Covers Rel' (f <$> x) (g <$> y) := by
  intro _ mapped
  obtain ⟨b, given, rfl⟩ := map_eq_ok_iff.mp mapped
  obtain ⟨a, found, related⟩ := covers b given
  exact ⟨f a, map_eq_ok_iff.mpr ⟨a, found, rfl⟩, each a b related⟩

theorem seq {f : Checked (α → α')} {g : Checked (β → β')}
    (functions : Covers (fun f g => ∀ a b, Rel a b → Rel' (f a) (g b)) f g)
    (covers : Covers Rel x y) : Covers Rel' (f <*> x) (g <*> y) := by
  intro _ applied
  obtain ⟨g, second, b, given, rfl⟩ := seq_eq_ok_iff.mp applied
  obtain ⟨f, first, each⟩ := functions g second
  obtain ⟨a, found, related⟩ := covers b given
  exact ⟨f a, seq_eq_ok_iff.mpr ⟨f, first, a, found, rfl⟩, each a b related⟩

theorem under (covers : Covers Rel x y) (step : Step) :
    Covers Rel (x.under step) (y.under step) := by
  intro b given
  obtain ⟨a, rfl, related⟩ := covers b (of_under_eq_ok given)
  exact ⟨a, rfl, related⟩

variable {V : Type} {first : V → Checked α} {second : V → Checked β}
  (each : ∀ v, Covers Rel (first v) (second v))

include each

theorem memberD (ms : List (String × V)) (names : List String) {a : α} {b : β}
    (absent : Rel a b) : Covers Rel (memberD ms names first a) (memberD ms names second b) := by
  unfold Schema.memberD member?
  cases find? ms names with
  | none => exact .ok absent
  | some m =>
    obtain ⟨name, v⟩ := m
    have found : Covers (fun a b => ∃ x y, a = some x ∧ b = some y ∧ Rel x y)
        (some <$> (first v).under (.name name)) (some <$> (second v).under (.name name)) :=
      ((each v).under _).map fun x y related => ⟨x, y, rfl, rfl, related⟩
    refine found.map ?_
    rintro _ _ ⟨x, y, rfl, rfl, related⟩
    exact related

theorem items (n : Nat) (vs : List V) :
    Covers (List.Forall₂ Rel) (items first n vs) (items second n vs) := by
  induction vs generalizing n with
  | nil => exact .ok .nil
  | cons v vs ih =>
    refine .seq (((each v).under (.index n)).map ?_) (ih (n + 1))
    intro a b related as bs rest
    exact .cons related rest

end Checked.Covers

end Cookbook.Schema
