import Cookbook.Schema.Readers

/-!
# What is read

A reading that succeeds tells what it was read from: a record all of its parts, a part that may be
left out whether it was there, a text or a list of texts the value itself.  One that fails has an
issue to tell of.
-/

namespace Cookbook.Schema

variable {α β : Type} {read : Shape α}

theorem Checked.map_eq_ok_iff {x : Checked α} {f : α → β} {b : β} :
    f <$> x = .ok b ↔ ∃ a, x = .ok a ∧ f a = b := by
  change x.map f = .ok b ↔ _
  cases x <;> simp [Checked.map]

theorem Checked.seq_eq_ok_iff {f : Checked (α → β)} {x : Checked α} {b : β} :
    f <*> x = .ok b ↔ ∃ g, f = .ok g ∧ ∃ a, x = .ok a ∧ g a = b := by
  change f.apply x = .ok b ↔ _
  cases f <;> cases x <;> simp [Checked.apply]

theorem Checked.of_under_eq_ok {step : Step} {x : Checked α} {a : α}
    (found : x.under step = .ok a) : x = .ok a := by
  cases x with
  | ok b => exact found
  | bad is => cases found

/-- There is a value or something is wrong. -/
def Checked.Explained (x : Checked α) : Prop := x ≠ .bad []

namespace Checked.Explained

variable {x : Checked α}

theorem ok (a : α) : (Checked.ok a).Explained := nofun

theorem fault (f : Fault) : (Checked.fault f : Checked α).Explained := nofun

theorem map (explained : x.Explained) (f : α → β) : (x.map f).Explained := by
  cases x with
  | ok a => exact ok (f a)
  | bad is => simpa [Explained, Checked.map] using explained

theorem apply {f : Checked (α → β)} (left : f.Explained) (right : x.Explained) :
    (f.apply x).Explained := by
  cases f <;> cases x <;> simp_all [Explained, Checked.apply]

theorem under (explained : x.Explained) (step : Step) : (x.under step).Explained := by
  cases x with
  | ok a => exact ok a
  | bad is => simpa [Explained, Checked.under] using explained

end Checked.Explained

theorem explained_text (j : Json) : (text j).Explained := by
  cases j with
  | str s => exact .ok s
  | _ => exact .fault _

section

variable (explains : ∀ j, (read j).Explained)
include explains

theorem explained_optional (j : Json) : (optional read j).Explained := by
  cases j with
  | null => exact .ok none
  | _ => exact (explains _).map some

theorem explained_items (n : Nat) (js : List Json) : (items read n js).Explained := by
  induction js generalizing n with
  | nil => exact .ok []
  | cons j js ih => exact (((explains j).under (.index n)).map List.cons).apply (ih (n + 1))

theorem explained_list (j : Json) : (list read j).Explained := by
  cases j with
  | arr js => exact explained_items explains 0 js
  | _ => exact .fault _

theorem explained_member? (ms : Members) (names : List String) :
    (member? ms names read).Explained := by
  unfold member?
  split
  next n j _ => exact ((explains j).under (.name n)).map some
  next => exact .ok none

theorem explained_memberD (ms : Members) (names : List String) (default : α) :
    (memberD ms names read default).Explained :=
  (explained_member? explains ms names).map _

end

section

variable {V : Type} {read : V → Checked α} {ms : List (String × V)} {names : List String}

/-- The value under the first of the names that is there. -/
def given? (ms : List (String × V)) (names : List String) : Option V :=
  (find? ms names).map Prod.snd

theorem of_member?_eq_ok {o : Option α} (requested : member? ms names read = .ok o) :
    (given? ms names = none ∧ o = none) ∨
      ∃ v a, given? ms names = some v ∧ read v = .ok a ∧ o = some a := by
  unfold member? at requested
  unfold given?
  split at requested
  next n v found =>
    obtain ⟨a, readAs, rfl⟩ := Checked.map_eq_ok_iff.mp requested
    exact .inr ⟨v, a, by simp [found], Checked.of_under_eq_ok readAs, rfl⟩
  next absent =>
    cases requested
    exact .inl ⟨by simp [absent], rfl⟩

/-- A property that every value read has, and the one that stands for an absent value. -/
theorem of_memberD_eq_ok {P : α → Prop} {default a : α} (holds : ∀ v a, read v = .ok a → P a)
    (otherwise : P default) (found : memberD ms names read default = .ok a) : P a := by
  obtain ⟨o, member, rfl⟩ := Checked.map_eq_ok_iff.mp found
  rcases of_member?_eq_ok member with ⟨_, rfl⟩ | ⟨v, a, _, readAs, rfl⟩
  · exact otherwise
  · exact holds v a readAs

theorem Readers.le_of_atLeast_eq_ok {w : Readers V} {bound n : Int} {v : V}
    (readAs : w.atLeast bound v = .ok n) : bound ≤ n := by
  unfold Readers.atLeast at readAs
  cases found : w.whole v with
  | bad is =>
    rw [found] at readAs
    cases readAs
  | ok m =>
    rw [found, Checked.andThen] at readAs
    split at readAs
    · cases readAs
    next reached =>
      cases readAs
      omega

end

theorem of_optional_eq_ok {j : Json} {o : Option α}
    (readAs : optional read j = .ok o) :
    (j = .null ∧ o = none) ∨ (j ≠ .null ∧ ∃ a, read j = .ok a ∧ o = some a) := by
  unfold optional at readAs
  split at readAs
  next =>
    cases readAs
    exact .inl ⟨rfl, rfl⟩
  next present =>
    obtain ⟨a, given, rfl⟩ := Checked.map_eq_ok_iff.mp readAs
    exact .inr ⟨present, a, given, rfl⟩

theorem of_text_eq_ok {j : Json} {s : String} (readAs : text j = .ok s) : j = .str s := by
  cases j with
  | str t => cases readAs; rfl
  | _ => cases readAs

theorem of_items_text_eq_ok {js : List Json} {n : Nat} {ss : List String}
    (readAs : items text n js = .ok ss) : js = ss.map .str := by
  induction js generalizing n ss with
  | nil =>
    cases readAs
    rfl
  | cons j js ih =>
    obtain ⟨_, first, rest, others, rfl⟩ := Checked.seq_eq_ok_iff.mp readAs
    obtain ⟨s, head, rfl⟩ := Checked.map_eq_ok_iff.mp first
    rw [of_text_eq_ok (Checked.of_under_eq_ok head), ih others, List.map_cons]

theorem of_list_text_eq_ok {j : Json} {ss : List String} (readAs : list text j = .ok ss) :
    j = .texts ss := by
  cases j with
  | arr js => rw [of_items_text_eq_ok readAs, Json.texts]
  | _ => cases readAs

theorem items_map {write : β → Json} {f : β → α}
    (readBack : ∀ b, read (write b) = .ok (f b)) (bs : List β) (n : Nat) :
    items read n (bs.map write) = .ok (bs.map f) := by
  induction bs generalizing n with
  | nil => rfl
  | cons b bs ih =>
    rw [List.map_cons, items, readBack, ih]
    rfl

theorem memberD_of_find? {ms : Members} {names : List String} {name : String} {j : Json}
    {default a : α} (found : find? ms names = some (name, j)) (readAs : read j = .ok a) :
    memberD ms names read default = .ok a := by
  simp [memberD, member?, found, readAs, Checked.under, Checked.map]

end Cookbook.Schema
