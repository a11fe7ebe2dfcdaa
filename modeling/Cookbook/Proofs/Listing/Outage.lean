import Cookbook.Collection.Basic
import Cookbook.Proofs.Query.Matches

/-!
# Listings during an outage

An outage can only keep the record store from answering.  What it answers all the same is what it
answers with everything in service, so a listing taken during an outage is the right one.
-/

namespace Cookbook

namespace Attempt

variable {α β : Type}

/-- Whatever the first attempt answers, the second answers too. -/
def Extends (x y : Attempt α) : Prop := ∀ a, x = .ok a → y = .ok a

namespace Extends

theorem refl (x : Attempt α) : Extends x x := fun _ answered => answered

theorem bind {x y : Attempt α} {f g : α → Attempt β} (first : Extends x y)
    (next : ∀ a, Extends (f a) (g a)) : Extends (x >>= f) (y >>= g) := by
  intro b answered
  obtain ⟨a, inner, outer⟩ := bind_eq_ok_iff.mp answered
  exact bind_eq_ok_iff.mpr ⟨a, first a inner, next a b outer⟩

theorem map {x y : Attempt α} (f : α → β) (extended : Extends x y) :
    Extends (x.map f) (y.map f) := by
  intro b answered
  obtain ⟨a, inner, outer⟩ := map_eq_ok_iff.mp answered
  exact map_eq_ok_iff.mpr ⟨a, extended a inner, outer⟩

theorem mapM {f g : α → Attempt β} (each : ∀ a, Extends (f a) (g a)) (as : List α) :
    Extends (as.mapM f) (as.mapM g) := by
  induction as with
  | nil => exact refl _
  | cons a as ih =>
    rw [List.mapM_cons, List.mapM_cons]
    exact bind (each a) fun _ => bind ih fun _ => refl _

end Extends

end Attempt

namespace Store

open Attempt

variable {α : Type} (s : Store)

def restored : Store := { s with down := none }

theorem refusal_restored {v : Parameter} (taken : s.refusal v = none) :
    s.restored.refusal v = none := by
  cases v with
  | number n => exact taken
  | text t => rfl

theorem serve_extends (op : Operation) (values : List Parameter) (answer : α) :
    Extends (s.serve op values answer) (s.restored.serve op values answer) := by
  intro found served
  obtain ⟨_, taken, rfl⟩ := serve_eq_ok_iff.mp served
  exact serve_eq_ok_iff.mpr ⟨nofun, fun v value => s.refusal_restored (taken v value), rfl⟩

theorem existingIds_extends (k : EntityKind) (ids : List String) :
    Extends (s.existingIds k ids) (s.restored.existingIds k ids) := by
  unfold existingIds
  split
  · exact .refl _
  · exact s.serve_extends _ _ _

theorem statusOf_extends (ids : List String) :
    Extends (s.statusOf ids) (s.restored.statusOf ids) := by
  unfold statusOf
  split
  · exact .refl _
  · exact s.serve_extends _ _ _

theorem checkReferences_extends (references : EntityKind → List String) :
    Extends (s.checkReferences references) (s.restored.checkReferences references) := by
  refine Extends.bind (Extends.mapM (fun k => ?_) _) fun _ => .refl _
  exact (s.existingIds_extends k _).bind fun _ => .refl _

theorem evaluate_extends (p : Predicate) (excluded : List String) :
    Extends (s.evaluate p excluded) (s.restored.evaluate p excluded) :=
  (s.serve_extends _ _ _).map _

theorem pinnedStatuses_extends (ids : List String) :
    Extends (s.pinnedStatuses ids) (s.restored.pinnedStatuses ids) :=
  (s.statusOf_extends ids).bind fun _ => .refl _

theorem listing_extends (r : Rule) (ctx : Context) :
    Extends (s.listing r ctx) (s.restored.listing r ctx) := by
  refine (s.checkReferences_extends _).bind fun _ => ?_
  refine (s.evaluate_extends _ _).bind fun base => ?_
  exact (s.pinnedStatuses_extends _).bind fun _ => (Extends.refl _).bind fun _ => .refl _

/-- The listing of a collection that is answered during an outage is the one without it. -/
theorem currentListing_extends (c : Collection) :
    Extends (s.currentListing c) (s.restored.currentListing c) := by
  unfold currentListing
  cases Rule.ofJson c.rules with
  | ok r => exact s.listing_extends r c.context
  | error ps => exact .refl _

end Store

end Cookbook
