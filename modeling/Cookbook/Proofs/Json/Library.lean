import Cookbook.Json.Library
import Cookbook.Proofs.Json.ReadBack

/-!
# What a library of JSON keeps

Whatever is within its bounds is written and read again as it was, but for the numbers that JSON
cannot write, and a text of anything else is refused.  The library here has this of its bounds.
-/

namespace Cookbook.Json

mutual

theorem nesting_writable : ∀ j : Json, j.writable.nesting = j.nesting
  | null | bool _ | str _ => rfl
  | num n => by
    rw [writable]
    split <;> rfl
  | arr xs => by
    rw [writable, nesting, nesting, nestingOfItems_writable xs]
  | obj ms => by
    rw [writable, nesting, nesting, nestingOfMembers_writable ms]

theorem nestingOfItems_writable : ∀ xs : List Json,
    nestingOfItems (writableItems xs) = nestingOfItems xs
  | [] => rfl
  | x :: xs => by
    rw [writableItems, nestingOfItems, nestingOfItems, nesting_writable x,
      nestingOfItems_writable xs]

theorem nestingOfMembers_writable : ∀ ms : Members,
    nestingOfMembers (writableMembers ms) = nestingOfMembers ms
  | [] => rfl
  | (_, x) :: ms => by
    rw [writableMembers, nestingOfMembers, nestingOfMembers, nesting_writable x,
      nestingOfMembers_writable ms]

end

mutual

theorem scalars_writable : ∀ j : Json, j.writable.scalars = j.scalars.map writable
  | null | bool _ | str _ => rfl
  | num n => by
    change (num n).writable.scalars = [(num n).writable]
    rw [writable]
    split <;> rfl
  | arr xs => by
    rw [writable, scalars, scalars, scalarsOfItems_writable xs]
  | obj ms => by
    rw [writable, scalars, scalars, scalarsOfMembers_writable ms]

theorem scalarsOfItems_writable : ∀ xs : List Json,
    scalarsOfItems (writableItems xs) = (scalarsOfItems xs).map writable
  | [] => rfl
  | x :: xs => by
    rw [writableItems, scalarsOfItems, scalarsOfItems, List.map_append, scalars_writable x,
      scalarsOfItems_writable xs]

theorem scalarsOfMembers_writable : ∀ ms : Members,
    scalarsOfMembers (writableMembers ms) = (scalarsOfMembers ms).map writable
  | [] => rfl
  | (k, x) :: ms => by
    rw [writableMembers, scalarsOfMembers, scalarsOfMembers, List.map_cons, List.map_append,
      scalars_writable x, scalarsOfMembers_writable ms]
    rfl

end

variable {b : Bounds} {j : Json}

theorem takes_writable : b.Takes j.writable ↔ b.Takes j := by
  cases j with
  | num n =>
    rw [writable]
    split
    next => rfl
    next endless =>
      cases n with
      | int n => exact absurd rfl endless
      | float x => rfl
  | _ => rfl

theorem within_writable : j.writable.Within b ↔ j.Within b := by
  rw [Within, Within, nesting_writable, scalars_writable, List.forall_mem_map]
  simp only [takes_writable]

namespace Library

/-- What is relied on of a library. -/
structure Keeps (lib : Library) (b : Bounds) : Prop where
  writes : ∀ j : Json, j.WellFormed → j.Within b → ∃ s, lib.write j = .ok s
  /-- There is `null` for a number that JSON cannot write. -/
  reads : ∀ (j : Json) (s : String), j.WellFormed → lib.write j = .ok s → j.Within b →
    lib.read s = .ok j.writable
  refuses : ∀ (j : Json) (s : String), j.WellFormed → lib.write j = .ok s → ¬ j.Within b →
    ∃ is, lib.read s = .bad is

theorem eq_of_write_standard {s : String} (written : standard.write j = .ok s) :
    s = j.text compact := by
  simp only [standard] at written
  split at written
  next => exact (Except.ok.inj written).symm
  next => cases written

theorem keeps_standard : standard.Keeps .standard where
  writes j _ within := ⟨j.text compact, if_pos (within.1.trans (by decide))⟩
  reads := by
    intro j s wellFormed written within
    obtain rfl := eq_of_write_standard written
    simp only [standard, ofText?_compact wellFormed]
    exact if_pos (within_writable.mpr within)
  refuses := by
    intro j s wellFormed written beyond
    obtain rfl := eq_of_write_standard written
    simp only [standard, ofText?_compact wellFormed]
    exact ⟨_, if_neg fun within => beyond (within_writable.mp within)⟩

end Library

end Cookbook.Json
