import Cookbook.Distinct
import Cookbook.Proofs.Json.ReadBack
import Mathlib.Data.List.Nodup
import Mathlib.Data.List.Perm.Subperm

/-!
# Equal values have one text

The canonical text writes the members of every object by name.  It is the text, as it stands, of the
value with its members put in that order, and is read back as that.  So two values have one
canonical text if and only if they are the same tree: the order of members is all that it forgets.
-/

namespace Cookbook

/-- Of keys that stand once each the order of a list does not show after sorting. -/
theorem mergeSort_key_eq_iff_perm {β : Type} {key : β → String} {xs ys : List β}
    (once : (xs.map key).Nodup) :
    (xs.mergeSort fun a b => decide (key a ≤ key b)) =
      (ys.mergeSort fun a b => decide (key a ≤ key b)) ↔ xs.Perm ys := by
  have left := List.mergeSort_perm xs fun a b => decide (key a ≤ key b)
  have right := List.mergeSort_perm ys fun a b => decide (key a ≤ key b)
  constructor
  · intro same
    rw [same] at left
    exact left.symm.trans right
  · intro perm
    have both := (left.trans perm).trans right.symm
    refine List.Perm.eq_of_pairwise (fun a b first second le ge => ?_)
      (pairwise_mergeSort_key key xs) (pairwise_mergeSort_key key ys) both
    have first := left.mem_iff.mp first
    have second := perm.mem_iff.mpr (right.mem_iff.mp second)
    exact List.inj_on_of_nodup_map once first second (String.le_antisymm le ge)

namespace Json

mutual

/-- Equal values, in whatever order their objects have their members.  Whole numbers, others, truth
values, texts and `null` are told apart. -/
def sameTree : Json → Json → Bool
  | null, null => true
  | bool a, bool b => a == b
  | num m, num n => m == n
  | str s, str t => s == t
  | arr xs, arr ys => sameTrees xs ys
  | obj ms, obj ns => ms.length == ns.length && among ms ns
  | _, _ => false

def sameTrees : List Json → List Json → Bool
  | [], [] => true
  | x :: xs, y :: ys => x.sameTree y && sameTrees xs ys
  | _, _ => false

/-- Each of the members is the same tree as one of the others that has its name. -/
def among : Members → Members → Bool
  | [], _ => true
  | (k, x) :: ms, ns => ns.any (fun n => n.1 == k && x.sameTree n.2) && among ms ns

end

mutual

/-- The value with the members of every object by name. -/
def arranged : Json → Json
  | arr xs => arr (arrangedItems xs)
  | obj ms => obj ((arrangedMembers ms).mergeSort fun m n => decide (m.1 ≤ n.1))
  | j => j

def arrangedItems : List Json → List Json
  | [] => []
  | x :: xs => x.arranged :: arrangedItems xs

def arrangedMembers : Members → Members
  | [] => []
  | (k, x) :: ms => (k, x.arranged) :: arrangedMembers ms

end

theorem arrangedMembers_eq_map (ms : Members) :
    arrangedMembers ms = ms.map fun m => (m.1, m.2.arranged) := by
  induction ms with
  | nil => rfl
  | cons m ms ih => rw [arrangedMembers, ih, List.map_cons]

theorem map_fst_arrangedMembers (ms : Members) :
    (arrangedMembers ms).map Prod.fst = ms.map Prod.fst := by
  rw [arrangedMembers_eq_map, List.map_map]
  rfl

section Faithful

variable {style : Style}

theorem itemsFaithful_iff {xs : List Json} :
    ItemsFaithful style xs ↔ ∀ x ∈ xs, x.Faithful style := by
  induction xs with
  | nil => simp [ItemsFaithful]
  | cons x xs ih => simp [ItemsFaithful, ih]

theorem membersFaithful_iff {ms : Members} :
    MembersFaithful style ms ↔ ∀ m ∈ ms, m.2.Faithful style := by
  induction ms with
  | nil => simp [MembersFaithful]
  | cons m ms ih => simp [MembersFaithful, ih]

mutual

/-- A style that can write a value can write it in order. -/
theorem Faithful.arranged : ∀ {j : Json}, j.Faithful style → j.arranged.Faithful style
  | null, _ | bool _, _ | str _, _ => trivial
  | num _, spells => spells
  | arr _, items => ItemsFaithful.arranged items
  | obj ms, ⟨distinct, members⟩ => by
    have perm := List.mergeSort_perm (arrangedMembers ms) fun m n => decide (m.1 ≤ n.1)
    constructor
    · rw [(perm.map Prod.fst).nodup_iff, map_fst_arrangedMembers]
      exact distinct
    · rw [membersFaithful_iff]
      exact fun m part => membersFaithful_iff.mp (MembersFaithful.arranged members) m
        (perm.mem_iff.mp part)

theorem ItemsFaithful.arranged :
    ∀ {xs : List Json}, ItemsFaithful style xs → ItemsFaithful style (arrangedItems xs)
  | [], _ => trivial
  | _ :: _, ⟨first, others⟩ => ⟨first.arranged, others.arranged⟩

theorem MembersFaithful.arranged :
    ∀ {ms : Members}, MembersFaithful style ms → MembersFaithful style (arrangedMembers ms)
  | [], _ => trivial
  | (_, _) :: _, ⟨first, others⟩ => ⟨first.arranged, others.arranged⟩

end

theorem perm_iff_length_eq_and_subset {α : Type} {xs ys : List α} (once : xs.Nodup) :
    xs.Perm ys ↔ xs.length = ys.length ∧ xs ⊆ ys :=
  ⟨fun perm => ⟨perm.length_eq, perm.subset⟩,
    fun ⟨same, subset⟩ => (List.subperm_of_subset once subset).perm_of_length_le same.ge⟩

mutual

/-- Two values are the same in order if and only if they are the same tree. -/
theorem arranged_eq_iff_sameTree : ∀ x y : Json, x.Faithful style → y.Faithful style →
    (x.arranged = y.arranged ↔ x.sameTree y = true)
  | null, y, _, _ => by cases y <;> simp [arranged, sameTree]
  | bool _, y, _, _ => by cases y <;> simp [arranged, sameTree]
  | num _, y, _, _ => by cases y <;> simp [arranged, sameTree]
  | str _, y, _, _ => by cases y <;> simp [arranged, sameTree]
  | arr xs, y, left, right => by
    cases y with
    | arr ys => simp [arranged, sameTree, arrangedItems_eq_iff_sameTrees xs ys left right]
    | _ => simp [arranged, sameTree]
  | obj ms, y, ⟨distinct, left⟩, right => by
    cases y with
    | obj ns =>
      have once : ((arrangedMembers ms).map Prod.fst).Nodup := by
        rwa [map_fst_arrangedMembers]
      rw [arranged, arranged, obj.injEq, mergeSort_key_eq_iff_perm once,
        perm_iff_length_eq_and_subset (List.Nodup.of_map Prod.fst once), sameTree, Bool.and_eq_true,
        beq_iff_eq, arrangedMembers_subset_iff_among ms ns left right.2, arrangedMembers_eq_map,
        arrangedMembers_eq_map, List.length_map, List.length_map]
    | _ => simp [arranged, sameTree]

theorem arrangedItems_eq_iff_sameTrees : ∀ xs ys : List Json, ItemsFaithful style xs →
    ItemsFaithful style ys → (arrangedItems xs = arrangedItems ys ↔ sameTrees xs ys = true)
  | [], ys, _, _ => by cases ys <;> simp [arrangedItems, sameTrees]
  | x :: xs, ys, ⟨first, others⟩, right => by
    cases ys with
    | nil => simp [arrangedItems, sameTrees]
    | cons y ys =>
      simp [arrangedItems, sameTrees, arranged_eq_iff_sameTree x y first right.1,
        arrangedItems_eq_iff_sameTrees xs ys others right.2]

theorem arrangedMembers_subset_iff_among : ∀ ms ns : Members, MembersFaithful style ms →
    MembersFaithful style ns → (arrangedMembers ms ⊆ arrangedMembers ns ↔ among ms ns = true)
  | [], ns, _, _ => by simp [arrangedMembers, among]
  | (k, x) :: ms, ns, ⟨first, others⟩, right => by
    have named : (k, x.arranged) ∈ arrangedMembers ns ↔
        ∃ n ∈ ns, (n.1 == k && x.sameTree n.2) = true := by
      rw [arrangedMembers_eq_map, List.mem_map]
      refine exists_congr fun n => and_congr_right fun part => ?_
      have faithful := membersFaithful_iff.mp right n part
      rw [Prod.mk.injEq, Bool.and_eq_true, beq_iff_eq, eq_comm (a := n.2.arranged),
        arranged_eq_iff_sameTree x n.2 first faithful]
    rw [arrangedMembers, List.cons_subset, named,
      arrangedMembers_subset_iff_among ms ns others right, among, Bool.and_eq_true,
      List.any_eq_true]

end

end Faithful

section Canonical

/-- The canonical style but for the order of members. -/
def unsorted : Style := { canonical with sorted := false }

theorem legible_unsorted : unsorted.Legible where
  unsorted := rfl
  comma := (Token.readsAs_mark rfl).append fun _ => Token.lex?_cons rfl
  commaParts := ⟨',', [' '], rfl, rfl⟩
  colon := (Token.readsAs_mark rfl).append fun _ => Token.lex?_cons rfl

theorem memberTexts_eq_map (style : Style) (ms : Members) :
    memberTexts style ms = ms.map fun m => (m.1, m.2.text style) := by
  induction ms with
  | nil => rfl
  | cons m ms ih => rw [memberTexts, ih, List.map_cons]

mutual

/-- The canonical text is the text of the value in order. -/
theorem text_canonical : ∀ j : Json, j.text canonical = j.arranged.text unsorted
  | null | bool true | bool false | str _ => rfl
  | num n => rfl
  | arr xs => by
    rw [arranged, text, text, itemTexts_canonical xs]
    rfl
  | obj ms => by
    have sorted : ordered canonical (memberTexts canonical ms) = ordered unsorted
        (memberTexts unsorted ((arrangedMembers ms).mergeSort fun m n => decide (m.1 ≤ n.1))) := by
      rw [memberTexts_canonical ms, memberTexts_eq_map, memberTexts_eq_map]
      exact (List.map_mergeSort (f := fun m : String × Json => (m.1, text unsorted m.2))
        fun _ _ _ _ => rfl).symm
    rw [arranged, text, text, sorted]
    rfl

theorem itemTexts_canonical : ∀ xs : List Json,
    itemTexts canonical xs = itemTexts unsorted (arrangedItems xs)
  | [] => rfl
  | x :: xs => by
    rw [itemTexts, arrangedItems, itemTexts, text_canonical x, itemTexts_canonical xs]

theorem memberTexts_canonical : ∀ ms : Members,
    memberTexts canonical ms = memberTexts unsorted (arrangedMembers ms)
  | [] => rfl
  | (k, x) :: ms => by
    rw [memberTexts, arrangedMembers, memberTexts, text_canonical x, memberTexts_canonical ms]

end

/-- Values that JSON can write have one canonical text if and only if they are the same tree. -/
theorem text_canonical_eq_iff {x y : Json} (left : x.Faithful unsorted)
    (right : y.Faithful unsorted) : x.text canonical = y.text canonical ↔ x.sameTree y = true := by
  rw [← arranged_eq_iff_sameTree x y left right, text_canonical, text_canonical]
  refine ⟨fun same => ?_, congrArg (text unsorted)⟩
  have read := ofText?_text legible_unsorted left.arranged
  rw [same, ofText?_text legible_unsorted right.arranged] at read
  exact (Option.some.inj read).symm

end Canonical

end Json

end Cookbook
