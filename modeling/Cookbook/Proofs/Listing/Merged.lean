import Cookbook.Proofs.Listing.Arrange
import Cookbook.Zone
import Mathlib.Data.List.Pairwise
import Mathlib.Data.List.Perm.Basic

/-!
# Merging pins into the matches

Matches are compared by the numbers of their times, the greater one first, where no time is behind
every time, and then by their ids.  Whatever the numbers are, this is a total order, so neither the
order of the matches nor their repetition has any influence on the arranged list.
-/

namespace Cookbook

namespace Ranked

variable {a b c : Ranked}

/-- The greater number stands first, no number behind every number, and then the lesser id. -/
def Precedes (a b : Ranked) : Prop :=
  match a.key, b.key with
  | some k, some l => l < k ∨ k = l ∧ a.id < b.id
  | some _, none => True
  | none, some _ => False
  | none, none => a.id < b.id

theorem Precedes.trans (first : a.Precedes b) (second : b.Precedes c) : a.Precedes c := by
  obtain ⟨i, k⟩ := a
  obtain ⟨j, l⟩ := b
  obtain ⟨h, m⟩ := c
  have lower : i < j → j < h → i < h := String.lt_trans
  cases k <;> cases l <;> cases m <;> simp only [Precedes] at * <;> grind

theorem Precedes.asymm (precedes : a.Precedes b) : ¬ b.Precedes a := by
  obtain ⟨i, k⟩ := a
  obtain ⟨j, l⟩ := b
  have lower : i < j → ¬ j < i := String.lt_asymm
  cases k <;> cases l <;> simp only [Precedes] at * <;> grind

theorem precedes_trichotomy (a b : Ranked) : a.Precedes b ∨ a = b ∨ b.Precedes a := by
  obtain ⟨i, k⟩ := a
  obtain ⟨j, l⟩ := b
  have ids : i < j ∨ i = j ∨ j < i := Std.lt_trichotomy i j
  cases k <;> cases l <;> simp only [Precedes, Ranked.mk.injEq] <;> grind

theorem precedes_of_lt (same : a.key = b.key) (lower : a.id < b.id) : a.Precedes b := by
  rw [Precedes, same]
  cases b.key with
  | none => exact lower
  | some k => exact .inr ⟨rfl, lower⟩

theorem before_iff : a.before b = true ↔ a.Precedes b ∨ a = b := by
  obtain ⟨i, k⟩ := a
  obtain ⟨j, l⟩ := b
  have le : i ≤ j ↔ i < j ∨ i = j := Std.le_iff_lt_or_eq
  cases k <;> cases l <;> grind [before, Precedes]

theorem before_trans (first : a.before b = true) (second : b.before c = true) :
    a.before c = true := by
  rw [before_iff] at *
  rcases first with first | rfl
  · rcases second with second | rfl
    · exact .inl (first.trans second)
    · exact .inl first
  · exact second

theorem before_total (a b : Ranked) : a.before b = true ∨ b.before a = true := by
  simp only [before_iff]
  rcases precedes_trichotomy a b with precedes | same | behind
  · exact .inl (.inl precedes)
  · exact .inl (.inr same)
  · exact .inr (.inl behind)

theorem before_antisymm (first : a.before b = true) (back : b.before a = true) : a = b := by
  rcases before_iff.mp first with precedes | same
  · exact (before_iff.mp back).elim (fun behind => absurd behind precedes.asymm) Eq.symm
  · exact same

theorem precedes_iff_not_before : a.Precedes b ↔ ¬ b.before a = true := by
  rw [before_iff]
  constructor
  · rintro precedes (behind | rfl)
    · exact precedes.asymm behind
    · exact precedes.asymm precedes
  · intro apart
    rcases precedes_trichotomy a b with precedes | same | behind
    · exact precedes
    · exact absurd (.inr same.symm) apart
    · exact absurd (.inl behind) apart

instance : DecidableRel Precedes := fun _ _ => decidable_of_iff _ precedes_iff_not_before.symm

theorem precedes_of_before (before : a.before b = true) (other : a.id ≠ b.id) : a.Precedes b :=
  (before_iff.mp before).resolve_right fun same => other (congrArg Ranked.id same)

end Ranked

/-- The first match of each id. -/
def firsts : List Ranked → List Ranked
  | [] => []
  | d :: ds => d :: (firsts ds).filter fun e => e.id ≠ d.id

section Firsts

variable {ds : List Ranked}

theorem map_id_firsts (ds : List Ranked) :
    (firsts ds).map Ranked.id = distinct (ds.map Ranked.id) := by
  induction ds with
  | nil => rfl
  | cons d ds ih =>
    simp only [firsts, List.map_cons, distinct, ← ih, List.filter_map]
    rfl

theorem firsts_sublist (ds : List Ranked) : (firsts ds).Sublist ds := by
  induction ds with
  | nil => exact List.Sublist.slnil
  | cons d ds ih => exact (List.filter_sublist.trans ih).cons_cons d

/-- In a sorted list the first match of an id stands before all others of that id. -/
theorem before_of_mem_firsts (sorted : ds.Pairwise fun a b => a.before b = true) {d e : Ranked}
    (first : d ∈ firsts ds) (member : e ∈ ds) (same : e.id = d.id) : d.before e = true := by
  induction ds with
  | nil => cases member
  | cons x xs ih =>
    obtain ⟨least, rest⟩ := List.pairwise_cons.mp sorted
    rcases List.mem_cons.mp first with rfl | later
    · rcases List.mem_cons.mp member with rfl | among
      · exact (Ranked.before_total e e).elim id id
      · exact least e among
    · obtain ⟨among, other⟩ := List.mem_filter.mp later
      rcases List.mem_cons.mp member with rfl | member
      · exact absurd same.symm (of_decide_eq_true other)
      · exact ih rest among member

end Firsts

section Sorted

variable {rs rs' : List Ranked}

theorem pairwise_mergeSort_before (rs : List Ranked) :
    (rs.mergeSort Ranked.before).Pairwise fun a b => a.before b = true := by
  apply pairwise_mergeSort_of_iff
  · exact Iff.rfl
  · exact Ranked.before_trans
  · exact Ranked.before_total

theorem mergeSort_before_eq_of_perm (perm : rs.Perm rs') :
    rs.mergeSort Ranked.before = rs'.mergeSort Ranked.before :=
  List.Perm.eq_of_pairwise (fun _ _ _ _ => Ranked.before_antisymm) (pairwise_mergeSort_before rs)
    (pairwise_mergeSort_before rs')
    (((List.mergeSort_perm _ _).trans perm).trans (List.mergeSort_perm _ _).symm)

/-- A strictly sorted list is what its matches are sorted to. -/
theorem mergeSort_before_eq (perm : rs.Perm rs') (strict : rs'.Pairwise Ranked.Precedes) :
    rs.mergeSort Ranked.before = rs' :=
  List.Perm.eq_of_pairwise (fun _ _ _ _ => Ranked.before_antisymm) (pairwise_mergeSort_before rs)
    (strict.imp fun precedes => Ranked.before_iff.mpr (.inl precedes))
    ((List.mergeSort_perm _ _).trans perm)

end Sorted

section Merge

variable {rs rs' : List Ranked} {pinned excluded excluded' : List String}

theorem merge_eq_append_firsts (rs : List Ranked) (pinned excluded : List String) :
    merge rs pinned excluded = (distinct pinned).filter (· ∉ excluded) ++
      ((firsts (rs.mergeSort Ranked.before)).filter fun r =>
        r.id ∉ pinned ∧ r.id ∉ excluded).map Ranked.id := by
  have wanted : (fun id => !excluded.contains id) = fun id => decide (id ∉ excluded) := by
    funext id
    simp
  have apart : ((fun r : Ranked => decide (r.id ∉ pinned ∧ r.id ∉ excluded))) =
      (fun id => decide (id ∉ pinned ∧ id ∉ excluded)) ∘ Ranked.id := rfl
  rw [merge, wanted, distinct_filter, distinct_append, List.filter_append, apart,
    ← List.filter_map, map_id_firsts, List.filter_filter]
  simp only [Bool.decide_and, Bool.and_comm]

theorem merge_eq_of_perm (perm : rs.Perm rs') (same : ∀ id, id ∈ excluded ↔ id ∈ excluded') :
    merge rs pinned excluded = merge rs' pinned excluded' := by
  have wanted : (fun id => !excluded.contains id) = fun id => !excluded'.contains id := by
    funext id
    simp [same id]
  rw [merge, merge, mergeSort_before_eq_of_perm perm, wanted]

/-- A list that is pinned whole stays as it is. -/
theorem merge_merge (rs : List Ranked) (pinned excluded : List String) :
    merge rs (merge rs pinned excluded) excluded = merge rs pinned excluded := by
  have known (id : String) : id ∈ merge rs pinned excluded → id ∉ excluded :=
    fun member => (mem_merge.mp member).2
  have nothing : (firsts (rs.mergeSort Ranked.before)).filter (fun r =>
      r.id ∉ merge rs pinned excluded ∧ r.id ∉ excluded) = [] := by
    refine List.filter_eq_nil_iff.mpr fun r first => ?_
    have matched : r ∈ rs := List.mem_mergeSort.mp ((firsts_sublist _).subset first)
    rw [decide_eq_true_eq]
    exact fun ⟨absent, wanted⟩ => absent (mem_merge.mpr ⟨.inr ⟨r, matched, rfl⟩, wanted⟩)
  rw [merge_eq_append_firsts rs (merge rs pinned excluded), nothing, List.map_nil,
    List.append_nil, distinct_eq_self (nodup_merge _ _ _),
    List.filter_eq_self.mpr fun id member => decide_eq_true (known id member)]

/-- The matches that are neither pinned nor excluded follow the pinned ids, sorted strictly and each
with the least key of its id. -/
theorem merge_eq_append_sorted (rs : List Ranked) (pinned excluded : List String) :
    ∃ rest : List Ranked,
      merge rs pinned excluded =
        (distinct pinned).filter (· ∉ excluded) ++ rest.map Ranked.id ∧
      rest.Pairwise Ranked.Precedes ∧
      ∀ r ∈ rest, r ∈ rs ∧ r.id ∉ pinned ∧ r.id ∉ excluded ∧
        ∀ q ∈ rs, q.id = r.id → ¬ q.Precedes r := by
  refine ⟨_, merge_eq_append_firsts rs pinned excluded, ?_, fun r member => ?_⟩
  · have sorted := (pairwise_mergeSort_before rs).sublist (firsts_sublist _)
    have apart : (firsts (rs.mergeSort Ranked.before)).Pairwise fun a b => a.id ≠ b.id := by
      rw [← List.pairwise_map, map_id_firsts]
      exact nodup_distinct _
    exact ((sorted.and apart).filter _).imp fun ⟨before, other⟩ =>
      Ranked.precedes_of_before before other
  · obtain ⟨first, wanted⟩ := List.mem_filter.mp member
    obtain ⟨unpinned, included⟩ := of_decide_eq_true wanted
    refine ⟨List.mem_mergeSort.mp ((firsts_sublist _).subset first), unpinned, included,
      fun q matched same earlier => ?_⟩
    exact Ranked.precedes_iff_not_before.mp earlier (before_of_mem_firsts
      (pairwise_mergeSort_before rs) first (List.mem_mergeSort.mpr matched) same)

end Merge

namespace Dated

variable {key : Instant → Attempt Int} {d e : Dated} {q r : Ranked}

/-- The match with the greater number stands first, one without a time behind every one that has a
time, and those of the same number stand in the order of their ids. -/
def Precedes (key : Instant → Attempt Int) (d e : Dated) : Prop :=
  match d.createdAt, e.createdAt with
  | some s, some t => ∃ k l, key s = .ok k ∧ key t = .ok l ∧ (l < k ∨ k = l ∧ d.id < e.id)
  | some _, none => True
  | none, some _ => False
  | none, none => d.id < e.id

theorem precedes_iff (first : d.ranked key = .ok q) (second : e.ranked key = .ok r) :
    d.Precedes key e ↔ q.Precedes r := by
  unfold Precedes
  unfold Dated.ranked at first second
  split
  next s t timed timed' =>
    rw [timed] at first
    rw [timed'] at second
    obtain ⟨k, number, rfl⟩ := Attempt.map_eq_ok_iff.mp first
    obtain ⟨l, number', rfl⟩ := Attempt.map_eq_ok_iff.mp second
    simp [Ranked.Precedes, number, number']
  next s timed untimed =>
    rw [timed] at first
    rw [untimed] at second
    obtain ⟨k, _, rfl⟩ := Attempt.map_eq_ok_iff.mp first
    obtain rfl := Except.ok.inj second
    rfl
  next t untimed timed =>
    rw [untimed] at first
    rw [timed] at second
    obtain rfl := Except.ok.inj first
    obtain ⟨l, _, rfl⟩ := Attempt.map_eq_ok_iff.mp second
    rfl
  next untimed untimed' =>
    rw [untimed] at first
    rw [untimed'] at second
    obtain rfl := Except.ok.inj first
    obtain rfl := Except.ok.inj second
    rfl

theorem exists_ranked_iff :
    (∃ r, d.ranked key = .ok r) ↔ ∀ t ∈ d.createdAt, ∃ k, key t = .ok k := by
  unfold Dated.ranked
  cases timed : d.createdAt with
  | none => simp
  | some t => simp [Attempt.map_eq_ok_iff]

theorem ranked_eq_error_iff {f : Failure} :
    d.ranked key = .error f ↔ ∃ t ∈ d.createdAt, key t = .error f := by
  unfold Dated.ranked
  cases timed : d.createdAt with
  | none => simp
  | some t => simp [Attempt.map_eq_error_iff]

end Dated

section Arranged

variable {key : Instant → Attempt Int} {base base' : List Dated} {matched : List Ranked}
  {pinned excluded excluded' ids : List String}

/-- What is said of numbered matches holds of those that have the numbers. -/
theorem exists_dated_of_subset (ranked : base.mapM (Dated.ranked key) = .ok matched)
    {rs : List Ranked} (some : ∀ r ∈ rs, r ∈ matched) :
    ∃ ds : List Dated, List.Forall₂ (fun d r => d.ranked key = .ok r) ds rs ∧ ds ⊆ base := by
  induction rs with
  | nil => exact ⟨[], .nil, List.nil_subset _⟩
  | cons r rs ih =>
    obtain ⟨first, others⟩ := List.forall_mem_cons.mp some
    obtain ⟨d, member, number⟩ := Attempt.exists_of_mem_mapM ranked first
    obtain ⟨ds, numbers, among⟩ := ih others
    exact ⟨d :: ds, .cons number numbers, List.cons_subset.mpr ⟨member, among⟩⟩

theorem exists_arrange_iff : (∃ ids, arrange key base pinned excluded = .ok ids) ↔
    ∀ d ∈ base, ∀ t ∈ d.createdAt, ∃ k, key t = .ok k := by
  simp only [← Dated.exists_ranked_iff]
  constructor
  · rintro ⟨ids, arranged⟩ d member
    obtain ⟨matched, ranked, _⟩ := arrange_eq_ok_iff.mp arranged
    exact (Attempt.exists_of_mem ranked member).imp fun _ => And.right
  · intro each
    obtain ⟨matched, ranked⟩ := Attempt.exists_mapM each
    exact ⟨_, arrange_eq_ok_iff.mpr ⟨matched, ranked, rfl⟩⟩

theorem arrange_eq_error_iff {f : Failure} : arrange key base pinned excluded = .error f ↔
    ∃ earlier d later, base = earlier ++ d :: later ∧
      (∀ e ∈ earlier, ∀ t ∈ e.createdAt, ∃ k, key t = .ok k) ∧
      ∃ t ∈ d.createdAt, key t = .error f := by
  have whole : arrange key base pinned excluded = .error f ↔
      base.mapM (Dated.ranked key) = .error f := by
    rw [arrange, Attempt.bind_eq_error_iff]
    simp
  simp only [whole, Attempt.mapM_eq_error_iff, Dated.exists_ranked_iff, Dated.ranked_eq_error_iff]

theorem arrange_eq_ok_of_perm (arranged : arrange key base pinned excluded = .ok ids)
    (perm : base.Perm base') (same : ∀ id, id ∈ excluded ↔ id ∈ excluded') :
    arrange key base' pinned excluded' = .ok ids := by
  obtain ⟨matched, ranked, rfl⟩ := arrange_eq_ok_iff.mp arranged
  obtain ⟨matched', ranked', perm'⟩ :=
    List.perm_comp_forall₂ perm.symm (Attempt.mapM_eq_ok_iff.mp ranked)
  exact arrange_eq_ok_iff.mpr
    ⟨matched', Attempt.mapM_eq_ok_iff.mpr ranked', (merge_eq_of_perm perm'.symm same).symm⟩

theorem arrange_whole (arranged : arrange key base pinned excluded = .ok ids) :
    arrange key base ids excluded = .ok ids := by
  obtain ⟨matched, ranked, rfl⟩ := arrange_eq_ok_iff.mp arranged
  exact arrange_eq_ok_iff.mpr ⟨matched, ranked, merge_merge matched pinned excluded⟩

theorem eq_append_sorted_of_arrange_eq_ok (arranged : arrange key base pinned excluded = .ok ids) :
    ∃ rest : List Dated,
      ids = (distinct pinned).filter (· ∉ excluded) ++ rest.map Dated.id ∧
      rest.Pairwise (Dated.Precedes key) ∧
      ∀ d ∈ rest, d ∈ base ∧ d.id ∉ pinned ∧ d.id ∉ excluded ∧
        ∀ e ∈ base, e.id = d.id → ¬ e.Precedes key d := by
  obtain ⟨matched, ranked, rfl⟩ := arrange_eq_ok_iff.mp arranged
  obtain ⟨rest, parts, sorted, least⟩ := merge_eq_append_sorted matched pinned excluded
  obtain ⟨ds, numbers, among⟩ := exists_dated_of_subset ranked fun r member => (least r member).1
  have names := Dated.map_id_eq_of_mapM_eq_ok (Attempt.mapM_eq_ok_iff.mpr numbers)
  refine ⟨ds, names ▸ parts, ?_, fun d member => ?_⟩
  · clear parts names least among
    induction numbers with
    | nil => exact .nil
    | cons first others ih =>
      obtain ⟨least, sorted⟩ := List.pairwise_cons.mp sorted
      refine .cons (fun e member => ?_) (ih sorted)
      obtain ⟨r, other, number⟩ := Attempt.exists_of_mem (Attempt.mapM_eq_ok_iff.mpr others) member
      exact (Dated.precedes_iff first number).mpr (least r other)
  · obtain ⟨r, other, number⟩ := Attempt.exists_of_mem (Attempt.mapM_eq_ok_iff.mpr numbers) member
    obtain ⟨_, unpinned, included, least⟩ := least r other
    have name := Dated.id_eq_of_ranked_eq_ok number
    refine ⟨among member, name ▸ unpinned, name ▸ included, fun e matching same precedes => ?_⟩
    obtain ⟨q, matched, number'⟩ := Attempt.exists_of_mem ranked matching
    exact least q matched (Dated.id_eq_of_ranked_eq_ok number' ▸ same ▸ name.symm)
      ((Dated.precedes_iff number' number).mp precedes)

/-- There is a list if every time among the matches has a number, and else the first time that has
none is what is told.  A list has each id once that is pinned or matched and not excluded: first the
pinned ones in the order in which they were first pinned, then the other matches, sorted strictly,
each where its foremost match belongs.  The order of the matches and of the excluded ids has no
influence, and a list that is pinned whole is arranged as it is. -/
theorem arrange_exact (key : Instant → Attempt Int) (base : List Dated)
    (pinned excluded : List String) :
    ((∃ ids, arrange key base pinned excluded = .ok ids) ↔
      ∀ d ∈ base, ∀ t ∈ d.createdAt, ∃ k, key t = .ok k) ∧
    (∀ f, arrange key base pinned excluded = .error f ↔
      ∃ earlier d later, base = earlier ++ d :: later ∧
        (∀ e ∈ earlier, ∀ t ∈ e.createdAt, ∃ k, key t = .ok k) ∧
        ∃ t ∈ d.createdAt, key t = .error f) ∧
    ∀ ids, arrange key base pinned excluded = .ok ids →
      ids.Nodup ∧
      (∀ id, id ∈ ids ↔ (id ∈ pinned ∨ ∃ d ∈ base, d.id = id) ∧ id ∉ excluded) ∧
      (∃ rest : List Dated,
        ids = (distinct pinned).filter (· ∉ excluded) ++ rest.map Dated.id ∧
        rest.Pairwise (Dated.Precedes key) ∧
        ∀ d ∈ rest, d ∈ base ∧ d.id ∉ pinned ∧ d.id ∉ excluded ∧
          ∀ e ∈ base, e.id = d.id → ¬ e.Precedes key d) ∧
      (∀ base' excluded', base.Perm base' → (∀ id, id ∈ excluded ↔ id ∈ excluded') →
        arrange key base' pinned excluded' = .ok ids) ∧
      arrange key base ids excluded = .ok ids :=
  ⟨exists_arrange_iff, fun _ => arrange_eq_error_iff, fun _ arranged =>
    ⟨nodup_of_arrange_eq_ok arranged, fun _ => mem_of_arrange_eq_ok arranged,
      eq_append_sorted_of_arrange_eq_ok arranged,
      fun _ _ perm same => arrange_eq_ok_of_perm arranged perm same, arrange_whole arranged⟩⟩

/-- A match comes twice, two have the same time, and another has none. -/
def buffet : List Dated :=
  [⟨"soup", some ⟨1000000⟩⟩, ⟨"stew", none⟩, ⟨"rice", some ⟨3000000⟩⟩, ⟨"soup", some ⟨4000000⟩⟩,
    ⟨"fish", some ⟨3000000⟩⟩, ⟨"cake", some ⟨2000000⟩⟩]

theorem arrange_exact_buffet :
    arrange Zone.utc.key? buffet ["jam", "cake", "jam", "tea"] ["tea", "egg"] =
      .ok ["jam", "cake", "soup", "fish", "rice", "stew"] ∧
    buffet.Perm buffet.reverse ∧
    arrange Zone.utc.key? buffet.reverse ["jam", "cake", "jam", "tea"] ["egg", "tea"] =
      .ok ["jam", "cake", "soup", "fish", "rice", "stew"] := by
  let numbered (d : Dated) : Ranked := ⟨d.id, d.createdAt.bind fun t => (Zone.utc.key? t).toOption⟩
  have ranked : buffet.mapM (Dated.ranked Zone.utc.key?) = .ok (buffet.map numbered) := by
    decide +kernel
  have sorted : (buffet.map numbered).mergeSort Ranked.before =
      [numbered ⟨"soup", some ⟨4000000⟩⟩, numbered ⟨"fish", some ⟨3000000⟩⟩,
        numbered ⟨"rice", some ⟨3000000⟩⟩, numbered ⟨"cake", some ⟨2000000⟩⟩,
        numbered ⟨"soup", some ⟨1000000⟩⟩, numbered ⟨"stew", none⟩] :=
    mergeSort_before_eq (by decide +kernel) (by decide +kernel)
  have merged : merge (buffet.map numbered) ["jam", "cake", "jam", "tea"] ["tea", "egg"] =
      ["jam", "cake", "soup", "fish", "rice", "stew"] := by
    rw [merge, sorted]
    decide
  have arranged := arrange_eq_ok_iff.mpr ⟨_, ranked, merged⟩
  have perm : buffet.Perm buffet.reverse := (List.reverse_perm buffet).symm
  have unordered := ((arrange_exact Zone.utc.key? buffet ["jam", "cake", "jam", "tea"]
    ["tea", "egg"]).2.2 _ arranged).2.2.2.1
  refine ⟨arranged, perm, unordered buffet.reverse ["egg", "tea"] perm fun id => ?_⟩
  simp [or_comm]

/-- The first day of all has no number: what clocks show a day before it has no year. -/
theorem arrange_firstDay_fails :
    arrange Zone.utc.key? [⟨"a", some ⟨-62135596800000000⟩⟩] [] [] =
      .error (.value "year 0 is out of range") := by
  decide +kernel

end Arranged

end Cookbook
