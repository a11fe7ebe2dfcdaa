import Cookbook.Proofs.Shelf.Commit

/-!
# New ids

Ids are drawn in a row and never come twice.  As long as no row has an id that is still to be drawn,
a new row is told apart from all others by its id, so only its slug can keep it out.
-/

namespace Cookbook

theorem Instant.ofDigitChars_padded (width n : Nat) :
    Nat.ofDigitChars 10 (padded width n).toList 0 = n := by
  have zeros (k : Nat) : Nat.ofDigitChars 10 (List.replicate k '0') 0 = 0 := by
    induction k with
    | zero => rfl
    | succ k ih => rw [List.replicate_succ, Nat.ofDigitChars_cons]; exact ih
  rw [padded, String.toList_ofList, Nat.ofDigitChars_append, zeros]
  exact Nat.ofDigitChars_ten_toDigits

theorem idText_injective : Function.Injective idText := by
  intro m n same
  have digits : (Instant.padded 4 m).toList = (Instant.padded 4 n).toList := by
    simpa [idText] using congrArg String.toList same
  rw [← Instant.ofDigitChars_padded 4 m, digits, Instant.ofDigitChars_padded]

/-- Every drawn id starts in the same way, so ids from elsewhere may be told apart from them all. -/
theorem idText_not_mem {ids : List String} (start : ∀ id ∈ ids, id.toList.take 2 ≠ ['i', 'd'])
    (n : Nat) : idText n ∉ ids :=
  fun member => start _ member (by simp [idText])

namespace Shelf

/-- Ids and slugs tell the rows apart, and no row has an id that is yet to be drawn. -/
structure ToldApart (s : Shelf) : Prop where
  ids : s.Keyed
  slugs : (s.collections.map Collection.slug).Nodup
  fresh : ∀ n, s.drawn < n → idText n ∉ s.collections.map Collection.id

variable {s : Shelf}

theorem ToldApart.of_map_eq (apart : s.ToldApart) {t : Shelf}
    (ids : t.collections.map Collection.id = s.collections.map Collection.id)
    (slugs : t.collections.map Collection.slug = s.collections.map Collection.slug)
    (drawn : s.drawn ≤ t.drawn) : t.ToldApart where
  ids := by
    unfold Keyed
    rw [ids]
    exact apart.ids
  slugs := slugs ▸ apart.slugs
  fresh n later := ids ▸ apart.fresh n (drawn.trans_lt later)

/-- A row may change in everything but id and slug. -/
theorem ToldApart.put (apart : s.ToldApart) {c d : Collection} (row : c ∈ s.collections)
    (id : d.id = c.id) (slug : d.slug = c.slug) : (s.put d).ToldApart := by
  refine apart.of_map_eq (map_id_put s d) ?_ le_rfl
  rw [Shelf.put, List.map_map]
  refine List.map_congr_left fun e among => ?_
  rw [Function.comp_apply]
  split
  next same => rw [slug, List.inj_on_of_nodup_map apart.ids among row (same.trans id)]
  next => rfl

/-- Rows with new slugs and with ids that were drawn for them may be added. -/
theorem ToldApart.add (apart : s.ToldApart) {n : Nat} (later : s.drawn ≤ n) {cs : List Collection}
    (slugs : (cs.map Collection.slug).Nodup)
    (untaken : ∀ c ∈ cs, c.slug ∉ s.collections.map Collection.slug)
    (ids : (cs.map Collection.id).Nodup)
    (drawn : ∀ c ∈ cs, ∃ k, s.drawn < k ∧ k ≤ n ∧ c.id = idText k) :
    ({ s with drawn := n }.add cs).ToldApart where
  ids := by
    unfold Keyed Shelf.add
    rw [List.map_append]
    refine List.nodup_append.mpr ⟨apart.ids, ids, fun a old b new same => ?_⟩
    obtain ⟨c, among, rfl⟩ := List.mem_map.mp new
    obtain ⟨k, after, _, number⟩ := drawn c among
    exact apart.fresh k after (number ▸ same ▸ old)
  slugs := by
    unfold Shelf.add
    rw [List.map_append]
    refine List.nodup_append.mpr ⟨apart.slugs, slugs, fun a old b new same => ?_⟩
    obtain ⟨c, among, rfl⟩ := List.mem_map.mp new
    exact untaken c among (same ▸ old)
  fresh k after := by
    unfold Shelf.add
    rw [List.map_append]
    intro member
    rcases List.mem_append.mp member with old | new
    · exact apart.fresh k (later.trans_lt after) old
    · obtain ⟨c, among, same⟩ := List.mem_map.mp new
      obtain ⟨j, _, last, number⟩ := drawn c among
      have last : k ≤ n := idText_injective (number.symm.trans same) ▸ last
      exact absurd after (Nat.not_lt.mpr last)

theorem mem_of_findSlug?_eq_some {slug : String} {c : Collection}
    (found : s.findSlug? slug = some c) : c.slug = slug ∧ c ∈ s.collections :=
  ⟨by simpa using List.find?_some found, List.mem_of_find?_eq_some found⟩

theorem ToldApart.findSlug?_eq_some (apart : s.ToldApart) {c : Collection}
    (row : c ∈ s.collections) : s.findSlug? c.slug = some c := by
  cases found : s.findSlug? c.slug with
  | none => simpa using List.find?_eq_none.mp found c row
  | some d =>
    obtain ⟨same, among⟩ := mem_of_findSlug?_eq_some found
    rw [List.inj_on_of_nodup_map apart.slugs among row same]

theorem findSlug?_eq_none_iff {slug : String} :
    s.findSlug? slug = none ↔ slug ∉ s.collections.map Collection.slug := by
  simp [findSlug?]

end Shelf

namespace Action

variable {env : Surroundings} {s : Shelf}

@[simp] theorem run_drawId :
    drawId.run env s = (.ok (idText (s.drawn + 1)), { s with drawn := s.drawn + 1 }) := rfl

/-- In service new rows are added if they may be. -/
theorem run_insert (service : env.outage = none) {cs : List Collection}
    (allowed : insertable cs s = .ok ()) : (insert cs).run env s = (.ok (), s.add cs) := by
  have seen (ds : List Collection) (t : Shelf) :
      (ds.forM fun c => readBack .database c.id).run env t = (.ok (), t) := by
    induction ds with
    | nil => rfl
    | cons d ds ih =>
      change (readBack .database d.id >>= fun _ => ds.forM _).run env t = _
      rw [run_bind, run_readBack_of_service service]
      exact ih
  rw [insert, run_bind, run_commit, if_neg (by simp [service]), allowed]
  exact seen cs _

theorem insertable_eq_ok {cs : List Collection} (fits : ∀ c ∈ cs, c.FitsColumns)
    (accepts : s.Accepts cs) : insertable cs s = .ok () := by
  rw [insertable, fitting, if_pos fits, if_pos accepts]
  rfl

end Action

end Cookbook
