import Cookbook.Proofs.Shelf.Follows

/-!
# Failures that callers are not told about

What is done to rows once all is found out fails only because of the database, and such a failure is
none that callers are told about.  A batch of refreshes reports those of its rows, so it has none
either.
-/

namespace Cookbook

namespace Action

variable {α β : Type} {env : Surroundings}

/-- No failure of it is one that callers are told about. -/
def Quiet (env : Surroundings) (a : Action α) : Prop :=
  ∀ s f t, a.run env s = (.error f, t) → ¬ f.IsOwn

namespace Quiet

theorem pure (x : α) : Quiet env (Pure.pure x : Action α) := fun _ _ _ failed => nomatch failed

theorem throw {f : Failure} (untold : ¬ f.IsOwn) : Quiet env (MonadExcept.throw f : Action α) := by
  intro s g t failed
  obtain ⟨rfl, _⟩ := failed
  exact untold

theorem attempt {a : Attempt α} (untold : ∀ f, a = .error f → ¬ f.IsOwn) :
    Quiet env (Action.attempt a) := by
  intro s f t failed
  rw [run_attempt] at failed
  exact untold f (Prod.mk.inj failed).1

theorem bind {a : Action β} {g : β → Action α} (first : Quiet env a)
    (next : ∀ x, Quiet env (g x)) : Quiet env (a >>= g) := by
  intro s f t failed
  rcases run_bind_eq_error_iff.mp failed with early | ⟨x, u, _, late⟩
  · exact first s f t early
  · exact next x u f t late

theorem tryCatch {a : Action α} {h : Failure → Action α} (handler : ∀ f, Quiet env (h f)) :
    Quiet env (MonadExcept.tryCatch a h) := by
  intro s f t failed
  rw [run_tryCatch] at failed
  rcases ran : a.run env s with ⟨e | x, u⟩
  · rw [ran] at failed
    exact handler e u f t failed
  · rw [ran] at failed
    exact nomatch failed

theorem now : Quiet env Action.now := fun _ _ _ failed => nomatch failed

theorem get : Quiet env (MonadState.get : Action Shelf) := fun _ _ _ failed => nomatch failed

theorem drawId : Quiet env Action.drawId := fun _ _ _ failed => nomatch failed

theorem commit {failure : Failure} {allowed : Shelf → Attempt Unit} {change : Shelf → Shelf}
    (untold : ¬ failure.IsOwn) (refused : ∀ s f, allowed s = .error f → ¬ f.IsOwn) :
    Quiet env (Action.commit failure allowed change) := by
  intro s f t failed
  rw [run_commit] at failed
  split at failed
  · obtain ⟨rfl, _⟩ := failed
    exact untold
  split at failed
  · exact nomatch failed
  next refusal =>
    obtain ⟨rfl, _⟩ := failed
    exact refused s _ refusal

theorem reload {failure : Failure} (untold : ¬ failure.IsOwn) (id : String) :
    Quiet env (Action.reload failure id) := by
  intro s f t failed
  rw [run_reload] at failed
  split at failed
  · obtain ⟨rfl, _⟩ := failed
    exact untold
  · exact nomatch failed

theorem readBack {failure : Failure} (untold : ¬ failure.IsOwn) (id : String) :
    Quiet env (Action.readBack failure id) := by
  intro s f t failed
  rw [run_readBack] at failed
  split at failed
  · obtain ⟨rfl, _⟩ := failed
    exact untold
  · exact nomatch failed

theorem forM {g : β → Action Unit} (each : ∀ x, Quiet env (g x)) (xs : List β) :
    Quiet env (xs.forM g) := by
  induction xs with
  | nil => exact pure ()
  | cons x xs ih => exact (each x).bind fun _ => ih

theorem mapM {g : β → Action α} (each : ∀ x, Quiet env (g x)) (xs : List β) :
    Quiet env (xs.mapM g) := by
  induction xs with
  | nil => exact pure []
  | cons x xs ih =>
    rw [List.mapM_cons]
    exact (each x).bind fun y => ih.bind fun ys => pure (y :: ys)

end Quiet

theorem not_isOwn_of_fitting {cs : List Collection} {f : Failure}
    (refused : fitting cs = .error f) : ¬ f.IsOwn := by
  unfold fitting at refused
  split at refused
  · cases refused
  · obtain rfl := Except.error.inj refused
    decide

theorem not_isOwn_of_insertable {cs : List Collection} {s : Shelf} {f : Failure}
    (refused : insertable cs s = .error f) : ¬ f.IsOwn := by
  rcases Attempt.bind_eq_error_iff.mp refused with unfit | ⟨_, _, taken⟩
  · exact not_isOwn_of_fitting unfit
  · split at taken
    · cases taken
    · obtain rfl := Except.error.inj taken
      decide

theorem not_isOwn_of_viewed {c : Collection} {f : Failure} (failed : c.viewed = .error f) :
    ¬ f.IsOwn := by
  unfold Collection.viewed at failed
  split at failed
  · cases failed
  · obtain rfl := Except.error.inj failed
    exact id

theorem not_isOwn_of_progress {counts : Counts} {minRequired target : Int} {n : Number}
    {f : Failure} (failed : Progress.of counts minRequired target n = .error f) : ¬ f.IsOwn := by
  unfold Progress.of at failed
  split at failed
  · obtain rfl := Except.error.inj failed
    exact id
  · cases failed

theorem quiet_save {failure : Failure} (untold : ¬ failure.IsOwn) (c : Collection) :
    Quiet env (save failure c) :=
  (Quiet.commit untold fun _ _ => not_isOwn_of_fitting).bind fun _ => .readBack untold c.id

theorem quiet_insert (cs : List Collection) : Quiet env (insert cs) :=
  (Quiet.commit (by decide) fun _ _ => not_isOwn_of_insertable).bind fun _ =>
    .forM (fun c => .readBack (by decide) c.id) cs

theorem quiet_override (c : Collection) : Quiet env (override c) :=
  Quiet.now.bind fun _ => quiet_save (by decide) _

theorem quiet_refreshDetail (c : Collection) : Quiet env (refreshDetail c) := by
  apply Quiet.tryCatch
  intro f
  by_cases own : f.IsOwn
  · rw [if_pos own]
    exact .pure _
  · rw [if_neg own]
    exact .throw own

theorem quiet_refreshCounts (ids : Option (List String)) : Quiet env (refreshCounts ids) :=
  Quiet.get.bind fun _ => (Quiet.mapM quiet_refreshDetail _).bind fun _ => .pure _

theorem quiet_freeSlug (taken : List String) (type slug : String) :
    Quiet env (freeSlug taken type slug) := by
  unfold freeSlug
  split
  · exact .pure _
  dsimp only
  split
  · exact .pure _
  · exact Quiet.drawId.bind fun _ => .pure _

theorem quiet_link (now : Instant) (taken : List String) (sources : List LinkSource) :
    Quiet env (link now taken sources) := by
  induction sources generalizing taken with
  | nil => exact .pure _
  | cons l ls ih =>
    refine (quiet_freeSlug taken l.type l.slug).bind fun slug => Quiet.drawId.bind fun id => ?_
    exact (ih (slug :: taken)).bind fun _ => .pure _

theorem quiet_syncLinked : Quiet env syncLinked := by
  unfold syncLinked
  refine Quiet.get.bind fun s => Quiet.now.bind fun t => (quiet_link _ _ _).bind fun cs => ?_
  dsimp only
  split
  · exact (quiet_insert cs).bind fun _ => .pure _
  · exact .pure _

end Action

end Cookbook
