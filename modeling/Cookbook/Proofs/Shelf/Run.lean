import Cookbook.Shelf.Basic

/-!
# Running actions

What the building blocks of operations answer and what they leave behind.  Each block has one
equation for its run, so that a proof about an operation never opens the monad.
-/

namespace Cookbook

namespace Action

variable {α β : Type} (env : Surroundings) (s : Shelf)

@[simp] theorem run_pure (x : α) : (pure x : Action α).run env s = (.ok x, s) := rfl

@[simp] theorem run_throw (f : Failure) : (throw f : Action α).run env s = (.error f, s) := rfl

@[simp] theorem run_read : (read : Action Surroundings).run env s = (.ok env, s) := rfl

@[simp] theorem run_get : (get : Action Shelf).run env s = (.ok s, s) := rfl

@[simp] theorem run_modify (f : Shelf → Shelf) :
    (modify f : Action Unit).run env s = (.ok (), f s) := rfl

@[simp] theorem run_now : now.run env s = (.ok env.now, s) := rfl

@[simp] theorem run_settings : settings.run env s = (.ok env.settings, s) := rfl

@[simp] theorem run_attempt (a : Attempt α) : (attempt a).run env s = (a, s) := by
  cases a <;> rfl

@[simp] theorem run_bind (a : Action β) (f : β → Action α) :
    (a >>= f).run env s = match a.run env s with
      | (.ok x, t) => (f x).run env t
      | (.error e, t) => (.error e, t) := by
  change ExceptT.bindCont (fun x => f x env) (a.run env s).1 (a.run env s).2 = _
  obtain ⟨_ | _, t⟩ := a.run env s <;> rfl

@[simp] theorem run_map (f : β → α) (a : Action β) :
    (f <$> a).run env s = ((a.run env s).1.map f, (a.run env s).2) := by
  rw [map_eq_pure_bind, run_bind]
  obtain ⟨_ | _, t⟩ := a.run env s <;> rfl

/-- To answer in another form changes nothing. -/
theorem shelf_bind_pure (f : β → α) (a : Action β) :
    ((a >>= fun x => pure (f x)).run env s).2 = (a.run env s).2 := by
  rw [run_bind]
  obtain ⟨_ | _, t⟩ := a.run env s <;> rfl

theorem run_tryCatch (a : Action α) (h : Failure → Action α) :
    (tryCatch a h).run env s = match a.run env s with
      | (.ok x, t) => (.ok x, t)
      | (.error e, t) => (h e).run env t := by
  have ran : a env s = a.run env s := rfl
  change ExceptT.tryCatch (a env) (fun e => h e env) s = _
  simp only [ExceptT.tryCatch, ExceptT.mk, bind, StateT.bind, ran]
  obtain ⟨_ | _, t⟩ := a.run env s <;> rfl

/-- The row that an id stands for. -/
def required (id : String) : Attempt Collection :=
  match s.find? id with
  | some c => .ok c
  | none => .error (.unknownCollection id)

theorem run_require (id : String) : (require id).run env s = (required s id, s) := by
  unfold required
  cases found : s.find? id <;> simp [require, found]

theorem run_commit (failure : Failure) (allowed : Shelf → Attempt Unit) (change : Shelf → Shelf) :
    (commit failure allowed change).run env s =
      if env.outage = some .commit then (.error failure, s)
      else match allowed s with
        | .ok () => (.ok (), change s)
        | .error f => (.error f, s) := by
  by_cases down : env.outage = some .commit
  · simp [commit, down]
  · cases permitted : allowed s <;> simp [commit, down, permitted]

theorem run_reload (failure : Failure) (id : String) :
    (reload failure id).run env s =
      if env.Withholds id then (.error failure, s) else (.ok (), s) := by
  by_cases withheld : env.Withholds id <;> simp [reload, withheld]

theorem run_readBack (failure : Failure) (id : String) :
    (readBack failure id).run env s =
      if env.WithholdsCommitted id then (.error failure, s) else (.ok (), s) := by
  by_cases withheld : env.WithholdsCommitted id <;> simp [readBack, withheld]

theorem run_readBack_of_service {env : Surroundings} (service : env.outage = none)
    (failure : Failure) (id : String) (s : Shelf) :
    (readBack failure id).run env s = (.ok (), s) := by
  rw [run_readBack]
  apply if_neg
  simp [Surroundings.WithholdsCommitted, Surroundings.Withholds, service]

/-- A row that is not read back after its commit is put in place all the same. -/
theorem run_save_eq (failure : Failure) (c : Collection) :
    (save failure c).run env s =
      if env.outage = some .commit then (.error failure, s)
      else if c.FitsColumns then (((readBack failure c.id).run env s).1, s.put c)
      else (.error .overflow, s) := by
  have fitting_eq : fitting [c] = if c.FitsColumns then .ok () else .error .overflow := by
    simp [fitting]
  rw [save, run_bind, run_commit, fitting_eq]
  by_cases down : env.outage = some .commit
  · rw [if_pos down, if_pos down]
  by_cases fits : c.FitsColumns
  · simp only [if_neg down, if_pos fits, run_readBack]
    split <;> rfl
  · simp only [if_neg down, if_neg fits]

theorem run_save {env : Surroundings} {s : Shelf} (service : env.outage = none) (failure : Failure)
    {c : Collection} (fits : c.FitsColumns) : (save failure c).run env s = (.ok (), s.put c) := by
  rw [run_save_eq, if_pos fits, run_readBack_of_service service, service]
  rfl

theorem of_save_eq_ok {env : Surroundings} {s t : Shelf} {failure : Failure} {c : Collection}
    {u : Unit} (saved : (save failure c).run env s = (.ok u, t)) : t = s.put c := by
  rw [run_save_eq] at saved
  split at saved
  · cases saved
  split at saved
  · exact (Prod.mk.inj saved).2.symm
  · cases saved

end Action

namespace Action

variable {α β : Type} {env : Surroundings} {s : Shelf}

@[simp] theorem run_store : store.run env s = (.ok (env.records s), s) := rfl

/-- What is read in sequence is answered in sequence. -/
theorem run_bind_of_reads {a : Action β} {f : β → Action α} {x : Attempt β} {g : β → Attempt α}
    (first : a.run env s = (x, s)) (next : ∀ v, (f v).run env s = (g v, s)) :
    (a >>= f).run env s = (x >>= g, s) := by
  rw [run_bind, first]
  cases x with
  | ok v => exact next v
  | error e => rfl

theorem run_bind_eq_ok_iff {a : Action β} {f : β → Action α} {y : α} {t : Shelf} :
    (a >>= f).run env s = (.ok y, t) ↔
      ∃ x u, a.run env s = (.ok x, u) ∧ (f x).run env u = (.ok y, t) := by
  rw [run_bind]
  obtain ⟨_ | x, u⟩ := a.run env s
  · simp
  · constructor
    · exact fun answered => ⟨x, u, rfl, answered⟩
    · rintro ⟨_, _, ⟨⟩, answered⟩
      exact answered

theorem run_bind_eq_error_iff {a : Action β} {f : β → Action α} {e : Failure} {t : Shelf} :
    (a >>= f).run env s = (.error e, t) ↔
      a.run env s = (.error e, t) ∨
        ∃ x u, a.run env s = (.ok x, u) ∧ (f x).run env u = (.error e, t) := by
  rw [run_bind]
  obtain ⟨g | x, u⟩ := a.run env s
  · simp
  · constructor
    · exact fun failed => .inr ⟨x, u, rfl, failed⟩
    · rintro (early | ⟨_, _, ⟨⟩, failed⟩)
      · cases early
      · exact failed

end Action

end Cookbook
