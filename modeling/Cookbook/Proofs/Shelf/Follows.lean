import Cookbook.Proofs.Shelf.Session

/-!
# Sessions follow the actions

In a session with nothing pending an operation answers what its action answers, and it stores what
the action stores.  Afterwards nothing is pending again, unless the operation has failed in a way
that callers are not told about.
-/

namespace Cookbook

namespace Work

variable {α β : Type} {env : Surroundings}

section Run

variable (env : Surroundings) (σ : Session)

@[simp] theorem run_throw (f : Failure) : (throw f : Work α).run env σ = (.error f, σ) := rfl

@[simp] theorem run_attempt (a : Attempt α) : (attempt a).run env σ = (a, σ) := by
  cases a <;> rfl

@[simp] theorem run_assign (change : Shelf → Shelf) :
    (assign change).run env σ = (.ok (), { σ with live := change σ.live }) := rfl

@[simp] theorem run_rollback : rollback.run env σ = (.ok (), .of σ.stored) := rfl

@[simp] theorem run_bind (w : Work β) (f : β → Work α) :
    (w >>= f).run env σ = match w.run env σ with
      | (.ok x, τ) => (f x).run env τ
      | (.error e, τ) => (.error e, τ) := by
  change ExceptT.bindCont (fun x => f x env) (w.run env σ).1 (w.run env σ).2 = _
  obtain ⟨_ | _, τ⟩ := w.run env σ <;> rfl

theorem run_tryCatch (w : Work α) (h : Failure → Work α) :
    (tryCatch w h).run env σ = match w.run env σ with
      | (.ok x, τ) => (.ok x, τ)
      | (.error e, τ) => (h e).run env τ := by
  have ran : w env σ = w.run env σ := rfl
  change ExceptT.tryCatch (w env) (fun e => h e env) σ = _
  simp only [ExceptT.tryCatch, ExceptT.mk, bind, StateT.bind, ran]
  obtain ⟨_ | _, τ⟩ := w.run env σ <;> rfl

theorem run_look (a : Action α) :
    (look a).run env σ = ((a.run env σ.live).1, σ.withDrawn (a.run env σ.live).2.drawn) := by
  change (attempt (a.run env σ.live).1).run env (σ.withDrawn (a.run env σ.live).2.drawn) = _
  rw [run_attempt]

theorem run_commit (failure : Failure) (allowed : Shelf → Attempt Unit) :
    (commit failure allowed).run env σ =
      if env.outage = some .commit then (.error failure, σ)
      else match allowed σ.stored with
        | .ok () => (.ok (), .of σ.live)
        | .error f => (.error f, .of σ.stored) := by
  by_cases down : env.outage = some .commit
  · rw [if_pos down]
    change (if env.outage = some .commit then _ else _ : Work Unit).run env σ = _
    rw [if_pos down]
    rfl
  · rw [if_neg down]
    change (if env.outage = some .commit then _ else _ : Work Unit).run env σ = _
    rw [if_neg down]
    change (match allowed σ.stored with | .ok () => _ | .error f => _ : Work Unit).run env σ = _
    cases allowed σ.stored <;> rfl

end Run

theorem run_guarded_of_isOwn {w : Work α} {σ : Session} {f : Failure} {s t : Shelf}
    (failed : w.run env σ = (.error f, ⟨s, t⟩)) (own : f.IsOwn) :
    (guarded w).run env σ = (.error f, .of s) := by
  rw [guarded, run_tryCatch, failed]
  dsimp only
  rw [if_pos own, run_bind, run_rollback]
  exact run_throw env (.of s) f

theorem run_guarded_of_not_isOwn {w : Work α} {σ τ : Session} {f : Failure}
    (failed : w.run env σ = (.error f, τ)) (untold : ¬ f.IsOwn) :
    (guarded w).run env σ = (.error f, τ) := by
  rw [guarded, run_tryCatch, failed]
  dsimp only
  rw [if_neg untold]
  exact run_throw env τ f

/-- How the outcome of some work and that of an action may go together.  Only a failure that callers
are not told about leaves something pending. -/
inductive Agrees : Attempt α × Session → Attempt α × Shelf → Prop where
  | settled (x : Attempt α) (s : Shelf) : Agrees (x, .of s) (x, s)
  | pending {f : Failure} (untold : ¬ f.IsOwn) (s t : Shelf) :
      Agrees (.error f, ⟨s, t⟩) (.error f, s)

theorem Agrees.eq_of_isOwn {outcome : Attempt α × Session} {f : Failure} {s : Shelf}
    (agrees : Agrees outcome (.error f, s)) (own : f.IsOwn) : outcome = (.error f, .of s) := by
  cases agrees with
  | settled => rfl
  | pending untold => exact absurd own untold

theorem Agrees.eq_of_ok {outcome : Attempt α × Session} {x : α} {s : Shelf}
    (agrees : Agrees outcome (.ok x, s)) : outcome = (.ok x, .of s) := by
  cases agrees with
  | settled => rfl

/-- In a session with nothing pending the work comes to what the action comes to. -/
def Follows (env : Surroundings) (w : Work α) (a : Action α) : Prop :=
  ∀ s, Agrees (w.run env (.of s)) (a.run env s)

namespace Follows

theorem pure (x : α) : Follows env (Pure.pure x) (Pure.pure x) := fun s => .settled (.ok x) s

theorem throw (f : Failure) :
    Follows env (MonadExcept.throw f : Work α) (MonadExcept.throw f) :=
  fun s => .settled (.error f) s

theorem attempt (a : Attempt α) : Follows env (Work.attempt a) (Action.attempt a) := by
  intro s
  rw [run_attempt, Action.run_attempt]
  exact .settled a s

/-- To look is to follow, as long as the action draws ids and does nothing else to the shelf. -/
theorem look {a : Action α}
    (draws : ∀ s, (a.run env s).2 = { s with drawn := (a.run env s).2.drawn }) :
    Follows env (Work.look a) a := by
  intro s
  have left : (Session.of s).withDrawn (a.run env s).2.drawn = .of (a.run env s).2 := by
    rw [draws]
    rfl
  rw [run_look]
  change Agrees ((a.run env s).1, (Session.of s).withDrawn (a.run env s).2.drawn) _
  rw [left]
  exact .settled _ _

theorem reads {a : Action α} {Q : α → Shelf → Prop}
    (steps : Action.Steps env (fun _ _ => False) (fun _ => True) a Q) :
    Follows env (Work.look a) a := by
  apply look
  intro s
  rw [steps.shelf_eq trivial]

theorem bind {w : Work β} {a : Action β} {f : β → Work α} {g : β → Action α}
    (first : Follows env w a) (next : ∀ x, Follows env (f x) (g x)) :
    Follows env (w >>= f) (a >>= g) := by
  intro s
  have agrees := first s
  rw [run_bind, Action.run_bind]
  generalize w.run env (.of s) = outcome at agrees
  generalize a.run env s = result at agrees
  cases agrees with
  | settled x t =>
    cases x with
    | ok x => exact next x t
    | error f => exact .settled (.error f) t
  | pending untold t u => exact .pending untold t u

theorem tryCatch {w : Work α} {a : Action α} {h : Failure → Work α} {k : Failure → Action α}
    (body : Follows env w a) (own : ∀ f, f.IsOwn → Follows env (h f) (k f))
    (other : ∀ f, ¬ f.IsOwn → h f = MonadExcept.throw f ∧ k f = MonadExcept.throw f) :
    Follows env (MonadExcept.tryCatch w h) (MonadExcept.tryCatch a k) := by
  intro s
  have agrees := body s
  rw [run_tryCatch, Action.run_tryCatch]
  generalize w.run env (.of s) = outcome at agrees
  generalize a.run env s = result at agrees
  have passed {f : Failure} (untold : ¬ f.IsOwn) (t u : Shelf) :
      Agrees ((h f).run env ⟨t, u⟩) ((k f).run env t) := by
    obtain ⟨thrown, thrown'⟩ := other f untold
    rw [thrown, thrown']
    exact .pending untold t u
  cases agrees with
  | settled x t =>
    cases x with
    | ok x => exact .settled (.ok x) t
    | error f =>
      by_cases told : f.IsOwn
      · exact own f told t
      · exact passed told t t
  | pending untold t u => exact passed untold t u

theorem guarded {w : Work α} {a : Action α} (follows : Follows env w a) :
    Follows env (guarded w) a := by
  intro s
  have agrees := follows s
  generalize ran : w.run env (.of s) = outcome at agrees
  generalize a.run env s = result at agrees
  cases agrees with
  | settled x t =>
    cases x with
    | ok x =>
      rw [Work.guarded, run_tryCatch, ran]
      exact .settled (.ok x) t
    | error f =>
      by_cases own : f.IsOwn
      · rw [run_guarded_of_isOwn ran own]
        exact .settled (.error f) t
      · rw [run_guarded_of_not_isOwn ran own]
        exact .settled (.error f) t
  | pending untold t u =>
    rw [run_guarded_of_not_isOwn ran untold]
    exact .pending untold t u

section Lists

variable {f : β → Work α} {g : β → Action α}

theorem mapM (each : ∀ x, Follows env (f x) (g x)) (xs : List β) :
    Follows env (xs.mapM f) (xs.mapM g) := by
  induction xs with
  | nil => exact pure []
  | cons x xs ih =>
    rw [List.mapM_cons, List.mapM_cons]
    exact (each x).bind fun y => ih.bind fun ys => pure (y :: ys)

theorem foldlM {f : α → β → Work α} {g : α → β → Action α}
    (each : ∀ a x, Follows env (f a x) (g a x)) (xs : List β) (a : α) :
    Follows env (xs.foldlM f a) (xs.foldlM g a) := by
  induction xs generalizing a with
  | nil => exact pure a
  | cons x xs ih =>
    rw [List.foldlM_cons, List.foldlM_cons]
    exact (each a x).bind fun b => ih b

end Lists

end Follows

section Writing

variable (env : Surroundings) (s : Shelf) (failure : Failure)

/-- Only a commit that is out of service leaves something pending. -/
theorem run_persist (allowed : Shelf → Attempt Unit) (change : Shelf → Shelf) :
    (persist failure allowed change).run env (.of s) =
      if env.outage = some .commit then (.error failure, ⟨s, change s⟩)
      else (((Action.commit failure allowed change).run env s).1,
        .of ((Action.commit failure allowed change).run env s).2) := by
  rw [persist, run_bind, run_assign]
  dsimp only
  rw [run_commit, Action.run_commit]
  by_cases down : env.outage = some .commit
  · rw [if_pos down, if_pos down]
    rfl
  · rw [if_neg down, if_neg down, if_neg down]
    change (match allowed s with | .ok () => _ | .error f => _) = _
    cases allowed s <;> rfl

theorem run_save (c : Collection) :
    (save failure c).run env (.of s) =
      if env.outage = some .commit then (.error failure, ⟨s, s.put c⟩)
      else (((Action.save failure c).run env s).1, .of ((Action.save failure c).run env s).2) := by
  rw [save, run_bind, run_persist, Action.save, Action.run_bind]
  by_cases down : env.outage = some .commit
  · rw [if_pos down, if_pos down]
  · rw [if_neg down, if_neg down]
    rcases (Action.commit failure _ _).run env s with ⟨e | _, t⟩
    · rfl
    · dsimp only
      rw [run_look, Action.run_readBack]
      dsimp only [Session.of]
      rw [Action.run_readBack]
      split <;> rfl

end Writing

section Writing

variable {failure : Failure}

theorem follows_persist (untold : ¬ failure.IsOwn) (allowed : Shelf → Attempt Unit)
    (change : Shelf → Shelf) :
    Follows env (persist failure allowed change) (Action.commit failure allowed change) := by
  intro s
  rw [run_persist]
  by_cases down : env.outage = some .commit
  · rw [if_pos down, Action.run_commit, if_pos down]
    exact .pending untold s (change s)
  · rw [if_neg down]
    exact .settled _ _

theorem follows_save (untold : ¬ failure.IsOwn) (c : Collection) :
    Follows env (save failure c) (Action.save failure c) :=
  (follows_persist untold _ _).bind fun _ => .reads (.readBack failure c.id)

theorem follows_insert (cs : List Collection) : Follows env (insert cs) (Action.insert cs) :=
  (follows_persist (by decide) _ _).bind fun _ => .reads (.forM fun c _ => .readBack .database c.id)

/-- A snapshot that cannot be written is taken back, with all that was assigned to its row. -/
theorem follows_writeSnapshot (c : Collection) :
    Follows env (writeSnapshot c) (Action.save Action.snapshotFailure c) := by
  by_cases down : env.outage = some .commit
  · intro s
    have unwritten : (save Action.snapshotFailure c).run env (.of s) =
        (.error Action.snapshotFailure, ⟨s, s.put c⟩) := by
      rw [run_save, if_pos down]
    rw [writeSnapshot, run_guarded_of_isOwn unwritten trivial, Action.run_save_eq, if_pos down]
    exact .settled (.error _) s
  · apply Follows.guarded
    intro s
    rw [run_save, if_neg down]
    exact .settled _ _

end Writing

/-! Every operation follows its action, check by check. -/

section Operations

open Cookbook.Action (Steps)

theorem follows_require (id : String) :
    Follows env (look (Action.require id)) (Action.require id) :=
  .reads (.require id)

theorem follows_now : Follows env (look Action.now) Action.now := .reads .now

theorem follows_get : Follows env (look get) get := .reads .get

theorem follows_drawId : Follows env (look Action.drawId) Action.drawId := .look fun _ => rfl

theorem follows_create (n : NewCollection) : Follows env (create n) (Action.create n) := by
  unfold create Action.create
  refine (Follows.reads (Action.steps_checkedRules n.rules)).bind fun rules => ?_
  refine (Follows.reads (Action.steps_requireFree n.slug)).bind fun _ => ?_
  refine follows_drawId.bind fun id => follows_now.bind fun t => ?_
  exact (follows_insert _).bind fun _ => .pure _

theorem follows_update (id : String) (ch : Changes) :
    Follows env (update id ch) (Action.update id ch) := by
  unfold update Action.update
  refine (follows_require id).bind fun c => ?_
  refine (Follows.reads (Action.steps_checkedChanges ch)).bind fun checked => ?_
  have saved : Follows env
      (do
        let d := c.change checked (← look Action.now)
        save .database d
        return d)
      (do
        let d := c.change checked (← Action.now)
        Action.save .database d
        return d) :=
    follows_now.bind fun t => (follows_save (by decide) _).bind fun _ => .pure _
  dsimp only
  cases checked.slug with
  | none => exact saved
  | some slug =>
    by_cases other : slug ≠ c.slug
    · simp only [if_pos other]
      exact (Follows.reads (Action.steps_requireFree slug)).bind fun _ => saved
    · simp only [if_neg other]
      exact saved

theorem follows_delete (id : String) : Follows env (delete id) (Action.delete id) := by
  unfold delete Action.delete
  refine (follows_require id).bind fun c => (Follows.attempt _).bind fun shown => ?_
  exact (follows_persist (by decide) _ _).bind fun _ => .pure _

theorem follows_override (c : Collection) : Follows env (override c) (Action.override c) :=
  follows_now.bind fun _ => follows_save (by decide) _

theorem follows_requireRecipes (ids : List String) :
    Follows env (look (Action.requireRecipes ids)) (Action.requireRecipes ids) :=
  .reads (Action.steps_requireRecipes ids)

theorem follows_pin (id : String) (r : PinRequest) :
    Follows env (pin id r) (Action.pin id r) := by
  unfold pin Action.pin
  refine (follows_require id).bind fun c => (follows_requireRecipes r.ids).bind fun _ => ?_
  exact (follows_override _).bind fun _ => .pure _

theorem follows_unpin (id : String) (ids : List String) :
    Follows env (unpin id ids) (Action.unpin id ids) := by
  unfold unpin Action.unpin
  exact (follows_require id).bind fun c => (follows_override _).bind fun _ => .pure _

theorem follows_reorder (id : String) (ids : List String) :
    Follows env (reorder id ids) (Action.reorder id ids) := by
  unfold reorder Action.reorder
  refine (follows_require id).bind fun c => ?_
  dsimp only
  split
  · exact (Follows.throw _).bind fun _ => (follows_override _).bind fun _ => .pure _
  · exact (follows_override _).bind fun _ => .pure _

theorem follows_exclude (id : String) (ids : List String) :
    Follows env (exclude id ids) (Action.exclude id ids) := by
  unfold exclude Action.exclude
  refine (follows_require id).bind fun c => (follows_requireRecipes ids).bind fun _ => ?_
  exact (follows_override _).bind fun _ => .pure _

theorem follows_unexclude (id : String) (ids : List String) :
    Follows env (unexclude id ids) (Action.unexclude id ids) := by
  unfold unexclude Action.unexclude
  exact (follows_require id).bind fun c => (follows_override _).bind fun _ => .pure _

theorem follows_refreshRow (c : Collection) :
    Follows env (refreshRow c) (Action.refreshRow c) := by
  unfold refreshRow Action.refreshRow
  refine (Follows.reads (.reload Action.reloadFailure c.id)).guarded.bind fun _ => ?_
  refine (Follows.reads .store).bind fun st => (Follows.attempt _).bind fun l => ?_
  exact follows_now.bind fun t => (follows_writeSnapshot _).bind fun _ => .pure _

theorem follows_refresh (id : String) : Follows env (refresh id) (Action.refresh id) :=
  (follows_require id).bind fun c => follows_refreshRow c

theorem follows_refreshDetail (c : Collection) :
    Follows env (refreshDetail c) (Action.refreshDetail c) := by
  unfold refreshDetail Action.refreshDetail
  refine Follows.tryCatch ?_ (fun f own => ?_) (fun f untold => ?_)
  · exact (follows_refreshRow c).bind fun _ => .pure _
  · rw [if_pos own, if_pos own]
    exact .pure _
  · rw [if_neg untold, if_neg untold]
    exact ⟨rfl, rfl⟩

theorem follows_refreshCounts (ids : Option (List String)) :
    Follows env (refreshCounts ids) (Action.refreshCounts ids) := by
  unfold refreshCounts Action.refreshCounts
  refine follows_get.bind fun s => ?_
  exact (Follows.mapM follows_refreshDetail _).bind fun _ => .pure _

theorem follows_storedAnswer (c : Collection) (published : Bool) (message : String) :
    Follows env (look (Action.storedAnswer c published message))
      (Action.storedAnswer c published message) :=
  .reads (Action.steps_storedAnswer c published message)

theorem follows_publish (id : String) (force : Bool) :
    Follows env (publish id force) (Action.publish id force) := by
  unfold publish Action.publish
  refine (follows_require id).bind fun c => ?_
  split
  · exact follows_storedAnswer c _ _
  · refine (Follows.reads (Action.steps_liveRead c)).bind fun read => ?_
    exact follows_now.bind fun t => (follows_writeSnapshot _).bind fun _ => .pure _

theorem follows_unpublish (id : String) :
    Follows env (unpublish id) (Action.unpublish id) := by
  unfold unpublish Action.unpublish
  refine (follows_require id).bind fun c => (follows_storedAnswer c _ _).bind fun answer => ?_
  split
  · exact follows_now.bind fun t => (follows_save (by decide) _).bind fun _ => .pure _
  · exact .pure _

theorem follows_link (now : Instant) (taken : List String) (sources : List LinkSource) :
    Follows env (look (Action.link now taken sources)) (Action.link now taken sources) := by
  have steps : Steps env _ _ (Action.link now taken sources) _ :=
    Action.steps_link (C := fun s t => t = { s with drawn := s.drawn + 1 }) (P := fun _ => True)
      (fun _ => rfl) (fun _ _ _ => trivial) now taken sources
  apply Follows.look
  intro s
  obtain ⟨reached, _⟩ := steps s trivial
  refine reached.keeps (I := fun t => t = { s with drawn := t.drawn }) ?_ rfl
  rintro t _ rfl same
  rw [same]

theorem follows_syncLinked : Follows env syncLinked Action.syncLinked := by
  unfold syncLinked Action.syncLinked
  refine follows_get.bind fun s => follows_now.bind fun t => (follows_link _ _ _).bind fun cs => ?_
  dsimp only
  split
  · exact (follows_insert cs).bind fun _ => .pure _
  · exact .pure _

theorem follows_define (a : SyncAnswer) (d : Definition) :
    Follows env (define a d) (Action.define a d) := by
  unfold define Action.define
  refine follows_get.bind fun s => ?_
  dsimp only
  cases d.emptyIssues with
  | nil =>
    cases s.findSlug? d.slug with
    | none => exact (follows_create _).bind fun _ => .pure _
    | some c => exact (follows_update _ _).bind fun _ => .pure _
  | cons issue rest =>
    refine (Follows.throw _).bind fun _ => ?_
    cases s.findSlug? d.slug with
    | none => exact (follows_create _).bind fun _ => .pure _
    | some c => exact (follows_update _ _).bind fun _ => .pure _

theorem follows_syncDefinitions (ds : List Definition) :
    Follows env (syncDefinitions ds) (Action.syncDefinitions ds) :=
  Follows.foldlM follows_define ds .nothing

theorem follows_place (a : SyncAnswer) (sheet : Sheet) :
    Follows env (place a sheet) (Action.place a sheet) := by
  unfold place Action.place
  cases sheet.emptyIssues with
  | nil => exact (Follows.attempt _).bind (follows_define a)
  | cons i is => exact .throw _

theorem follows_syncSheets (sheets : List Sheet) :
    Follows env (syncSheets sheets) (Action.syncSheets sheets) :=
  Follows.foldlM follows_place sheets .nothing

theorem follows_syncSource (source : DefinitionSource) :
    Follows env (syncSource source) (Action.syncSource source) := by
  cases source with
  | packaged => exact follows_syncDefinitions _
  | missing => exact .pure _
  | folder yaml f => exact (Follows.attempt _).bind follows_syncSheets

theorem follows_startUp (source : DefinitionSource) :
    Follows env (startUp source) (Action.startUp source) := by
  unfold startUp Action.startUp
  refine (Follows.reads .settings).bind fun s => ?_
  split
  · exact (follows_syncSource source).bind fun _ => .pure _
  · exact .pure _

theorem follows_shown {w : Work Collection} {a : Action Collection} (follows : Follows env w a) :
    Follows env (shown w) (Call.shown a) :=
  follows.bind fun _ => (Follows.attempt _).bind fun _ => .pure _

end Operations

end Work

open Work

variable {env : Surroundings}

theorem Call.follows_work (call : Call) : Follows env call.work call.perform := by
  have answered {α : Type} {w : Work α} {a : Action α} (json : α → Json)
      (follows : Follows env w a) : Follows env (do return json (← w)) (do return json (← a)) :=
    follows.bind fun _ => .pure _
  cases call with
  | list q => exact answered _ (.reads (Action.steps_list q))
  | create n => exact follows_shown (follows_create n)
  | preview r => exact answered _ (.reads (Action.steps_preview r))
  | refreshCounts ids => exact answered _ (follows_refreshCounts ids)
  | syncLinked => exact answered _ follows_syncLinked
  | qualified type limit => exact answered _ (.reads (Action.steps_qualified type limit))
  | detail id => exact answered _ (.reads (Action.steps_detail id))
  | update id changes => exact follows_shown (follows_update id changes)
  | delete id => exact answered _ (follows_delete id)
  | testRules id test => exact answered _ (.reads (Action.steps_testRules id test))
  | publish id force => exact answered _ (follows_publish id force)
  | unpublish id => exact answered _ (follows_unpublish id)
  | pin id request => exact answered _ (follows_pin id request)
  | unpin id recipes => exact answered _ (follows_unpin id recipes)
  | reorder id recipes => exact answered _ (follows_reorder id recipes)
  | exclude id recipes => exact answered _ (follows_exclude id recipes)
  | unexclude id recipes => exact answered _ (follows_unexclude id recipes)

/-- An event in a session with nothing pending answers and stores what it does on the shelf. -/
theorem Event.follows_work (e : Event) : Follows env e.work e.perform := by
  cases e with
  | call c => exact c.follows_work
  | refresh id => exact (follows_refresh id).bind fun _ => .pure _
  | define ds => exact (follows_syncDefinitions ds).bind fun _ => .pure _
  | load source => exact (follows_syncSource source).bind fun _ => .pure _
  | startUp source => exact (follows_startUp source).bind fun _ => .pure _

end Cookbook
