import Cookbook.Proofs.Shelf.Accurate
import Cookbook.Proofs.Shelf.Operations

/-!
# Runs of the service

A run is any number of events, each in surroundings of its own: the clock moves, settings change and
parts go out of service between them.  Whatever every commit keeps holds after every run.
-/

namespace Cookbook

inductive Defines (env : Surroundings) (d : Definition) (s t : Shelf) : Prop where
  | create (commit : Commit env (.create d.toNew) s t)
  | update {id : String} (commit : Commit env (.update id d.toChanges) s t)

/-- The definitions that a source comes to. -/
def DefinitionSource.Holds : DefinitionSource → Definition → Prop
  | packaged, d => d ∈ Definition.packaged
  | missing, _ => False
  | folder yaml f, d =>
    ∃ ss, ((Loading.ofFolder yaml f).run .empty).1 = .ok ss ∧ ∃ s ∈ ss, s.written = .ok d

namespace Action

variable {env : Surroundings} {C : Shelf → Shelf → Prop} {P : Shelf → Prop}

theorem steps_define (a : SyncAnswer) (d : Definition) :
    Steps env (Defines env d) P (define a d) fun _ _ => True := by
  unfold define
  refine Steps.get.bind fun s => ?_
  dsimp only
  split
  · split
    · refine ((steps_create d.toNew).widen fun _ _ => .create).bind fun _ => ?_
      exact Steps.pure fun _ _ => trivial
    next c _ =>
      refine ((steps_update c.id d.toChanges).widen fun _ _ => .update).bind fun _ => ?_
      exact Steps.pure fun _ _ => trivial
  · exact Steps.throw_bind _ _

theorem steps_syncDefinitions (ds : List Definition) :
    Steps env (fun s t => ∃ d ∈ ds, Defines env d s t) P (syncDefinitions ds) fun _ _ => True := by
  refine Steps.pre ?_ fun _ _ => trivial
  refine Steps.foldlM (fun a d member => ?_) _
  refine (steps_define a d).widen fun s t defines => ⟨d, member, defines⟩

theorem steps_place (a : SyncAnswer) (sheet : Sheet) :
    Steps env (fun s t => ∃ d, sheet.written = .ok d ∧ Defines env d s t) P (place a sheet)
      fun _ _ => True := by
  unfold place
  split
  · exact Steps.attempt_bind fun d written =>
      (steps_define a d).widen fun s t defines => ⟨d, written, defines⟩
  · exact Steps.throw _

theorem steps_syncSheets (sheets : List Sheet) :
    Steps env (fun s t => ∃ d, (∃ sheet ∈ sheets, sheet.written = .ok d) ∧ Defines env d s t) P
      (syncSheets sheets) fun _ _ => True := by
  refine Steps.pre ?_ fun _ _ => trivial
  refine Steps.foldlM (fun a sheet member => ?_) _
  exact (steps_place a sheet).widen fun s t ⟨d, written, defines⟩ =>
    ⟨d, ⟨sheet, member, written⟩, defines⟩

theorem steps_syncSource (source : DefinitionSource) :
    Steps env (fun s t => ∃ d, source.Holds d ∧ Defines env d s t) P (syncSource source)
      fun _ _ => True := by
  cases source with
  | packaged => exact steps_syncDefinitions _
  | missing => exact Steps.pure fun _ _ => trivial
  | folder yaml f =>
    refine Steps.attempt_bind fun sheets loaded => ?_
    exact (steps_syncSheets sheets).widen fun s t ⟨d, held, defines⟩ =>
      ⟨d, ⟨sheets, loaded, held⟩, defines⟩

theorem steps_startUp (source : DefinitionSource) :
    Steps env (fun s t => ∃ d, source.Holds d ∧ Defines env d s t) P (startUp source)
      fun _ _ => True := by
  unfold startUp
  refine Steps.settings.bind fun s => ?_
  split
  · exact (steps_syncSource source).bind fun _ => Steps.pure fun _ _ => trivial
  · exact Steps.pure fun _ _ => trivial

theorem steps_refresh (id : String) :
    Steps env (Commit env (.refreshCounts (some [id]))) P (refresh id) fun _ _ => True := by
  unfold refresh
  refine (steps_require id).bind fun c => steps_refreshRow fun s l before listed fits => ?_
  obtain ⟨_, rfl, row⟩ := before
  refine .revise row (.refresh ?_ listed) fits
  intro named given _
  obtain rfl := Option.some.inj given
  exact List.mem_cons_self

end Action

/-- What can happen to the shelf: a call, or something that no call asks for. -/
inductive Event where
  | call (call : Call)
  | refresh (id : String)
  | define (definitions : List Definition)
  | load (source : DefinitionSource)
  | startUp (source : DefinitionSource)

namespace Event

def leaves (env : Surroundings) (s : Shelf) : Event → Shelf
  | call c => (c.perform.run env s).2
  | refresh id => ((Action.refresh id).run env s).2
  | define ds => ((Action.syncDefinitions ds).run env s).2
  | load source => ((Action.syncSource source).run env s).2
  | startUp source => ((Action.startUp source).run env s).2

def Places : Event → Definition → Prop
  | define ds, d => d ∈ ds
  | load source, d => source.Holds d
  | startUp source, d => source.Holds d
  | _, _ => False

/-- The calls whose commits an event is made of. -/
inductive Asks : Event → Call → Prop where
  | call (c : Call) : Asks (.call c) c
  | refresh (id : String) : Asks (.refresh id) (.refreshCounts (some [id]))
  | create {e : Event} {d : Definition} (placed : e.Places d) : Asks e (.create d.toNew)
  | update {e : Event} {d : Definition} (placed : e.Places d) (id : String) :
      Asks e (.update id d.toChanges)

theorem eq_of_asks_call {call call' : Call} (asks : (Event.call call).Asks call') :
    call' = call := by
  cases asks with
  | call => rfl
  | create placed => exact placed.elim
  | update placed => exact placed.elim

theorem reaches (env : Surroundings) (e : Event) {s : Shelf} (keyed : s.Keyed) :
    Shelf.Reaches (fun s t => ∃ call, e.Asks call ∧ Commit env call s t) s (e.leaves env s) := by
  have put {s t : Shelf} {d : Definition} (placed : e.Places d) (defines : Defines env d s t) :
      ∃ call, e.Asks call ∧ Commit env call s t := by
    cases defines with
    | create commit => exact ⟨_, .create placed, commit⟩
    | update commit => exact ⟨_, .update placed _, commit⟩
  cases e with
  | call c => exact ((Action.steps_perform c).widen fun _ _ commit => ⟨c, .call c, commit⟩) s keyed
      |>.1
  | refresh id =>
    exact ((Action.steps_refresh id).widen fun _ _ commit => ⟨_, .refresh id, commit⟩) s keyed |>.1
  | define ds =>
    exact ((Action.steps_syncDefinitions ds).widen fun _ _ ⟨_, given, d⟩ => put given d) s keyed
      |>.1
  | load source =>
    exact ((Action.steps_syncSource source).widen fun _ _ ⟨_, held, d⟩ => put held d) s keyed |>.1
  | startUp source =>
    exact ((Action.steps_startUp source).widen fun _ _ ⟨_, held, d⟩ => put held d) s keyed |>.1

end Event

namespace Shelf

def after (s : Shelf) (events : List (Surroundings × Event)) : Shelf :=
  events.foldl (fun s e => e.2.leaves e.1 s) s

variable {I : Shelf → Prop}

theorem keyed_leaves {s : Shelf} (keyed : s.Keyed) (env : Surroundings) (e : Event) :
    (e.leaves env s).Keyed :=
  (e.reaches env keyed).keeps (fun _ _ ⟨_, _, commit⟩ => commit.keyed) keyed

/-- Whatever the commits of the calls that are asked for keep holds after every run. -/
theorem keeps_after_of_asks {W : Call → Prop}
    (commits : ∀ env call s t, W call → Commit env call s t → I s → I t) {s : Shelf}
    (keyed : s.Keyed) (first : I s) (events : List (Surroundings × Event))
    (asked : ∀ e ∈ events, ∀ call, e.2.Asks call → W call) : I (s.after events) := by
  induction events generalizing s with
  | nil => exact first
  | cons e rest ih =>
    have left : I (e.2.leaves e.1 s) :=
      (e.2.reaches e.1 keyed).keeps
        (fun s t ⟨call, asks, commit⟩ =>
          commits e.1 call s t (asked e List.mem_cons_self call asks) commit) first
    exact ih (keyed_leaves keyed e.1 e.2) left fun f member =>
      asked f (List.mem_cons_of_mem _ member)

theorem keeps_after (commits : ∀ env call s t, Commit env call s t → I s → I t) {s : Shelf}
    (keyed : s.Keyed) (first : I s) (events : List (Surroundings × Event)) :
    I (s.after events) :=
  keeps_after_of_asks (W := fun _ => True) (fun env call s t _ => commits env call s t) keyed first
    events fun _ _ _ _ => trivial

theorem keyed_after {s : Shelf} (keyed : s.Keyed) (events : List (Surroundings × Event)) :
    (s.after events).Keyed :=
  keeps_after (fun _ _ _ _ commit => commit.keyed) keyed keyed events

theorem accurate_after {s : Shelf} (keyed : s.Keyed) (accurate : s.Accurate)
    (events : List (Surroundings × Event)) : (s.after events).Accurate :=
  keeps_after (fun _ _ _ _ commit => commit.accurate) keyed accurate events

theorem catalog_after {s : Shelf} (keyed : s.Keyed) (events : List (Surroundings × Event)) :
    (s.after events).catalog = s.catalog :=
  keeps_after (I := fun t => t.catalog = s.catalog)
    (fun _ _ _ _ commit kept => commit.catalog_eq.trans kept) keyed rfl events

end Shelf

end Cookbook
