import Cookbook.Proofs.Json.ReadBack

/-!
# Values that are read

Whatever is read from a text is well-formed: each number is in its one spelling, and no object names
a member twice, however the text spells the one or repeats the other.
-/

namespace Cookbook

namespace Json

namespace Token

def Canonical : Token → Prop
  | num n => n.Canonical
  | _ => True

variable {cs : List Char} {t : Token} {ts : List Token} {mode mode' : Mode} {c : Char}

theorem canonical_of_unsigned? {negative : Bool} {n : Number}
    (read : unsigned? negative cs = some n) : n.Canonical := by
  have fraction : (Numeral.decimal? negative cs).map Number.float = some n → n.Canonical := by
    intro found
    obtain ⟨x, decimal, rfl⟩ := Option.map_eq_some_iff.mp found
    exact Numeral.canonical_of_decimal? decimal
  unfold unsigned? at read
  dsimp only at read
  split at read
  next => cases read
  split at read
  next => exact Option.some.inj read ▸ trivial
  next =>
    split at read
    next => cases read
    next => exact fraction read
  next => exact fraction read

theorem canonical_of_ofWord? (read : ofWord? cs = some t) : t.Canonical := by
  unfold ofWord? at read
  split at read
  case h_7 =>
    obtain ⟨n, number, rfl⟩ := Option.map_eq_some_iff.mp read
    unfold number? at number
    split at number <;> exact canonical_of_unsigned? number
  all_goals exact Option.some.inj read ▸ trivial

theorem canonical_of_start? (started : start? c = some (mode, ts)) : ∀ t ∈ ts, t.Canonical := by
  unfold start? at started
  repeat' split at started
  all_goals cases started <;> simp [Canonical]

theorem canonical_of_step? (stepped : step? mode c = some (mode', ts)) :
    ∀ t ∈ ts, t.Canonical := by
  cases mode with
  | between => exact canonical_of_start? stepped
  | word done =>
    simp only [step?] at stepped
    split at stepped
    next =>
      cases stepped
      exact List.forall_mem_nil _
    next =>
      obtain ⟨t, word, more⟩ := Option.bind_eq_some_iff.mp stepped
      obtain ⟨⟨m, us⟩, started, more⟩ := Option.bind_eq_some_iff.mp more
      cases more
      exact List.forall_mem_cons.mpr ⟨canonical_of_ofWord? word, canonical_of_start? started⟩
  | text done =>
    simp only [step?] at stepped
    repeat' split at stepped
    all_goals cases stepped <;> simp [Canonical]
  | escape done =>
    simp only [step?] at stepped
    split at stepped
    next =>
      cases stepped
      exact List.forall_mem_nil _
    next =>
      obtain ⟨n, _, more⟩ := Option.map_eq_some_iff.mp stepped
      cases more
      exact List.forall_mem_nil _
  | code done value left =>
    obtain ⟨d, _, more⟩ := Option.map_eq_some_iff.mp stepped
    split at more
    all_goals
      cases more
      exact List.forall_mem_nil _

theorem canonical_of_lex? (lexed : lex? mode cs = some ts) : ∀ t ∈ ts, t.Canonical := by
  induction cs generalizing mode ts with
  | nil =>
    cases mode with
    | between => cases lexed; nofun
    | word done =>
      obtain ⟨t, word, rfl⟩ := Option.map_eq_some_iff.mp lexed
      exact List.forall_mem_singleton.mpr (canonical_of_ofWord? word)
    | _ => cases lexed
  | cons c cs ih =>
    obtain ⟨⟨m, us⟩, stepped, later⟩ := Option.bind_eq_some_iff.mp lexed
    obtain ⟨more, rest, whole⟩ := Option.bind_eq_some_iff.mp later
    cases whole
    exact List.forall_mem_append.mpr ⟨canonical_of_step? stepped, ih rest⟩

end Token

end Json

namespace Members

theorem map_fst_set (ms : Members) (name : String) (value : Json) :
    (set ms name value).map Prod.fst =
      if name ∈ ms.map Prod.fst then ms.map Prod.fst else ms.map Prod.fst ++ [name] := by
  induction ms with
  | nil => rfl
  | cons m ms ih =>
    obtain ⟨k, v⟩ := m
    by_cases here : k = name
    · simp [set, here]
    · have apart : name ≠ k := Ne.symm here
      simp only [set, if_neg here, List.map_cons, ih, List.mem_cons, apart, false_or]
      split <;> rfl

theorem nodup_set {ms : Members} (distinct : (ms.map Prod.fst).Nodup) (name : String)
    (value : Json) : ((set ms name value).map Prod.fst).Nodup := by
  rw [map_fst_set]
  split
  next => exact distinct
  next absent =>
    refine List.nodup_append.mpr
      ⟨distinct, List.pairwise_singleton .., fun k among l last same => ?_⟩
    exact absent (List.mem_singleton.mp last ▸ same ▸ among)

end Members

namespace Json

theorem itemsWellFormed_iff {xs : List Json} : ItemsWellFormed xs ↔ ∀ x ∈ xs, x.WellFormed := by
  induction xs with
  | nil => simp [ItemsWellFormed]
  | cons x xs ih => simp [ItemsWellFormed, ih]

theorem membersWellFormed_iff {ms : Members} :
    MembersWellFormed ms ↔ ∀ m ∈ ms, m.2.WellFormed := by
  induction ms with
  | nil => simp [MembersWellFormed]
  | cons m ms ih => simp [MembersWellFormed, ih]

theorem MembersWellFormed.set {ms : Members} (wellFormed : MembersWellFormed ms) (name : String)
    {value : Json} (part : value.WellFormed) : MembersWellFormed (Members.set ms name value) := by
  induction ms with
  | nil => exact ⟨part, trivial⟩
  | cons m ms ih =>
    rw [Members.set]
    split
    next => exact ⟨part, wellFormed.2⟩
    next => exact ⟨wellFormed.1, ih wellFormed.2⟩

/-- Of members that are repeated the last ones stay, so each name stands once. -/
theorem wellFormed_ofList (ms : List (String × Json)) (parts : ∀ m ∈ ms, m.2.WellFormed) :
    (obj (Members.ofList ms)).WellFormed := by
  induction ms using List.reverseRecOn with
  | nil => exact ⟨.nil, trivial⟩
  | append_singleton ms m ih =>
    obtain ⟨front, last⟩ := List.forall_mem_append.mp parts
    obtain ⟨distinct, members⟩ := ih front
    rw [Members.ofList, List.foldl_append]
    exact ⟨Members.nodup_set distinct _ _, members.set _ (last m (List.mem_singleton_self m))⟩

namespace Reader

/-- What a container has collected is well-formed. -/
def Frame.WellFormed : Frame → Prop
  | .arr done => ∀ x ∈ done, x.WellFormed
  | .obj done _ => ∀ m ∈ done, m.2.WellFormed

def Place.WellFormed : Place → Prop
  | firstKey done | key done | colon done _ => ∀ m ∈ done, m.2.WellFormed
  | finished j => j.WellFormed
  | _ => True

structure State.WellFormed (s : State) : Prop where
  stack : ∀ f ∈ s.stack, f.WellFormed
  place : s.place.WellFormed

variable {stack : List Frame} {s s' : State} {t : Token} {ts : List Token} {j : Json}

theorem wellFormed_give (among : ∀ f ∈ stack, f.WellFormed) (given : j.WellFormed) :
    (give stack j).WellFormed := by
  rcases stack with _ | ⟨_ | _, outer⟩
  · exact ⟨among, given⟩
  all_goals
    obtain ⟨inner, others⟩ := List.forall_mem_cons.mp among
    exact ⟨List.forall_mem_cons.mpr ⟨List.forall_mem_cons.mpr ⟨given, inner⟩, others⟩, trivial⟩

theorem wellFormed_closeArray (among : ∀ f ∈ stack, f.WellFormed) {done : List Json}
    (items : ∀ x ∈ done, x.WellFormed) : (give stack (arr done.reverse)).WellFormed :=
  wellFormed_give among (itemsWellFormed_iff.mpr fun x part => items x (List.mem_reverse.mp part))

theorem wellFormed_closeObject (among : ∀ f ∈ stack, f.WellFormed) {done : List (String × Json)}
    (members : ∀ m ∈ done, m.2.WellFormed) : (closeObject stack done).WellFormed :=
  wellFormed_give among
    (wellFormed_ofList done.reverse fun m part => members m (List.mem_reverse.mp part))

theorem wellFormed_value? (among : ∀ f ∈ stack, f.WellFormed) (canonical : t.Canonical)
    (read : value? stack t = some s') : s'.WellFormed := by
  cases t with
  | openArray =>
    cases read
    exact ⟨List.forall_mem_cons.mpr ⟨nofun, among⟩, trivial⟩
  | openObject =>
    cases read
    exact ⟨among, nofun⟩
  | null | bool | str => cases read; exact wellFormed_give among trivial
  | num n => cases read; exact wellFormed_give among canonical
  | _ => cases read

/-- A step keeps what was collected well-formed. -/
theorem wellFormed_step? (wellFormed : s.WellFormed) (canonical : t.Canonical)
    (stepped : step? s t = some s') : s'.WellFormed := by
  obtain ⟨stack, place⟩ := s
  obtain ⟨among, collected⟩ := wellFormed
  unfold step? at stepped
  dsimp only at stepped among collected
  split at stepped
  case h_1 | h_3 => exact wellFormed_value? among canonical stepped
  case h_2 | h_9 =>
    split at stepped
    next done outer =>
      obtain ⟨items, others⟩ := List.forall_mem_cons.mp among
      exact Option.some.inj stepped ▸ wellFormed_closeArray others items
    next => cases stepped
  case h_4 => exact Option.some.inj stepped ▸ wellFormed_closeObject among collected
  case h_5 | h_6 => exact Option.some.inj stepped ▸ ⟨among, collected⟩
  case h_7 =>
    exact Option.some.inj stepped ▸ ⟨List.forall_mem_cons.mpr ⟨collected, among⟩, trivial⟩
  case h_8 =>
    split at stepped
    next => exact Option.some.inj stepped ▸ ⟨among, trivial⟩
    next done key outer =>
      obtain ⟨members, others⟩ := List.forall_mem_cons.mp among
      exact Option.some.inj stepped ▸ ⟨others, members⟩
    next => cases stepped
  case h_10 =>
    split at stepped
    next done key outer =>
      obtain ⟨members, others⟩ := List.forall_mem_cons.mp among
      exact Option.some.inj stepped ▸ wellFormed_closeObject others members
    next => cases stepped
  case h_11 => cases stepped

theorem wellFormed_of_run? (wellFormed : s.WellFormed) (canonical : ∀ t ∈ ts, t.Canonical)
    (ran : run? s ts = some j) : j.WellFormed := by
  induction ts generalizing s with
  | nil =>
    obtain ⟨stack, place⟩ := s
    cases place with
    | finished v => exact Option.some.inj ran ▸ wellFormed.place
    | _ => cases ran
  | cons t ts ih =>
    obtain ⟨first, others⟩ := List.forall_mem_cons.mp canonical
    obtain ⟨s', stepped, rest⟩ := Option.bind_eq_some_iff.mp ran
    exact ih (wellFormed_step? wellFormed first stepped) others rest

end Reader

/-- Whatever a text writes is read as a well-formed value. -/
theorem wellFormed_of_ofText? {s : String} {j : Json} (read : ofText? s = some j) :
    j.WellFormed := by
  obtain ⟨ts, lexed, ran⟩ := Option.bind_eq_some_iff.mp read
  have start : Reader.State.WellFormed ⟨[], .value⟩ := ⟨nofun, trivial⟩
  exact Reader.wellFormed_of_run? start (Token.canonical_of_lex? lexed) ran

end Json

end Cookbook
