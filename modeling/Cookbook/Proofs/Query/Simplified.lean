import Cookbook.Proofs.Query.Matches

/-!
# Simplified queries

Conjunction and disjunction of three truth values are associative, so flattening a junction, leaving
out its neutral children and cutting it short at a deciding one change no truth, not even an unknown
one.  A simplified predicate therefore selects the same rows.  What it does change is which values
are handed to the database: one that is refused can be lost or laid bare by simplification.
-/

namespace Cookbook

namespace Truth

theorem and_assoc (a b c : Truth) : (a.and b).and c = a.and (b.and c) := by
  rcases a with _ | _ | _ <;> rcases b with _ | _ | _ <;> rcases c with _ | _ | _ <;> rfl

theorem or_assoc (a b c : Truth) : (a.or b).or c = a.or (b.or c) := by
  rcases a with _ | _ | _ <;> rcases b with _ | _ | _ <;> rcases c with _ | _ | _ <;> rfl

@[simp] theorem true_and (t : Truth) : Truth.and (some true) t = t := by
  rcases t with _ | _ | _ <;> rfl

@[simp] theorem and_true (t : Truth) : Truth.and t (some true) = t := by
  rcases t with _ | _ | _ <;> rfl

@[simp] theorem false_or (t : Truth) : Truth.or (some false) t = t := by
  rcases t with _ | _ | _ <;> rfl

@[simp] theorem or_false (t : Truth) : Truth.or t (some false) = t := by
  rcases t with _ | _ | _ <;> rfl

theorem and_eq_false (t : Truth) : Truth.and t (some false) = some false := by
  rcases t with _ | _ | _ <;> rfl

theorem or_eq_true (t : Truth) : Truth.or t (some true) = some true := by
  rcases t with _ | _ | _ <;> rfl

@[simp] theorem not_not (t : Truth) : t.not.not = t := by
  rcases t with _ | _ | _ <;> rfl

/-- The truth of all of some clauses together. -/
def all (ts : List Truth) : Truth := ts.foldr and (some true)

def any (ts : List Truth) : Truth := ts.foldr or (some false)

@[simp] theorem all_nil : all [] = some true := rfl

@[simp] theorem all_cons (t : Truth) (ts : List Truth) : all (t :: ts) = t.and (all ts) := rfl

@[simp] theorem any_nil : any [] = some false := rfl

@[simp] theorem any_cons (t : Truth) (ts : List Truth) : any (t :: ts) = t.or (any ts) := rfl

theorem all_append (ts us : List Truth) : all (ts ++ us) = (all ts).and (all us) := by
  induction ts with
  | nil => simp
  | cons t ts ih => simp [ih, and_assoc]

theorem any_append (ts us : List Truth) : any (ts ++ us) = (any ts).or (any us) := by
  induction ts with
  | nil => simp
  | cons t ts ih => simp [ih, or_assoc]

/-- One false clause decides, whatever is not known of the others. -/
theorem all_eq_false {ts : List Truth} (decided : some false ∈ ts) : all ts = some false := by
  induction ts with
  | nil => cases decided
  | cons t ts ih =>
    rcases List.mem_cons.mp decided with rfl | later
    · simp
    · rw [all_cons, ih later, and_eq_false]

theorem any_eq_true {ts : List Truth} (decided : some true ∈ ts) : any ts = some true := by
  induction ts with
  | nil => cases decided
  | cons t ts ih =>
    rcases List.mem_cons.mp decided with rfl | later
    · simp
    · rw [any_cons, ih later, or_eq_true]

end Truth

namespace Predicate

section Truth

variable (c : Catalog) (r : Recipe)

/-- What a query finds out about a row, if anything. -/
def truth (p : Predicate) : Truth := (Clause.ofPredicate p).eval c r

theorem evalAnd_eq_all (cs : List Clause) :
    Clause.evalAnd c r cs = Truth.all (cs.map (Clause.eval c r)) := by
  induction cs with
  | nil => rfl
  | cons d ds ih => simp [Clause.evalAnd, ih]

theorem evalOr_eq_any (cs : List Clause) :
    Clause.evalOr c r cs = Truth.any (cs.map (Clause.eval c r)) := by
  induction cs with
  | nil => rfl
  | cons d ds ih => simp [Clause.evalOr, ih]

@[simp] theorem truth_all : truth c r all = some true := rfl

@[simp] theorem truth_none : truth c r none = some false := rfl

@[simp] theorem truth_not (p : Predicate) : truth c r (not p) = (p.truth c r).not := rfl

@[simp] theorem truth_and (ps : List Predicate) :
    truth c r (and ps) = Truth.all (ps.map (truth c r)) := by
  rw [truth, Clause.ofPredicate, Clause.eval, evalAnd_eq_all, Clause.ofPredicates_eq_map,
    List.map_cons, List.map_map]
  exact Truth.true_and _

@[simp] theorem truth_or (ps : List Predicate) :
    truth c r (or ps) = Truth.any (ps.map (truth c r)) := by
  rw [truth, Clause.ofPredicate, Clause.eval, evalOr_eq_any, Clause.ofPredicates_eq_map,
    List.map_cons, List.map_map]
  exact Truth.false_or _

theorem all_truth_conjuncts (p : Predicate) :
    Truth.all ((conjuncts p).map (truth c r)) = p.truth c r := by
  cases p <;> simp [conjuncts]

theorem any_truth_disjuncts (p : Predicate) :
    Truth.any ((disjuncts p).map (truth c r)) = p.truth c r := by
  cases p <;> simp [disjuncts]

theorem all_truth_flatMap (ps : List Predicate) :
    Truth.all ((ps.flatMap conjuncts).map (truth c r)) = Truth.all (ps.map (truth c r)) := by
  induction ps with
  | nil => rfl
  | cons p ps ih => simp [Truth.all_append, ih, all_truth_conjuncts]

theorem any_truth_flatMap (ps : List Predicate) :
    Truth.any ((ps.flatMap disjuncts).map (truth c r)) = Truth.any (ps.map (truth c r)) := by
  induction ps with
  | nil => rfl
  | cons p ps ih => simp [Truth.any_append, ih, any_truth_disjuncts]

@[simp] theorem truth_conj (ps : List Predicate) :
    truth c r (conj ps) = Truth.all (ps.map (truth c r)) := by
  unfold conj
  split
  next absorbed => exact (Truth.all_eq_false (List.mem_map.mpr ⟨none, absorbed, rfl⟩)).symm
  next =>
    rw [← all_truth_flatMap]
    generalize ps.flatMap conjuncts = qs
    split <;> simp

@[simp] theorem truth_disj (ps : List Predicate) :
    truth c r (disj ps) = Truth.any (ps.map (truth c r)) := by
  unfold disj
  split
  next absorbed => exact (Truth.any_eq_true (List.mem_map.mpr ⟨all, absorbed, rfl⟩)).symm
  next =>
    rw [← any_truth_flatMap]
    generalize ps.flatMap disjuncts = qs
    split <;> simp

@[simp] theorem truth_negate (p : Predicate) : truth c r (negate p) = (p.truth c r).not := by
  cases p <;> simp [negate]

/-- Simplification keeps the truth of a predicate of every row, the unknown truths of numbers that
compare with nothing included. -/
theorem truth_simplify (p : Predicate) : p.simplify.truth c r = p.truth c r := by
  induction p with
  | and ps ih =>
    have children : (ps.map simplify).map (truth c r) = ps.map (truth c r) := by
      rw [List.map_map]
      exact List.map_congr_left ih
    rw [simplify, simplifyAll_eq_map, truth_conj, children, truth_and]
  | or ps ih =>
    have children : (ps.map simplify).map (truth c r) = ps.map (truth c r) := by
      rw [List.map_map]
      exact List.map_congr_left ih
    rw [simplify, simplifyAll_eq_map, truth_disj, children, truth_or]
  | not p ih => rw [simplify, truth_negate, ih, truth_not]
  | ids is => cases is <;> rfl
  | _ => rfl

end Truth

end Predicate

theorem Catalog.select_simplify (c : Catalog) (p : Predicate) :
    c.select p.simplify = c.select p := by
  refine List.filter_congr fun r _ => ?_
  change (p.simplify.truth c r == some true) = (p.truth c r == some true)
  rw [Predicate.truth_simplify]

namespace Store

variable {α : Type} (s : Store)

/-- The same outcome, unless the database refuses a value of one of the two queries. -/
def AgreesUnlessRefused (x y : Attempt α) : Prop :=
  x = y ∨ ∃ v f, s.refusal v = some f ∧ (x = .error f ∨ y = .error f)

/-- Only a number is refused in a store that takes all texts. -/
theorem AgreesUnlessRefused.overflow {x y : Attempt α} (agrees : s.AgreesUnlessRefused x y)
    (encodes : ∀ t, s.refusal (.text t) = none) :
    x = y ∨ x = .error .overflow ∨ y = .error .overflow := by
  refine agrees.imp_right ?_
  rintro ⟨v, f, refuses, failed⟩
  cases v with
  | number n =>
    simp only [refusal] at refuses
    split at refuses
    · cases refuses
    · rwa [← Option.some.inj refuses] at failed
  | text t => cases (encodes t).symm.trans refuses

variable (op : Operation) (statuses : List String) (answer : α)

theorem serve_cases (values : List Parameter) :
    s.serve op values answer = (if s.down = some (.operation op) then .error (failure op)
      else .ok answer) ∨
    ∃ v ∈ values, ∃ f, s.refusal v = some f ∧ s.serve op values answer = .error f := by
  unfold serve
  split
  · exact .inl rfl
  split
  next f refused =>
    obtain ⟨v, member, refuses⟩ := List.exists_of_findSome?_eq_some refused
    exact .inr ⟨v, member, f, refuses, rfl⟩
  next => exact .inl rfl

/-- Two queries with one answer differ at most in the values that are written into them. -/
theorem query_agrees (p q : Predicate) : s.AgreesUnlessRefused (s.query op p statuses answer)
    (s.query op q statuses answer) := by
  rcases s.serve_cases op answer (p.parameters ++ statuses.map .text) with
    first | ⟨v, _, f, refuses, failed⟩
  · rcases s.serve_cases op answer (q.parameters ++ statuses.map .text) with
      second | ⟨v, _, f, refuses, failed⟩
    · exact .inl (first.trans second.symm)
    · exact .inr ⟨v, f, refuses, .inr failed⟩
  · exact .inr ⟨v, f, refuses, .inl failed⟩

/-- Where the values of a predicate are taken, nothing is refused but a status. -/
theorem query_eq_serve {p : Predicate} (words : ∀ n ∈ p.numbers, n.FitsWord)
    (texts : ∀ t ∈ p.texts, s.refusal (.text t) = none) :
    s.query op p statuses answer = s.serve op (statuses.map .text) answer := by
  have taken : p.parameters.findSome? s.refusal = none := by
    refine List.findSome?_eq_none_iff.mpr fun v written => ?_
    rcases Predicate.mem_parameters written with ⟨n, number, rfl⟩ | ⟨t, text, rfl⟩
    · exact if_pos (words n number)
    · exact texts t text
  unfold query serve
  rw [List.findSome?_append, taken, Option.none_or]

theorem query_simplify {p : Predicate} (words : ∀ n ∈ p.numbers, n.FitsWord)
    (texts : ∀ t ∈ p.texts, s.refusal (.text t) = none) :
    s.query op p.simplify statuses answer = s.query op p statuses answer := by
  rw [query_eq_serve s op statuses answer words texts, query_eq_serve s op statuses answer]
  · exact fun n number => words n (p.numbers_simplify_subset number)
  · exact fun t text => texts t (p.texts_simplify_subset text)

/-- Simplification changes neither what a predicate means nor what a query finds out about a row.
Queries for a predicate and its simplified form agree, in what they find and in how they fail, as
soon as the numbers of the predicate fit a word and its texts are taken; whatever its numbers and
texts are, two answers never differ. -/
theorem queries_simplify (p : Predicate) :
    (∀ c r, p.simplify.holds c r = p.holds c r) ∧
    (∀ c r, p.simplify.truth c r = p.truth c r) ∧
    (∀ s : Store,
      (∀ statuses, s.AgreesUnlessRefused (s.listMatches p.simplify statuses)
        (s.listMatches p statuses)) ∧
      (∀ status, s.AgreesUnlessRefused (s.count p.simplify status) (s.count p status)) ∧
      s.AgreesUnlessRefused (s.countByStatus p.simplify) (s.countByStatus p)) ∧
    ((∀ n ∈ p.numbers, n.FitsWord) → ∀ s : Store,
      (∀ t ∈ p.texts, s.refusal (.text t) = none) →
      (∀ statuses, s.listMatches p.simplify statuses = s.listMatches p statuses) ∧
      (∀ status, s.count p.simplify status = s.count p status) ∧
      s.countByStatus p.simplify = s.countByStatus p) := by
  refine ⟨fun c r => Predicate.holds_simplify c r p, fun c r => Predicate.truth_simplify c r p,
    fun s => ?_, fun words s texts => ?_⟩
  · simp only [listMatches, count, countByStatus, Catalog.select_simplify]
    exact ⟨fun statuses => query_agrees s _ _ _ _ _, fun status => query_agrees s _ _ _ _ _,
      query_agrees s _ _ _ _ _⟩
  · simp only [listMatches, count, countByStatus, Catalog.select_simplify]
    exact ⟨fun statuses => query_simplify s _ _ _ words texts,
      fun status => query_simplify s _ _ _ words texts, query_simplify s _ _ _ words texts⟩

/-- Nested junctions and an empty set of ids around the largest number that fits a word. -/
def layered : Predicate :=
  .and [.or [.not (.not (.numeric .cookTime .lt (.int 0x7FFFFFFFFFFFFFFF))), .or [.ids [], .none]],
    .and [.all, .not (.ids [])]]

def single : Store :=
  ⟨⟨.utc, [], [], [], [{ Recipe.bare "a" Status.published with cookTime := some 5 }]⟩, none⟩

theorem queries_simplify_layered :
    (∀ n ∈ layered.numbers, n.FitsWord) ∧
      layered.simplify = .numeric .cookTime .lt (.int 0x7FFFFFFFFFFFFFFF) ∧
      single.listMatches layered [] = .ok [⟨"a", Status.published, ⟨0⟩⟩] ∧
      single.listMatches layered.simplify [] = single.listMatches layered [] := by
  have words : ∀ n ∈ layered.numbers, n.FitsWord := by decide
  refine ⟨words, by decide, by decide, ?_⟩
  exact ((queries_simplify layered).2.2.2 words single (by decide)).1 []

def beyondWords : Predicate := .numeric .cookTime .eq (.int 0x8000000000000000)

/-- A disjunction of nothing is false, but stands in a query as a test like any other. -/
def besideNothing : Predicate := .and [.or [], beyondWords]

/-- Two negations make a truth value of a conjunction that has no test left; without them it is
written, and so is the number beside it. -/
def besideEverything : Predicate :=
  .or [.not (.not (.and [.relation .cuisine .neq [], .relation .cuisine .neq []])), beyondWords]

/-- With a number that fits no word, simplification can answer a query that failed, and make one
fail that was answered. -/
theorem listMatches_simplify_ne :
    single.listMatches besideNothing [] = .error .overflow ∧
      single.listMatches besideNothing.simplify [] = .ok [] ∧
      single.listMatches besideEverything [] = .ok [⟨"a", Status.published, ⟨0⟩⟩] ∧
      single.listMatches besideEverything.simplify [] = .error .overflow := by
  decide

end Store

end Cookbook
