import Cookbook.Json.Printer
import Cookbook.Json.Token
import Cookbook.Proofs.Number.Shortest

/-!
# Numbers in JSON text

A number reads back from its text as the number that it was, and of the same kind: the text of a
binary64 number has a point or a power of ten in it, and that of a whole number has neither.
-/

namespace Cookbook

namespace Numeral

variable {ws fs rest : List Char} {negative : Bool}

/-- A point with the digits after it, if there are any. -/
def pointed : List Char → List Char
  | [] => []
  | ds => '.' :: ds

theorem pointed_eq (nonempty : fs ≠ []) : pointed fs = '.' :: fs := by
  cases fs with
  | nil => exact absurd rfl nonempty
  | cons f fs => rfl

theorem takeWhile_isDigit_append (digits : ∀ d ∈ ws, d.isDigit = true) (rest : List Char)
    (stop : ∀ c ∈ rest.head?, c.isDigit = false) :
    (ws ++ rest).takeWhile Char.isDigit = ws ∧ (ws ++ rest).dropWhile Char.isDigit = rest := by
  rw [List.takeWhile_append_of_pos digits, List.dropWhile_append_of_pos digits]
  cases rest with
  | nil => simp
  | cons c rest =>
    simp [stop c rfl]

/-- Nothing follows that goes on with the digits or the fraction. -/
def Ends (rest : List Char) : Prop := ∀ c ∈ rest.head?, c.isDigit = false ∧ c ≠ '.'

/-- Digits, a point with more digits, and a power of ten are read together. -/
theorem decimal?_eq (whole : ∀ d ∈ ws, d.isDigit = true) (some : ws ≠ [])
    (fraction : ∀ d ∈ fs, d.isDigit = true) (ends : Ends rest) :
    decimal? negative (ws ++ (pointed fs ++ rest)) = (exponent? rest).map fun e =>
      Binary64.ofDecimal negative (ofDigits (ws ++ fs)) (e - fs.length) := by
  have nonempty : ¬(ws.isEmpty = true ∧ fs.isEmpty = true) := by simp [some]
  unfold decimal?
  cases fs with
  | nil =>
    obtain ⟨taken, dropped⟩ := takeWhile_isDigit_append whole rest fun c next => (ends c next).1
    rw [pointed, List.nil_append, taken, dropped]
    dsimp only
    split
    next r => exact absurd rfl (ends '.' rfl).2
    next => exact if_neg nonempty
  | cons f fs =>
    obtain ⟨taken, dropped⟩ := takeWhile_isDigit_append whole (pointed (f :: fs) ++ rest)
      (by rintro c ⟨⟩; rfl)
    obtain ⟨digits, after⟩ := takeWhile_isDigit_append fraction rest fun c next => (ends c next).1
    rw [taken, dropped]
    simp only [pointed, List.cons_append] at digits after ⊢
    rw [digits, after, if_neg nonempty]

theorem ends_nil : Ends [] := fun _ next => nomatch next

theorem exponent?_signed (negative : Bool) {ds : List Char} (digits : ∀ d ∈ ds, d.isDigit = true)
    (nonempty : ds ≠ []) :
    exponent? ('e' :: (if negative then '-' else '+') :: ds) =
      some (withSign negative (ofDigits ds)) := by
  have proper : ¬(ds.isEmpty = true ∨ ds.any (fun d => !d.isDigit) = true) := by
    simpa [nonempty] using digits
  cases negative <;>
    simp only [exponent?, true_or, if_true, if_false, Bool.false_eq_true, signed, if_neg proper]

theorem withSign_natAbs (n : Int) : withSign (decide (n < 0)) n.natAbs = n := by
  simp only [withSign, decide_eq_true_eq]
  split <;> omega

/-- A power of ten is read back, whatever zeros stand in front of its digits. -/
theorem exponent?_eq (e : Int) (width : Nat) :
    exponent? ('e' :: (if e < 0 then '-' else '+') ::
      (List.replicate width '0' ++ Nat.toDigits 10 e.natAbs)) = some e := by
  have digits : ∀ d ∈ List.replicate width '0' ++ Nat.toDigits 10 e.natAbs, d.isDigit = true :=
    List.forall_mem_append.mpr
      ⟨fun _ => isDigit_of_mem_replicate_zero, fun _ => isDigit_of_mem_toDigits⟩
  have read := exponent?_signed (decide (e < 0)) digits (by simp)
  simpa only [ofDigits_zeros_append, ofDigits_toDigits, withSign_natAbs, decide_eq_true_eq]
    using read

end Numeral

namespace Json.Token

variable {ws fs rest : List Char} {negative : Bool}

theorem isWhole_cons {d : Char} {ds : List Char} (digits : ∀ c ∈ d :: ds, c.isDigit = true)
    (leading : d ≠ '0') : isWhole (d :: ds) = true := by
  unfold isWhole
  split
  next empty => cases empty
  next zero => rfl
  next zeros =>
    cases zeros
    exact absurd rfl leading
  next => exact List.all_eq_true.mpr digits

theorem number?_append (negative : Bool) {d : Char} (digit : d.isDigit = true) (cs : List Char) :
    number? ((if negative then ['-'] else []) ++ d :: cs) = unsigned? negative (d :: cs) := by
  cases negative with
  | true => rfl
  | false =>
    simp only [Bool.false_eq_true, if_false, List.nil_append]
    unfold number?
    split
    next same =>
      obtain ⟨rfl, rfl⟩ := List.cons.inj same
      cases digit
    next => rfl

theorem unsigned?_of_whole (negative : Bool) (whole : ∀ d ∈ ws, d.isDigit = true)
    (proper : isWhole ws = true) :
    unsigned? negative ws = some (.int (Numeral.withSign negative (Numeral.ofDigits ws))) := by
  obtain ⟨taken, dropped⟩ := Numeral.takeWhile_isDigit_append whole [] nofun
  rw [List.append_nil] at taken dropped
  unfold unsigned?
  dsimp only
  rw [taken, dropped, proper]
  rfl

theorem exists_cons_of_unsigned? {cs : List Char} {n : Number}
    (read : unsigned? negative cs = some n) : ∃ d ds, cs = d :: ds ∧ d.isDigit = true := by
  cases cs with
  | nil => cases read
  | cons d ds =>
    refine ⟨d, ds, rfl, ?_⟩
    by_contra other
    rw [unsigned?, List.takeWhile_cons_of_neg other] at read
    cases read

/-- A text with a point or a power of ten is read as a binary64 number. -/
theorem unsigned?_of_decimal (whole : ∀ d ∈ ws, d.isDigit = true) (proper : isWhole ws = true)
    (fraction : ∀ d ∈ fs, d.isDigit = true) (ends : Numeral.Ends rest)
    (kind : fs ≠ [] ∨ rest ≠ []) :
    unsigned? negative (ws ++ (Numeral.pointed fs ++ rest)) =
      (Numeral.decimal? negative (ws ++ (Numeral.pointed fs ++ rest))).map .float := by
  have stop : ∀ c ∈ (Numeral.pointed fs ++ rest).head?, c.isDigit = false := by
    cases fs with
    | nil => exact fun c next => (ends c next).1
    | cons f fs =>
      rintro c ⟨⟩
      rfl
  obtain ⟨taken, dropped⟩ := Numeral.takeWhile_isDigit_append whole _ stop
  unfold unsigned?
  dsimp only
  rw [taken, dropped, proper]
  simp only [Bool.not_true, Bool.false_eq_true, if_false]
  cases fs with
  | nil =>
    rw [Numeral.pointed, List.nil_append]
    split
    next => exact absurd rfl (kind.resolve_left (not_not_intro rfl))
    next => exact absurd rfl (ends '.' rfl).2
    next => rfl
  | cons f fs =>
    have some : ¬((f :: fs ++ rest).takeWhile Char.isDigit).isEmpty = true := by
      rw [List.takeWhile_append_of_pos fraction]
      nofun
    exact if_neg some

end Json.Token

namespace Binary64

variable {b : Basin} {ds : List Char} {first : Int}

/-- Digits before and after a point, for a fraction in the basin. -/
structure Basin.Points (b : Basin) (ws fs : List Char) : Prop where
  whole : ∀ d ∈ ws, d.isDigit = true
  proper : Json.Token.isWhole ws = true
  fraction : ∀ d ∈ fs, d.isDigit = true
  nonempty : fs ≠ []
  near : b.Holds (Numeral.ofDigits (ws ++ fs) * (10 : ℚ) ^ (-(fs.length : Int)))

/-- Zeros stand between the point and the first digit. -/
theorem Basin.Spells.points_of_neg (spells : b.Spells ds first) (small : first < 0) :
    b.Points ['0'] (List.replicate (-first - 1).toNat '0' ++ ds) := by
  obtain ⟨digits, ⟨d, rest, parts, _⟩, near⟩ := spells
  refine ⟨List.forall_mem_singleton.mpr rfl, rfl, List.forall_mem_append.mpr
    ⟨fun _ => Numeral.isDigit_of_mem_replicate_zero, digits⟩, by simp [parts], ?_⟩
  rw [← List.append_assoc, ← List.replicate_one, List.replicate_append_replicate,
    Numeral.ofDigits_zeros_append, List.length_append, List.length_replicate]
  rwa [show -(((-first - 1).toNat + ds.length : Nat) : Int) = first + 1 - ds.length by omega]

/-- Zeros stand between the last digit and the point. -/
theorem Basin.Spells.points_of_length_le (spells : b.Spells ds first) {n : Nat}
    (place : first + 1 = n) (room : ds.length ≤ n) :
    b.Points (ds ++ List.replicate (n - ds.length) '0') ['0'] := by
  obtain ⟨digits, ⟨d, rest, parts, leading⟩, near⟩ := spells
  have whole : ∀ c ∈ ds ++ List.replicate (n - ds.length) '0', c.isDigit = true :=
    List.forall_mem_append.mpr ⟨digits, fun _ => Numeral.isDigit_of_mem_replicate_zero⟩
  refine ⟨whole, ?_, List.forall_mem_singleton.mpr rfl, nofun, ?_⟩
  · rw [parts] at whole ⊢
    exact Json.Token.isWhole_cons whole leading
  · have shift : ((n - ds.length + 1 : Nat) : Int) + -(['0'].length : Int) =
        first + 1 - ds.length := by
      rw [List.length_singleton]
      omega
    rw [List.append_assoc, ← List.replicate_one, List.replicate_append_replicate,
      Numeral.ofDigits_append_zeros, Nat.cast_mul, Nat.cast_pow, Nat.cast_ofNat, mul_assoc,
      ← zpow_natCast, ← zpow_add₀ (by norm_num), List.replicate_one, shift]
    exact near

/-- The point stands among the digits. -/
theorem Basin.Spells.points_of_lt_length (spells : b.Spells ds first) {n : Nat}
    (place : first + 1 = n) (some : 0 < n) (more : n < ds.length) :
    b.Points (ds.take n) (ds.drop n) := by
  obtain ⟨digits, ⟨d, rest, parts, leading⟩, near⟩ := spells
  have whole : ∀ c ∈ ds.take n, c.isDigit = true := fun c among =>
    digits c (List.mem_of_mem_take among)
  refine ⟨whole, ?_, fun c among => digits c (List.mem_of_mem_drop among), by simp; omega, ?_⟩
  · obtain ⟨m, rfl⟩ := Nat.exists_eq_succ_of_ne_zero some.ne'
    rw [parts, List.take_succ_cons] at whole ⊢
    exact Json.Token.isWhole_cons whole leading
  · rw [List.take_append_drop, List.length_drop]
    rwa [show -((ds.length - n : Nat) : Int) = first + 1 - ds.length by omega]

/-- The point is moved to its place, and zeros fill the places that have no digit. -/
theorem exists_plainText_eq (spells : b.Spells ds first) :
    ∃ ws fs, plainText ds first = ws ++ Numeral.pointed fs ∧ b.Points ws fs := by
  unfold plainText
  split
  next small =>
    have points := spells.points_of_neg small
    refine ⟨_, _, ?_, points⟩
    rw [Numeral.pointed_eq points.nonempty]
    rfl
  next large =>
    dsimp only
    generalize places : first.toNat + 1 = n
    by_cases room : ds.length ≤ n
    · refine ⟨_, ['0'], ?_, spells.points_of_length_le (by omega) room⟩
      rw [List.drop_eq_nil_of_le room, List.take_of_length_le (by simp; omega)]
      rfl
    · have points := spells.points_of_lt_length (n := n) (by omega) (by omega) (by omega)
      refine ⟨_, _, ?_, points⟩
      rw [Numeral.pointed_eq points.nonempty, show n - ds.length = 0 by omega, List.replicate_zero,
        List.append_nil, if_neg (by simpa using points.nonempty)]

theorem exponentText_cons (n : Spelling) (d : Char) (fs : List Char) (first : Int) :
    exponentText n (d :: fs) first = [d] ++ (Numeral.pointed fs ++
      'e' :: (if first < 0 then '-' else '+') ::
        (List.replicate (n.exponentWidth - (Nat.toDigits 10 first.natAbs).length) '0' ++
          Nat.toDigits 10 first.natAbs)) := by
  cases fs <;> rfl

/-- The text of a number's digits, in either layout, is read as the number. -/
theorem unsigned?_layOut (n : Spelling) {s k : Nat} {negative : Bool}
    (canonical : (finite negative s k).Canonical) (positive : 0 < s)
    (spells : (basin s k).Spells ds first) :
    Json.Token.unsigned? negative (n.layOut (ds, first)) =
      some (.float (finite negative s k)) := by
  unfold Spelling.layOut
  dsimp only
  split
  next =>
    obtain ⟨ws, fs, text, whole, proper, fraction, some, near⟩ := exists_plainText_eq spells
    have nonempty : ws ≠ [] := by
      rintro rfl
      cases proper
    rw [text, ← List.append_nil (Numeral.pointed fs),
      Json.Token.unsigned?_of_decimal whole proper fraction Numeral.ends_nil (.inl some),
      Numeral.decimal?_eq whole nonempty fraction Numeral.ends_nil]
    rw [← zero_sub] at near
    simp only [Numeral.exponent?, Option.map_some, ofDecimal_eq_of_holds canonical positive near]
  next =>
    obtain ⟨digits, ⟨d, fs, rfl, leading⟩, near⟩ := spells
    obtain ⟨digit, fraction⟩ := List.forall_mem_cons.mp digits
    have whole : ∀ c ∈ [d], c.isDigit = true := List.forall_mem_singleton.mpr digit
    have ends (r : List Char) : Numeral.Ends ('e' :: r) := by
      rintro c ⟨⟩
      decide
    rw [exponentText_cons, Json.Token.unsigned?_of_decimal whole
      (Json.Token.isWhole_cons whole leading) fraction (ends _) (.inr nofun),
      Numeral.decimal?_eq whole nofun fraction (ends _), Numeral.exponent?_eq]
    rw [show first + 1 - ((d :: fs).length : Int) = first - fs.length by
      rw [List.length_cons]; omega] at near
    simp only [Option.map_some, List.singleton_append,
      ofDecimal_eq_of_holds canonical positive near]

/-- A binary64 number is read back from its text if it is finite. -/
theorem number?_text (n : Spelling) {x : Binary64} (canonical : x.Canonical)
    (finite : x.isFinite = true) :
    Json.Token.number? (x.text n).toList = some (.float x) := by
  cases x with
  | nan => cases finite
  | infinite negative => cases finite
  | finite negative s k =>
    unfold text
    dsimp only
    rw [String.toList_ofList]
    by_cases zero : s = 0
    · obtain ⟨_, _, normal⟩ := canonical
      have finest : k = 0 := normal.resolve_left (by rw [zero]; decide)
      rw [if_pos zero, zero, finest]
      cases negative <;> rfl
    · have spells := spells_shortest (k := k) (Nat.pos_of_ne_zero zero) canonical.1
      rw [if_neg zero]
      generalize shortest s k = p at spells ⊢
      have read := unsigned?_layOut n canonical (Nat.pos_of_ne_zero zero) spells
      obtain ⟨d, cs, body, digit⟩ := Json.Token.exists_cons_of_unsigned? read
      rw [Prod.mk.eta] at read body
      rw [body, Json.Token.number?_append negative digit, ← body, read]

end Binary64

namespace Json

namespace Token

theorem isWhole_toDigits (n : Nat) : isWhole (Nat.toDigits 10 n) = true := by
  rcases Nat.eq_zero_or_pos n with rfl | positive
  · rfl
  · obtain ⟨d, ds, parts, leading⟩ := Numeral.exists_toDigits_eq_cons positive
    have digits (c : Char) (among : c ∈ Nat.toDigits 10 n) := Numeral.isDigit_of_mem_toDigits among
    rw [parts] at digits ⊢
    exact isWhole_cons digits leading

theorem number?_toDigits (negative : Bool) (n : Nat) :
    number? ((if negative then ['-'] else []) ++ Nat.toDigits 10 n) =
      some (.int (Numeral.withSign negative n)) := by
  have read := unsigned?_of_whole negative (fun _ => Numeral.isDigit_of_mem_toDigits)
    (isWhole_toDigits n)
  obtain ⟨d, ds, parts, digit⟩ := exists_cons_of_unsigned? read
  rw [parts, number?_append negative digit, ← parts, read, Numeral.ofDigits_toDigits]

theorem toList_toString (n : Int) :
    (toString n).toList = (if n < 0 then ['-'] else []) ++ Nat.toDigits 10 n.natAbs := by
  rw [Int.toString_eq_repr, Int.repr_eq_if]
  by_cases negative : n < 0
  · rw [if_neg (by omega), if_pos negative, String.toList_append, Nat.toList_repr,
      show (-n).toNat = n.natAbs by omega]
    rfl
  · rw [if_pos (by omega), if_neg negative, Nat.toList_repr, show n.toNat = n.natAbs by omega]
    rfl

/-- A whole number is read back from its text. -/
theorem number?_toString (n : Int) : number? (toString n).toList = some (.int n) := by
  have read := number?_toDigits (decide (n < 0)) n.natAbs
  rw [Numeral.withSign_natAbs] at read
  simp only [decide_eq_true_eq] at read
  rw [toList_toString, read]

theorem isWordChar_of_isDigit {c : Char} (digit : c.isDigit = true) : isWordChar c = true := by
  simp [isWordChar, Char.isAlphanum, digit]

theorem mem_signed {c : Char} {cs : List Char} (among : c ∈ cs) :
    isWordChar c = true ∨ c ∈ (Numeral.signed cs).2 := by
  unfold Numeral.signed
  split
  · rcases List.mem_cons.mp among with rfl | among
    · exact .inl rfl
    · exact .inr among
  · rcases List.mem_cons.mp among with rfl | among
    · exact .inl rfl
    · exact .inr among
  · exact .inr among

theorem isWordChar_of_exponent? {cs : List Char} {e : Int} (read : Numeral.exponent? cs = some e) :
    ∀ c ∈ cs, isWordChar c = true := by
  cases cs with
  | nil => nofun
  | cons mark cs =>
    rw [Numeral.exponent?] at read
    split at read
    next power =>
      dsimp only at read
      split at read
      next => cases read
      next proper =>
        refine List.forall_mem_cons.mpr ⟨by rcases power with rfl | rfl <;> rfl, fun c among => ?_⟩
        rcases mem_signed among with sign | digit
        · exact sign
        · refine isWordChar_of_isDigit ?_
          by_contra other
          exact proper (.inr (List.any_eq_true.mpr ⟨c, digit, by simpa using other⟩))
    next => cases read

/-- A number is a word. -/
theorem isWordChar_of_decimal? {cs : List Char} {x : Binary64}
    (read : Numeral.decimal? negative cs = some x) : ∀ c ∈ cs, isWordChar c = true := by
  have digits (ds : List Char) : ∀ c ∈ ds.takeWhile Char.isDigit, isWordChar c = true :=
    fun c among => isWordChar_of_isDigit (List.all_eq_true.mp List.all_takeWhile c among)
  unfold Numeral.decimal? at read
  dsimp only at read
  rw [← List.takeWhile_append_dropWhile (p := Char.isDigit) (l := cs)]
  refine List.forall_mem_append.mpr ⟨digits cs, ?_⟩
  split at read
  next r after =>
    rw [after]
    split at read
    next => cases read
    next =>
      obtain ⟨e, power, _⟩ := Option.map_eq_some_iff.mp read
      rw [← List.takeWhile_append_dropWhile (p := Char.isDigit) (l := r)]
      exact List.forall_mem_cons.mpr
        ⟨rfl, List.forall_mem_append.mpr ⟨digits r, isWordChar_of_exponent? power⟩⟩
  next =>
    split at read
    next => cases read
    next =>
      obtain ⟨e, power, _⟩ := Option.map_eq_some_iff.mp read
      exact isWordChar_of_exponent? power

theorem isWordChar_of_unsigned? {cs : List Char} {n : Number}
    (read : unsigned? negative cs = some n) : ∀ c ∈ cs, isWordChar c = true := by
  unfold unsigned? at read
  dsimp only at read
  split at read
  next => cases read
  next =>
    split at read
    next whole =>
      intro c among
      rw [← List.takeWhile_append_dropWhile (p := Char.isDigit) (l := cs), whole,
        List.append_nil] at among
      exact isWordChar_of_isDigit (List.all_eq_true.mp List.all_takeWhile c among)
    next =>
      split at read
      next => cases read
      next =>
        obtain ⟨x, decimal, _⟩ := Option.map_eq_some_iff.mp read
        exact isWordChar_of_decimal? decimal
    next =>
      obtain ⟨x, decimal, _⟩ := Option.map_eq_some_iff.mp read
      exact isWordChar_of_decimal? decimal

theorem isWordChar_of_number? {cs : List Char} {n : Number} (read : number? cs = some n) :
    ∀ c ∈ cs, isWordChar c = true := by
  unfold number? at read
  split at read
  next => exact List.forall_mem_cons.mpr ⟨rfl, isWordChar_of_unsigned? read⟩
  next => exact isWordChar_of_unsigned? read

/-- A word that is read as a number is no other word. -/
theorem ofWord?_of_number? {cs : List Char} {n : Number} (read : number? cs = some n) :
    ofWord? cs = some (.num n) := by
  have other (word : String) (no : number? word.toList = none) : String.ofList cs ≠ word := by
    rintro rfl
    rw [String.toList_ofList, read] at no
    cases no
  unfold ofWord?
  split
  next same => exact absurd same (other "null" rfl)
  next same => exact absurd same (other "true" rfl)
  next same => exact absurd same (other "false" rfl)
  next same => exact absurd same (other "NaN" rfl)
  next same => exact absurd same (other "Infinity" rfl)
  next same => exact absurd same (other "-Infinity" rfl)
  next => rw [read, Option.map_some]

end Token

/-- What the style writes for the number is a word, and is read as the number. -/
structure Style.Spells (style : Style) (n : Number) : Prop where
  word : ∀ c ∈ (numberText style n).toList, Token.isWordChar c = true
  read : Token.ofWord? (numberText style n).toList = some (.num n)

/-- Every style spells the finite numbers. -/
theorem Style.spells_of_isFinite (style : Style) {n : Number} (finite : n.isFinite = true)
    (canonical : n.Canonical) : style.Spells n := by
  have number : Token.number? (numberText style n).toList = some n := by
    cases n with
    | int n => exact Token.number?_toString n
    | float x =>
      cases x with
      | nan => cases finite
      | infinite negative => cases finite
      | finite negative s k => exact Binary64.number?_text _ canonical rfl
  exact ⟨Token.isWordChar_of_number? number, Token.ofWord?_of_number? number⟩

end Json

end Cookbook
