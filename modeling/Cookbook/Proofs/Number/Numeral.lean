import Cookbook.Proofs.Json.Number
import Cookbook.Proofs.Number.Overflow
import Cookbook.Rule.Value
import Mathlib.Data.List.DropRight

/-!
# Which texts are numerals

A text is read as a number exactly if it is one of a grammar: a sign, digits, a point with more
digits and a power of ten, most of which may be missing, with single underscores between digits.
There are two bounds.  A whole number has no more than so many digits, and what is read as a
binary64 number must not be rounded to an infinity.
-/

namespace Cookbook

namespace Numeral

/-- Every underscore has a digit on either side; `after` says that a digit came before. -/
def Separated (after : Bool) : List Char → Prop
  | [] => True
  | c :: cs => (c = '_' → after = true ∧ ∃ d ∈ cs.head?, d.isDigit = true) ∧
      Separated c.isDigit cs

def unbroken (cs : List Char) : List Char := cs.filter (· ≠ '_')

def AreDigits (ds : List Char) : Prop := ds ≠ [] ∧ ∀ d ∈ ds, d.isDigit = true

/-- Nothing, or a mark with a whole number. -/
inductive Power : List Char → Int → Prop
  | none : Power [] 0
  | some {mark : Char} {cs : List Char} (marked : mark = 'e' ∨ mark = 'E')
      (digits : AreDigits (signed cs).2) :
      Power (mark :: cs) (withSign (signed cs).1 (ofDigits (signed cs).2))

/-- Digits and the power of ten that they are multiplied with.  A point may come after or before all
of the digits. -/
inductive Decimal : List Char → Nat → Int → Prop
  | whole {ws rest : List Char} {e : Int} (digits : AreDigits ws) (power : Power rest e) :
      Decimal (ws ++ rest) (ofDigits ws) e
  | pointed {ws fs rest : List Char} {e : Int} (digits : AreDigits (ws ++ fs))
      (power : Power rest e) :
      Decimal (ws ++ '.' :: (fs ++ rest)) (ofDigits (ws ++ fs)) (e - fs.length)

variable {a : Alphabet} {cs ds ws fs rest : List Char} {after negative : Bool}

@[simp] theorem separated_cons {c : Char} : Separated after (c :: cs) ↔
    (c = '_' → after = true ∧ ∃ d ∈ cs.head?, d.isDigit = true) ∧ Separated c.isDigit cs := Iff.rfl

theorem ne_underscore {d : Char} (digit : d.isDigit = true) : d ≠ '_' := by
  rintro rfl
  cases digit

theorem unbroken_cons {c : Char} (visible : c ≠ '_') : unbroken (c :: cs) = c :: unbroken cs :=
  List.filter_cons_of_pos (decide_eq_true visible)

/-- The underscores are taken out if each of them stands between digits. -/
theorem withoutUnderscores?_eq_some_iff :
    withoutUnderscores? after cs = some ds ↔ Separated after cs ∧ unbroken cs = ds := by
  induction after, cs using withoutUnderscores?.induct generalizing ds with
  | case1 after => simp [withoutUnderscores?, Separated, unbroken]
  | case2 after d rest between ih =>
    obtain ⟨came, digit⟩ := Bool.and_eq_true_iff.mp between
    have gap : unbroken ('_' :: d :: rest) = d :: unbroken rest :=
      unbroken_cons (ne_underscore digit)
    simp [withoutUnderscores?, came, digit, ih, gap, ne_underscore digit, and_assoc]
  | case3 after d rest between =>
    simp only [withoutUnderscores?, if_neg between, reduceCtorEq, false_iff]
    rintro ⟨⟨proper, _⟩, _⟩
    obtain ⟨came, _, ⟨⟩, digit⟩ := proper rfl
    exact between (Bool.and_eq_true_iff.mpr ⟨came, digit⟩)
  | case4 after => simp [withoutUnderscores?]
  | case5 after c rest single double ih =>
    have visible : c ≠ '_' := by
      rintro rfl
      cases rest with
      | nil => exact double rfl rfl
      | cons d rest => exact single d rest rfl rfl
    rw [withoutUnderscores?, unbroken_cons visible]
    · simp [ih, visible, and_assoc]
    · exact single
    · exact double

theorem Separated.exists_head? (separated : Separated false cs) (nonempty : cs ≠ [])
    (digits : ∀ d ∈ unbroken cs, d.isDigit = true) : ∃ d ∈ cs.head?, d.isDigit = true := by
  cases cs with
  | nil => exact absurd rfl nonempty
  | cons c cs =>
    have visible : c ≠ '_' := fun gap => nomatch (separated.1 gap).1
    rw [unbroken_cons visible] at digits
    exact ⟨c, rfl, digits c List.mem_cons_self⟩

/-- Digits are read if there are some, after underscores are taken out. -/
theorem digitRun?_eq_some_iff : digitRun? after cs = some ds ↔
    Separated after cs ∧ unbroken cs = ds ∧ (∀ d ∈ ds, d.isDigit = true) ∧
      (after = false → cs ≠ []) := by
  induction after, cs using digitRun?.induct generalizing ds with
  | case1 =>
    simp only [digitRun?, Separated, unbroken, if_true, List.filter_nil, Option.some.injEq]
    constructor
    · rintro rfl
      exact ⟨trivial, rfl, List.forall_mem_nil _, nofun⟩
    · exact fun ⟨_, same, _⟩ => same
  | case2 after came => simp [digitRun?, came]
  | case3 rest ih =>
    rw [digitRun?, if_pos rfl, ih, separated_cons]
    constructor
    · rintro ⟨separated, rfl, digits, nonempty⟩
      exact ⟨⟨fun _ => ⟨rfl, separated.exists_head? (nonempty rfl) digits⟩, separated⟩, rfl, digits,
        nofun⟩
    · rintro ⟨⟨between, separated⟩, same, digits, _⟩
      refine ⟨separated, same, digits, ?_⟩
      rintro - rfl
      obtain ⟨_, _, ⟨⟩, _⟩ := between rfl
  | case4 after rest came => simp [digitRun?, came]
  | case5 after c rest visible digit ih =>
    rw [digitRun?, if_pos digit, unbroken_cons visible]
    · simp only [Option.map_eq_some_iff, ih, separated_cons, digit]
      constructor
      · rintro ⟨ds, ⟨separated, rfl, digits, _⟩, rfl⟩
        exact ⟨⟨fun gap => absurd gap visible, separated⟩, rfl,
          List.forall_mem_cons.mpr ⟨digit, digits⟩, nofun⟩
      · rintro ⟨⟨_, separated⟩, rfl, digits, _⟩
        exact ⟨_, ⟨separated, rfl, (List.forall_mem_cons.mp digits).2, nofun⟩, rfl⟩
    · exact visible
  | case6 after c rest visible digit =>
    rw [digitRun?, if_neg digit, unbroken_cons visible]
    · simp only [reduceCtorEq, false_iff]
      rintro ⟨_, rfl, digits, _⟩
      exact digit (digits c List.mem_cons_self)
    · exact visible

theorem Separated.unbroken_eq_nil_iff (separated : Separated false cs) :
    unbroken cs = [] ↔ cs = [] := by
  cases cs with
  | nil => exact Iff.rfl
  | cons c cs =>
    have visible : c ≠ '_' := fun gap => nomatch (separated.1 gap).1
    simp [unbroken_cons visible]

theorem digitRun?_false_eq_some_iff : digitRun? false cs = some ds ↔
    Separated false cs ∧ unbroken cs = ds ∧ AreDigits ds := by
  rw [digitRun?_eq_some_iff]
  constructor
  · rintro ⟨separated, rfl, digits, nonempty⟩
    exact ⟨separated, rfl, separated.unbroken_eq_nil_iff.not.mpr (nonempty rfl), digits⟩
  · rintro ⟨separated, rfl, nonempty, digits⟩
    exact ⟨separated, rfl, digits, fun _ => separated.unbroken_eq_nil_iff.not.mp nonempty⟩

section Signs

theorem signed_cons {c : Char} (minus : c ≠ '-') (plus : c ≠ '+') (cs : List Char) :
    signed (c :: cs) = (false, c :: cs) := by
  unfold signed
  split
  next same => exact absurd (List.cons.inj same).1 minus
  next same => exact absurd (List.cons.inj same).1 plus
  next => rfl

theorem separated_signed : Separated false (signed cs).2 ↔ Separated false cs := by
  unfold signed
  split
  · exact ⟨fun separated => ⟨nofun, separated⟩, And.right⟩
  · exact ⟨fun separated => ⟨nofun, separated⟩, And.right⟩
  · exact Iff.rfl

/-- No underscore stands before a sign or after it. -/
theorem signed_unbroken (separated : Separated false cs) :
    signed (unbroken cs) = ((signed cs).1, unbroken (signed cs).2) := by
  cases cs with
  | nil => rfl
  | cons c cs =>
    have visible : c ≠ '_' := fun gap => nomatch (separated.1 gap).1
    by_cases minus : c = '-'
    · subst minus
      rfl
    by_cases plus : c = '+'
    · subst plus
      rfl
    rw [unbroken_cons visible, signed_cons minus plus, signed_cons minus plus,
      unbroken_cons visible]

/-- The texts that are read as a whole number, and the number. -/
theorem int?_eq_some_iff {n : Int} : int? a cs = some n ↔ Separated false (a.plain cs) ∧
    AreDigits (signed (unbroken (a.plain cs))).2 ∧
    (signed (unbroken (a.plain cs))).2.length ≤ maxDigits ∧
    withSign (signed (unbroken (a.plain cs))).1 (ofDigits (signed (unbroken (a.plain cs))).2) =
      n := by
  unfold int?
  generalize a.plain cs = text
  dsimp only
  constructor
  · intro read
    split at read
    next ds run =>
      obtain ⟨separated, rfl, digits⟩ := digitRun?_false_eq_some_iff.mp run
      rw [separated_signed] at separated
      rw [signed_unbroken separated]
      split at read
      next few => exact ⟨separated, digits, few, Option.some.inj read⟩
      next => cases read
    next => cases read
  · rintro ⟨separated, digits, few, rfl⟩
    rw [signed_unbroken separated] at digits few ⊢
    have run := digitRun?_false_eq_some_iff.mpr ⟨separated_signed.mpr separated, rfl, digits⟩
    rw [run]
    exact if_pos few

theorem exists_int?_iff : (∃ n, int? a cs = some n) ↔ Separated false (a.plain cs) ∧
    AreDigits (signed (unbroken (a.plain cs))).2 ∧
    (signed (unbroken (a.plain cs))).2.length ≤ maxDigits := by
  simp only [int?_eq_some_iff, exists_and_left, exists_eq', and_true]

end Signs

theorem exponent?_eq_some_iff {e : Int} : exponent? cs = some e ↔ Power cs e := by
  constructor
  · intro read
    cases cs with
    | nil =>
      obtain rfl := Option.some.inj read
      exact .none
    | cons mark cs =>
      rw [exponent?] at read
      split at read
      next marked =>
        dsimp only at read
        split at read
        next => cases read
        next digits =>
          obtain rfl := Option.some.inj read
          refine .some marked ?_
          simpa [AreDigits] using digits
      next => cases read
  · intro power
    cases power with
    | none => rfl
    | @some mark cs marked digits =>
      have proper : ¬((signed cs).2.isEmpty = true ∨ (signed cs).2.any (!·.isDigit) = true) := by
        simpa [AreDigits] using digits
      rw [exponent?, if_pos marked]
      exact if_neg proper

theorem Power.ends {e : Int} (power : Power cs e) : Ends cs := by
  cases power with
  | none => exact ends_nil
  | some marked => 
    rintro c ⟨⟩
    rcases marked with rfl | rfl <;> decide

theorem decimal?_pointed (digits : AreDigits (ws ++ fs)) (ends : Ends rest) :
    decimal? negative (ws ++ '.' :: (fs ++ rest)) = (exponent? rest).map fun e =>
      Binary64.ofDecimal negative (ofDigits (ws ++ fs)) (e - fs.length) := by
  obtain ⟨nonempty, digits⟩ := digits
  obtain ⟨whole, fraction⟩ := List.forall_mem_append.mp digits
  have some : ¬(ws.isEmpty = true ∧ fs.isEmpty = true) := by simpa using nonempty
  obtain ⟨taken, dropped⟩ := takeWhile_isDigit_append whole ('.' :: (fs ++ rest))
    (by rintro c ⟨⟩; rfl)
  obtain ⟨taken', dropped'⟩ := takeWhile_isDigit_append fraction rest fun c next => (ends c next).1
  unfold decimal?
  rw [taken, dropped]
  simp only [taken', dropped', if_neg some]

/-- The texts that are read as decimals, and the numbers that they stand for. -/
theorem decimal?_eq_some_iff {x : Binary64} : decimal? negative cs = some x ↔
    ∃ m e, Decimal cs m e ∧ Binary64.ofDecimal negative m e = x := by
  constructor
  · intro read
    have whole : ∀ d ∈ cs.takeWhile Char.isDigit, d.isDigit = true :=
      List.all_eq_true.mp List.all_takeWhile
    have parts := List.takeWhile_append_dropWhile (p := Char.isDigit) (l := cs)
    unfold decimal? at read
    generalize cs.takeWhile Char.isDigit = ws at whole parts read
    generalize cs.dropWhile Char.isDigit = rest at parts read
    subst parts
    dsimp only at read
    split at read
    next r =>
      have fraction : ∀ d ∈ r.takeWhile Char.isDigit, d.isDigit = true :=
        List.all_eq_true.mp List.all_takeWhile
      have parts := List.takeWhile_append_dropWhile (p := Char.isDigit) (l := r)
      split at read
      next => cases read
      next some =>
        obtain ⟨e, power, rfl⟩ := Option.map_eq_some_iff.mp read
        refine ⟨_, _, ?_, rfl⟩
        nth_rewrite 1 [← parts]
        refine .pointed ⟨?_, List.forall_mem_append.mpr ⟨whole, fraction⟩⟩
          (exponent?_eq_some_iff.mp power)
        simpa using some
    next =>
      split at read
      next => cases read
      next some =>
        obtain ⟨e, power, rfl⟩ := Option.map_eq_some_iff.mp read
        refine ⟨_, _, .whole ⟨?_, whole⟩ (exponent?_eq_some_iff.mp power), ?_⟩
        · simpa using some
        · simp
  · rintro ⟨m, e, decimal, rfl⟩
    cases decimal with
    | whole digits power =>
      have fraction : ∀ d ∈ ([] : List Char), d.isDigit = true := List.forall_mem_nil _
      have read := @decimal?_eq _ [] _ negative digits.2 digits.1 fraction power.ends
      rw [exponent?_eq_some_iff.mpr power] at read
      simpa [pointed] using read
    | pointed digits power =>
      rw [decimal?_pointed digits power.ends, exponent?_eq_some_iff.mpr power]
      rfl

section Words

theorem isLower_foldAscii_of_isDigit {d : Char} (digit : d.isDigit = true) :
    (Text.foldAscii d).isLower = false := by
  simp only [Text.foldAscii, Char.isDigit] at digit ⊢
  delta Char.toLower Char.isLower
  split <;> grind

theorem Decimal.exists_cons {m : Nat} {e : Int} (decimal : Decimal cs m e) :
    ∃ c rest, cs = c :: rest ∧ (c.isDigit = true ∨ c = '.') := by
  have begins {ds rest : List Char} (digits : AreDigits ds) :
      ∃ c cs, ds ++ rest = c :: cs ∧ (c.isDigit = true ∨ c = '.') := by
    obtain ⟨nonempty, digits⟩ := digits
    cases ds with
    | nil => exact absurd rfl nonempty
    | cons d ds => exact ⟨d, ds ++ rest, rfl, .inl (digits d List.mem_cons_self)⟩
  cases decimal with
  | whole digits _ => exact begins digits
  | @pointed ws _ _ _ digits _ =>
    cases ws with
    | nil => exact ⟨'.', _, rfl, .inr rfl⟩
    | cons w ws =>
      exact ⟨w, _, rfl, .inl (digits.2 w (List.mem_append_left _ List.mem_cons_self))⟩

/-- A text that begins with a digit or a point is not one of the words for infinities and others. -/
theorem Decimal.ne_word {m : Nat} {e : Int} (decimal : Decimal cs m e) {c : Char}
    {rest : List Char} (letter : c.isLower = true) :
    cs.map Text.foldAscii ≠ c :: rest := by
  obtain ⟨d, tail, rfl, first⟩ := decimal.exists_cons
  intro same
  obtain ⟨rfl, _⟩ := List.cons.inj same
  rcases first with digit | rfl
  · rw [isLower_foldAscii_of_isDigit digit] at letter
    cases letter
  · cases letter

/-- The texts that are read as a finite number, and the number. -/
theorem float?_eq_some_iff {x : Binary64} (finite : x.isFinite = true) :
    float? a cs = some x ↔ Separated false (a.plain cs) ∧
    ∃ m e, Decimal (signed (unbroken (a.plain cs))).2 m e ∧
      Binary64.ofDecimal (signed (unbroken (a.plain cs))).1 m e = x := by
  unfold float?
  generalize a.plain cs = text
  constructor
  · intro read
    obtain ⟨plain, unbroken, read⟩ := Option.bind_eq_some_iff.mp read
    obtain ⟨separated, rfl⟩ := withoutUnderscores?_eq_some_iff.mp unbroken
    refine ⟨separated, ?_⟩
    dsimp only at read
    split at read
    next =>
      obtain rfl := Option.some.inj read
      cases finite
    split at read
    next =>
      obtain rfl := Option.some.inj read
      cases finite
    next => exact decimal?_eq_some_iff.mp read
  · rintro ⟨separated, m, e, decimal, rfl⟩
    refine Option.bind_eq_some_iff.mpr
      ⟨_, withoutUnderscores?_eq_some_iff.mpr ⟨separated, rfl⟩, ?_⟩
    have word {c : Char} {cs : List Char} (letter : c.isLower = true) :
        String.ofList ((signed (unbroken text)).2.map Text.foldAscii) ≠ String.ofList (c :: cs) :=
      fun same => decimal.ne_word letter (String.ofList_injective same)
    dsimp only
    rw [if_neg, if_neg]
    · exact decimal?_eq_some_iff.mpr ⟨m, e, decimal, rfl⟩
    · exact word rfl
    · exact fun same => same.elim (word rfl) (word rfl)

end Words

/-- The number that a text writes.  Digits with a sign write a whole number if there are not too
many of them, and any other decimal writes the binary64 number nearest to it, unless it is too
large.  The text has no blanks around it any more and only plain digits. -/
inductive Writes (cs : List Char) : Number → Prop
  | whole (separated : Separated false cs) (digits : AreDigits (signed (unbroken cs)).2)
      (few : (signed (unbroken cs)).2.length ≤ maxDigits) :
      Writes cs
        (.int (withSign (signed (unbroken cs)).1 (ofDigits (signed (unbroken cs)).2)))
  | decimal {m : Nat} {e : Int} (separated : Separated false cs)
      (decimal : Decimal (signed (unbroken cs)).2 m e)
      (other : ¬ (AreDigits (signed (unbroken cs)).2 ∧
        (signed (unbroken cs)).2.length ≤ maxDigits))
      (small : m * (10 : ℚ) ^ e < Binary64.overflow) :
      Writes cs (.float (.ofDecimal (signed (unbroken cs)).1 m e))

/-- The grammar of numerals: whole numbers that are not too long, and decimals that are not too
large.  The text has no blanks around it any more and only plain digits. -/
def Numeric (cs : List Char) : Prop :=
  Separated false cs ∧
    (AreDigits (signed (unbroken cs)).2 ∧ (signed (unbroken cs)).2.length ≤ maxDigits ∨
      ∃ m e, Decimal (signed (unbroken cs)).2 m e ∧ m * (10 : ℚ) ^ e < Binary64.overflow)

theorem numeric_iff_exists_writes : Numeric cs ↔ ∃ n, Writes cs n := by
  constructor
  · rintro ⟨separated, whole⟩
    by_cases short : AreDigits (signed (unbroken cs)).2 ∧
        (signed (unbroken cs)).2.length ≤ maxDigits
    · exact ⟨_, .whole separated short.1 short.2⟩
    · obtain ⟨m, e, decimal, small⟩ := whole.resolve_left short
      exact ⟨_, .decimal separated decimal short small⟩
  · rintro ⟨n, writes⟩
    cases writes with
    | whole separated digits few => exact ⟨separated, .inl ⟨digits, few⟩⟩
    | decimal separated decimal _ small => exact ⟨separated, .inr ⟨_, _, decimal, small⟩⟩

/-- A text is read as a whole number if it writes one, and as a binary64 number otherwise. -/
theorem writes_iff {n : Number} : Writes (a.plain cs) n ↔
    (∃ i, int? a cs = some i ∧ n = .int i) ∨
      int? a cs = none ∧ ∃ x, float? a cs = some x ∧ x.isFinite = true ∧ n = .float x := by
  have unread : int? a cs = none ↔ ¬ ∃ i, int? a cs = some i := by
    rw [← Option.isSome_iff_exists, Bool.not_eq_true, Option.isSome_eq_false_iff,
      Option.isNone_iff_eq_none]
  constructor
  · intro writes
    cases writes with
    | whole separated digits few =>
      exact .inl ⟨_, int?_eq_some_iff.mpr ⟨separated, digits, few, rfl⟩, rfl⟩
    | decimal separated decimal other small =>
      have finite : (Binary64.ofDecimal (signed (unbroken (a.plain cs))).1 _ _).isFinite = true :=
        (Binary64.isFinite_ofDecimal_iff _ _).mpr small
      refine .inr ⟨unread.mpr fun whole => ?_, _,
        (float?_eq_some_iff finite).mpr ⟨separated, _, _, decimal, rfl⟩, finite, rfl⟩
      exact other (exists_int?_iff.mp whole).2
  · rintro (⟨i, read, rfl⟩ | ⟨none, x, read, finite, rfl⟩)
    · obtain ⟨separated, digits, few, rfl⟩ := int?_eq_some_iff.mp read
      exact .whole separated digits few
    · obtain ⟨separated, m, e, decimal, rfl⟩ := (float?_eq_some_iff finite).mp read
      refine .decimal separated decimal (fun short => ?_)
        ((Binary64.isFinite_ofDecimal_iff _ _).mp finite)
      exact unread.mp none (exists_int?_iff.mpr ⟨separated, short⟩)

end Numeral

namespace Text

variable {class? : Char → Bool}

theorem trim_eq (cs : List Char) :
    trim class? cs = (cs.dropWhile class?).rdropWhile class? := rfl

theorem trim_trim (cs : List Char) : trim class? (trim class? cs) = trim class? cs := by
  rw [trim_eq, trim_eq]
  have visible := List.dropWhile_idempotent class? cs
  generalize cs.dropWhile class? = kept at visible ⊢
  have front : (kept.rdropWhile class?).dropWhile class? = kept.rdropWhile class? := by
    obtain ⟨last, parts⟩ := List.rdropWhile_prefix class? (l := kept)
    generalize kept.rdropWhile class? = text at parts ⊢
    cases text with
    | nil => rfl
    | cons c text =>
      subst parts
      refine List.dropWhile_eq_self_iff.mpr fun some => ?_
      exact List.dropWhile_eq_self_iff.mp visible (by simp)
  rw [front, List.rdropWhile_idempotent]

end Text

namespace Json

/-- A finite number, or a text that spells one. -/
def IsNumeric : Json → Prop
  | num n => n.isFinite = true
  | str s => Numeral.Numeric (Numeral.unicode.plain s.toList)
  | _ => False

/-- A finite number denotes itself, and a text the number that it writes. -/
inductive Denotes : Json → Number → Prop
  | number {n : Number} (finite : n.isFinite = true) : Denotes (num n) n
  | text {s : String} {n : Number} (writes : Numeral.Writes (Numeral.unicode.plain s.toList) n) :
      Denotes (str s) n

theorem isNumeric_iff_exists_denotes (j : Json) : j.IsNumeric ↔ ∃ n, j.Denotes n := by
  constructor
  · intro numeric
    cases j with
    | num n => exact ⟨n, .number numeric⟩
    | str s =>
      obtain ⟨n, writes⟩ := Numeral.numeric_iff_exists_writes.mp numeric
      exact ⟨n, .text writes⟩
    | _ => exact numeric.elim
  · rintro ⟨n, denotes⟩
    cases denotes with
    | number finite => exact finite
    | text writes => exact Numeral.numeric_iff_exists_writes.mpr ⟨n, writes⟩

theorem denotes_str_iff {s : String} {n : Number} :
    (str s).Denotes n ↔ Numeral.Writes (Numeral.unicode.plain s.toList) n :=
  ⟨fun (.text writes) => writes, .text⟩

/-- What a value is read as is the number that it denotes. -/
theorem number?_eq_some_iff {j : Json} {n : Number} : j.number? = some n ↔ j.Denotes n := by
  cases j with
  | num m =>
    rw [number?, Option.ite_none_right_eq_some, Option.some.injEq]
    constructor
    · rintro ⟨finite, rfl⟩
      exact .number finite
    · rintro (finite | _)
      exact ⟨finite, rfl⟩
  | str s =>
    have trimmed : Numeral.unicode.plain (Text.trim Text.isBlank s.toList) =
        Numeral.unicode.plain s.toList := by
      simp only [Numeral.Alphabet.plain, Numeral.unicode, Text.trim_trim]
    rw [denotes_str_iff, ← trimmed, Numeral.writes_iff, number?, numeral?]
    split
    next i whole => simp only [whole, Option.some.injEq, reduceCtorEq, false_and, or_false,
        exists_eq_left', eq_comm]
    next other =>
      split
      next x decimal =>
        simp only [other, decimal, reduceCtorEq, false_and, exists_false, false_or, true_and,
          Option.some.injEq, Option.ite_none_right_eq_some]
        constructor
        · rintro ⟨finite, rfl⟩
          exact ⟨x, rfl, finite, rfl⟩
        · rintro ⟨_, rfl, finite, rfl⟩
          exact ⟨finite, rfl⟩
      next other' => simp [other, other']
  | _ => exact ⟨nofun, nofun⟩

theorem isSome_number?_iff (j : Json) : j.number?.isSome = true ↔ j.IsNumeric := by
  rw [Option.isSome_iff_exists, isNumeric_iff_exists_denotes]
  simp only [number?_eq_some_iff]

end Json

end Cookbook
