import Cookbook.Proofs.Json.Number

/-!
# Tokens of written text

A text is read back from its quoted form, character by character: an escape stands for the character
that it was written for, and the halves of a pair meet again.  A word ends where no character of a
word follows.
-/

namespace Cookbook.Json.Token

variable {m m' : Mode} {c : Char} {cs rest : List Char} {done : List Nat} {ts : List Token}

theorem lex?_cons (step : step? m c = some (m', ts)) :
    lex? m (c :: cs) = (lex? m' cs).map (ts ++ ·) := by
  simp only [lex?, step, Option.bind_eq_bind, Option.bind_some]
  cases lex? m' cs <;> rfl

/-- A character that ends no token. -/
theorem lex?_cons_of_nil (m' : Mode) (step : step? m c = some (m', [])) :
    lex? m (c :: cs) = lex? m' cs := by
  rw [lex?_cons step]
  cases lex? m' cs <;> rfl

section Escapes

theorem hexValue?_hexDigit {d : Nat} (small : d < 16) : hexValue? (Text.hexDigit d) = some d := by
  decide +revert

theorem lex?_code {value left d : Nat} (small : d < 16) (more : 1 < left) :
    lex? (.code done value left) (Text.hexDigit d :: cs) =
      lex? (.code done (value * 16 + d) (left - 1)) cs := by
  refine lex?_cons_of_nil _ ?_
  rw [step?, hexValue?_hexDigit small, Option.map_some]
  exact congrArg some (if_neg (by omega))

/-- Four hexadecimal digits are read as the unit that they were written for. -/
theorem lex?_unitEscape {n : Nat} (small : n < 0x10000) :
    lex? (.text done) (unitEscape n ++ rest) = lex? (.text (n :: done)) rest := by
  have written : unitEscape n ++ rest = '\\' :: 'u' :: Text.hexDigit (n / 16 ^ 3 % 16) ::
      Text.hexDigit (n / 16 ^ 2 % 16) :: Text.hexDigit (n / 16 ^ 1 % 16) ::
        Text.hexDigit (n / 16 ^ 0 % 16) :: rest := rfl
  have digit (k : Nat) : k % 16 < 16 := Nat.mod_lt k (by decide)
  have last {value d : Nat} (small : d < 16) : lex? (.code done value 1) (Text.hexDigit d :: rest) =
      lex? (.text ((value * 16 + d) :: done)) rest := by
    refine lex?_cons_of_nil _ ?_
    rw [step?, hexValue?_hexDigit small, Option.map_some]
    rfl
  rw [written, lex?_cons_of_nil (.escape done) rfl, lex?_cons_of_nil (.code done 0 4) rfl,
    lex?_code (digit _) (by decide), lex?_code (digit _) (by decide),
    lex?_code (digit _) (by decide), last (digit _)]
  congr 3
  omega

/-- The units that stand for a character: itself, or the halves of a pair where all is ASCII. -/
def units (asciiOnly : Bool) (c : Char) : List Nat :=
  if asciiOnly = true ∧ 0x10000 ≤ c.toNat then
    [0xd800 + (c.toNat - 0x10000) / 0x400, 0xdc00 + (c.toNat - 0x10000) % 0x400]
  else [c.toNat]

theorem units_of_lt {asciiOnly : Bool} (small : asciiOnly = true → c.toNat < 0x10000) :
    units asciiOnly c = [c.toNat] :=
  if_neg fun ⟨only, large⟩ => absurd (small only) (Nat.not_lt.mpr large)

theorem lex?_shortEscape {asciiOnly : Bool} {mark : Char} (escaped : escaped? mark = some c.toNat)
    (plain : mark ≠ 'u') (small : c.toNat < 0x10000) :
    lex? (.text done) ('\\' :: mark :: rest) =
      lex? (.text ((units asciiOnly c).reverse ++ done)) rest := by
  rw [units_of_lt fun _ => small, lex?_cons_of_nil (.escape done) rfl]
  refine lex?_cons_of_nil _ ?_
  rw [step?, if_neg plain, escaped]
  rfl

/-- What is written for a character is read as the units that stand for it. -/
theorem lex?_escapedChar (asciiOnly : Bool) (c : Char) :
    lex? (.text done) (escapedChar asciiOnly c ++ rest) =
      lex? (.text ((units asciiOnly c).reverse ++ done)) rest := by
  unfold escapedChar
  split
  next mark =>
    rcases mark with rfl | rfl
    · exact lex?_shortEscape rfl (by decide) (by decide)
    · exact lex?_shortEscape rfl (by decide) (by decide)
  next mark =>
  split
  next line =>
    rw [line]
    exact lex?_shortEscape rfl (by decide) (by decide)
  split
  next back =>
    rw [back]
    exact lex?_shortEscape rfl (by decide) (by decide)
  split
  next tab =>
    rw [tab]
    exact lex?_shortEscape rfl (by decide) (by decide)
  split
  next bell => exact lex?_shortEscape (by rw [bell]; rfl) (by decide) (by omega)
  split
  next form => exact lex?_shortEscape (by rw [form]; rfl) (by decide) (by omega)
  split
  next hidden =>
    unfold unicodeEscape
    dsimp only
    split
    next small =>
      rw [units_of_lt fun _ => small]
      exact lex?_unitEscape small
    next large =>
      have valid : c.toNat.isValidChar := c.valid
      have only : asciiOnly = true := by
        rcases hidden with control | ⟨only, _⟩
        · omega
        · exact only
      rw [List.append_assoc, lex?_unitEscape (by omega), lex?_unitEscape (by omega), units,
        if_pos ⟨only, Nat.not_lt.mp large⟩]
      rfl
  next shown =>
    rw [units_of_lt fun only => by
      by_contra large
      exact shown (.inr ⟨only, by omega⟩)]
    refine lex?_cons_of_nil _ ?_
    obtain ⟨quote, backslash⟩ := not_or.mp mark
    rw [step?, if_neg quote, if_neg backslash, if_neg fun control => shown (.inl control)]
    rfl

theorem lex?_flatMap_escapedChar (asciiOnly : Bool) (cs : List Char) (done : List Nat) :
    lex? (.text done) (cs.flatMap (escapedChar asciiOnly) ++ rest) =
      lex? (.text ((cs.flatMap (units asciiOnly)).reverse ++ done)) rest := by
  induction cs generalizing done with
  | nil => rfl
  | cons c cs ih =>
    rw [List.flatMap_cons, List.append_assoc, lex?_escapedChar, ih, List.flatMap_cons,
      List.reverse_append, List.append_assoc]

theorem joinHalves_units_append (asciiOnly : Bool) (c : Char) (us : List Nat) :
    joinHalves (units asciiOnly c ++ us) = c :: joinHalves us := by
  have valid : c.toNat.isValidChar := c.valid
  unfold units
  split
  next pair =>
    have joined : 0x10000 + (0xd800 + (c.toNat - 0x10000) / 0x400 - 0xd800) * 0x400 +
        (0xdc00 + (c.toNat - 0x10000) % 0x400 - 0xdc00) = c.toNat := by omega
    rw [List.cons_append, List.cons_append, List.nil_append, joinHalves, if_pos (by omega),
      if_pos (by omega), joined, Char.ofNat_toNat]
  next =>
    have whole : ¬(0xd800 ≤ c.toNat ∧ c.toNat < 0xe000) := by omega
    have notHigh : ¬(0xd800 ≤ c.toNat ∧ c.toNat < 0xdc00) := by omega
    have notLow : ¬(0xdc00 ≤ c.toNat ∧ c.toNat < 0xe000) := by omega
    cases us with
    | nil => simp [joinHalves, whole]
    | cons u us =>
      rw [List.singleton_append, joinHalves, if_neg notHigh, if_neg notLow, Char.ofNat_toNat]

theorem joinHalves_flatMap_units (asciiOnly : Bool) (cs : List Char) :
    joinHalves (cs.flatMap (units asciiOnly)) = cs := by
  induction cs with
  | nil => rfl
  | cons c cs ih => rw [List.flatMap_cons, joinHalves_units_append, ih]

/-- A quoted text is read as the text, whatever follows. -/
theorem lex?_quotedText (asciiOnly : Bool) (s : String) :
    lex? .between ((quotedText asciiOnly s).toList ++ rest) =
      (lex? .between rest).map (.str s :: ·) := by
  have close {done : List Nat} : step? (.text done) '"' =
      some (.between, [.str (String.ofList (joinHalves done.reverse))]) := rfl
  rw [quotedText, String.toList_ofList, List.cons_append, List.cons_append, List.append_assoc,
    lex?_cons_of_nil (.text []) rfl, lex?_flatMap_escapedChar, List.singleton_append,
    lex?_cons close, List.append_nil, List.reverse_reverse, joinHalves_flatMap_units,
    String.ofList_toList]
  rfl

end Escapes

section Words

theorem start?_of_isWordChar (word : isWordChar c = true) : start? c = some (.word [c], []) := by
  have other (mark : Char) (no : isWordChar mark = false) : c ≠ mark := by
    rintro rfl
    rw [no] at word
    cases word
  simp only [start?, other ' ' rfl, other '\n' rfl, other '\r' rfl, other '\t' rfl,
    other '\x7b' rfl, other '\x7d' rfl, other '[' rfl, other ']' rfl, other ',' rfl, other ':' rfl,
    other '"' rfl, or_self, if_false, word, if_true]

theorem lex?_word {ws : List Char} (word : ∀ c ∈ ws, isWordChar c = true) (done : List Char) :
    lex? (.word done) (ws ++ rest) = lex? (.word (ws.reverse ++ done)) rest := by
  induction ws generalizing done with
  | nil => rfl
  | cons w ws ih =>
    obtain ⟨first, others⟩ := List.forall_mem_cons.mp word
    have step : step? (.word done) w = some (.word (w :: done), []) := by rw [step?, if_pos first]
    rw [List.cons_append, lex?_cons_of_nil _ step, ih others, List.reverse_cons, List.append_assoc]
    rfl

/-- A word is read as its token where no character of a word follows. -/
theorem lex?_of_word {ws : List Char} {t : Token} (word : ∀ c ∈ ws, isWordChar c = true)
    (read : ofWord? ws = some t) (ends : ∀ c ∈ rest.head?, isWordChar c = false) :
    lex? .between (ws ++ rest) = (lex? .between rest).map (t :: ·) := by
  cases ws with
  | nil => cases read
  | cons w ws =>
    obtain ⟨first, others⟩ := List.forall_mem_cons.mp word
    have start : step? .between w = some (.word [w], []) := start?_of_isWordChar first
    rw [List.cons_append, lex?_cons_of_nil _ start, lex?_word others]
    have whole : (ws.reverse ++ [w]).reverse = w :: ws := by simp
    cases rest with
    | nil => simp [lex?, whole, read]
    | cons c rest =>
      have stop : step? (.word (ws.reverse ++ [w])) c =
          (start? c).map fun started => (started.1, t :: started.2) := by
        rw [step?, if_neg (by simp [ends c rfl]), whole, read]
        cases start? c <;> rfl
      cases next : start? c with
      | none =>
        rw [next, Option.map_none] at stop
        have unread : step? .between c = none := next
        simp only [lex?, stop, unread, Option.bind_eq_bind, Option.bind_none, Option.map_none]
      | some p =>
        rw [next, Option.map_some] at stop
        rw [lex?_cons stop, lex?_cons (m := .between) next]
        cases lex? p.1 rest <;> rfl

end Words

end Cookbook.Json.Token
