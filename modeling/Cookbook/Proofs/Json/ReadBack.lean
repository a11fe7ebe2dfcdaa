import Cookbook.Json.Reader
import Cookbook.Proofs.Json.Token

/-!
# Values in writing

A value whose numbers are spelled by the style, and whose objects name no member twice, is read back
from its text as itself: the text gives its tokens, and from any place in the containers that are
still open its tokens give the value.
-/

namespace Cookbook

namespace Json

namespace Token

/-- The text is read as the tokens, whatever follows. -/
def ReadsAs (text : List Char) (ts : List Token) : Prop :=
  ∀ rest, lex? .between (text ++ rest) = (lex? .between rest).map (ts ++ ·)

/-- The text is read as the tokens if no word goes on after it. -/
def ReadsApart (text : List Char) (ts : List Token) : Prop :=
  ∀ rest, (∀ c ∈ rest.head?, isWordChar c = false) →
    lex? .between (text ++ rest) = (lex? .between rest).map (ts ++ ·)

/-- The text starts apart from a word before it. -/
def Parts (text : List Char) : Prop := ∃ c cs, text = c :: cs ∧ isWordChar c = false

variable {a b : List Char} {s t : List Token}

theorem ReadsAs.apart (reads : ReadsAs a s) : ReadsApart a s := fun rest _ => reads rest

theorem ReadsAs.append (first : ReadsAs a s) (second : ReadsAs b t) :
    ReadsAs (a ++ b) (s ++ t) := by
  intro rest
  rw [List.append_assoc, first, second, Option.map_map]
  exact congrArg (Option.map · _) (funext fun more => (List.append_assoc ..).symm)

theorem ReadsAs.append_apart (first : ReadsAs a s) (second : ReadsApart b t) :
    ReadsApart (a ++ b) (s ++ t) := by
  intro rest ends
  rw [List.append_assoc, first, second rest ends, Option.map_map]
  exact congrArg (Option.map · _) (funext fun more => (List.append_assoc ..).symm)

theorem ReadsApart.append (first : ReadsApart a s) (parts : Parts b) (second : ReadsAs b t) :
    ReadsAs (a ++ b) (s ++ t) := by
  intro rest
  obtain ⟨c, cs, rfl, nonword⟩ := parts
  rw [List.append_assoc, first _ (by rintro _ ⟨⟩; exact nonword), second, Option.map_map]
  exact congrArg (Option.map · _) (funext fun more => (List.append_assoc ..).symm)

theorem readsAs_mark {c : Char} {t : Token} (mark : start? c = some (.between, [t])) :
    ReadsAs [c] [t] := fun _ => lex?_cons mark

theorem readsAs_quotedText (asciiOnly : Bool) (s : String) :
    ReadsAs (quotedText asciiOnly s).toList [.str s] := fun _ => lex?_quotedText asciiOnly s

theorem readsApart_word (word : String) {t : Token}
    (chars : word.toList.all isWordChar = true) (read : ofWord? word.toList = some t) :
    ReadsApart word.toList [t] :=
  fun _ ends => lex?_of_word (List.all_eq_true.mp chars) read ends

/-- A text between two marks. -/
theorem ReadsApart.within (reads : ReadsApart a s) {c d : Char} {first last : Token}
    (before : start? c = some (.between, [first])) (after : start? d = some (.between, [last]))
    (parts : isWordChar d = false) : ReadsAs (c :: (a ++ [d])) (first :: (s ++ [last])) :=
  (readsAs_mark before).append (reads.append ⟨d, [], rfl, parts⟩ (readsAs_mark after))

/-- Texts with separators between them. -/
theorem readsApart_intercalate {sep : List Char} {between : List Token}
    (reads : ReadsAs sep between) (parts : Parts sep) {texts : List (List Char)}
    {tss : List (List Token)} (each : List.Forall₂ ReadsApart texts tss) :
    ReadsApart (sep.intercalate texts) (between.intercalate tss) := by
  induction each with
  | nil => exact fun rest _ => by simp
  | cons first others ih =>
    cases others with
    | nil => rwa [List.intercalate_singleton, List.intercalate_singleton]
    | cons second others =>
      rw [List.intercalate_cons_cons, List.intercalate_cons_cons]
      exact (first.append parts reads).append_apart ih

end Token

mutual

/-- The tokens of a value, in the order of its text. -/
def tokens : Json → List Token
  | null => [.null]
  | bool b => [.bool b]
  | num n => [.num n]
  | str s => [.str s]
  | arr xs => .openArray :: ([.comma].intercalate (itemTokens xs) ++ [.closeArray])
  | obj ms => .openObject :: ([.comma].intercalate (memberTokens ms) ++ [.closeObject])

def itemTokens : List Json → List (List Token)
  | [] => []
  | x :: xs => x.tokens :: itemTokens xs

def memberTokens : Members → List (List Token)
  | [] => []
  | (k, x) :: ms => (.str k :: .colon :: x.tokens) :: memberTokens ms

end

/-- The style keeps the order of members, and has separators that are read as such. -/
structure Style.Legible (style : Style) : Prop where
  unsorted : style.sorted = false
  comma : Token.ReadsAs style.comma.toList [.comma]
  commaParts : Token.Parts style.comma.toList
  colon : Token.ReadsAs style.colon.toList [.colon]

mutual

/-- Every number in the value is spelled by the style, and no object names a member twice. -/
def Faithful (style : Style) : Json → Prop
  | num n => style.Spells n
  | arr xs => ItemsFaithful style xs
  | obj ms => (ms.map Prod.fst).Nodup ∧ MembersFaithful style ms
  | _ => True

def ItemsFaithful (style : Style) : List Json → Prop
  | [] => True
  | x :: xs => x.Faithful style ∧ ItemsFaithful style xs

def MembersFaithful (style : Style) : Members → Prop
  | [] => True
  | (_, x) :: ms => x.Faithful style ∧ MembersFaithful style ms

end

section Lexing

open Token

variable {style : Style}

theorem Style.Legible.readsApart_intercalate (legible : style.Legible) {texts : List String}
    {tss : List (List Token)} (each : List.Forall₂ ReadsApart (texts.map String.toList) tss) :
    ReadsApart (style.comma.intercalate texts).toList ([.comma].intercalate tss) := by
  rw [String.toList_intercalate]
  exact Token.readsApart_intercalate legible.comma legible.commaParts each

mutual

/-- The text of a value is read as its tokens. -/
theorem readsApart_text (legible : style.Legible) :
    ∀ j : Json, j.Faithful style → ReadsApart (j.text style).toList j.tokens
  | null, _ => readsApart_word "null" rfl rfl
  | bool true, _ => readsApart_word "true" rfl rfl
  | bool false, _ => readsApart_word "false" rfl rfl
  | num n, spells => readsApart_word _ (List.all_eq_true.mpr spells.word) spells.read
  | str s, _ => (readsAs_quotedText style.asciiOnly s).apart
  | arr xs, faithful => by
    have items := legible.readsApart_intercalate (readsApart_itemTexts legible xs faithful)
    have written : ((arr xs).text style).toList =
        '[' :: ((style.comma.intercalate (itemTexts style xs)).toList ++ [']']) := by
      rw [text, String.toList_append, String.toList_append]
      rfl
    rw [written, tokens]
    exact (items.within rfl rfl rfl).apart
  | obj ms, ⟨_, faithful⟩ => by
    have members := legible.readsApart_intercalate (readsApart_memberTexts legible ms faithful)
    have written : ((obj ms).text style).toList =
        '\x7b' :: ((style.comma.intercalate ((memberTexts style ms).map fun (k, v) =>
          quotedText style.asciiOnly k ++ style.colon ++ v)).toList ++ ['\x7d']) := by
      rw [text, ordered, legible.unsorted, String.toList_append, String.toList_append]
      rfl
    rw [written, tokens]
    exact (members.within rfl rfl rfl).apart

theorem readsApart_itemTexts (legible : style.Legible) :
    ∀ xs : List Json, ItemsFaithful style xs →
      List.Forall₂ ReadsApart ((itemTexts style xs).map String.toList) (itemTokens xs)
  | [], _ => .nil
  | x :: xs, ⟨first, others⟩ =>
    .cons (readsApart_text legible x first) (readsApart_itemTexts legible xs others)

theorem readsApart_memberTexts (legible : style.Legible) :
    ∀ ms : Members, MembersFaithful style ms →
      List.Forall₂ ReadsApart (((memberTexts style ms).map fun (k, v) =>
        quotedText style.asciiOnly k ++ style.colon ++ v).map String.toList) (memberTokens ms)
  | [], _ => .nil
  | (k, x) :: ms, ⟨first, others⟩ => by
    refine .cons ?_ (readsApart_memberTexts legible ms others)
    rw [String.toList_append, String.toList_append]
    exact ((readsAs_quotedText _ k).append legible.colon).append_apart
      (readsApart_text legible x first)

end

end Lexing

end Json

namespace Members

theorem set_of_not_mem {ms : Members} {name : String} (absent : name ∉ ms.map Prod.fst)
    (value : Json) : set ms name value = ms ++ [(name, value)] := by
  induction ms with
  | nil => rfl
  | cons m ms ih =>
    obtain ⟨other, later⟩ := not_or.mp (mt List.mem_cons.mpr absent)
    rw [set, if_neg (Ne.symm other), ih later]
    rfl

/-- Members that are named once each stay as they are. -/
theorem ofList_eq_self {ms : Members} (distinct : (ms.map Prod.fst).Nodup) : ofList ms = ms := by
  induction ms using List.reverseRecOn with
  | nil => rfl
  | append_singleton ms m ih =>
    rw [List.map_append] at distinct
    obtain ⟨front, _, apart⟩ := List.nodup_append.mp distinct
    have absent : m.1 ∉ ms.map Prod.fst := fun among =>
      apart _ among _ (List.mem_singleton_self _) rfl
    rw [ofList, List.foldl_append]
    change set (ofList ms) m.1 m.2 = _
    rw [ih front, set_of_not_mem absent]

end Members

namespace Json

namespace Reader

variable {style : Style} {state state' : State} {t : Token} {ts rest : List Token}
  {stack : List Frame}

theorem run?_cons (step : step? state t = some state') : run? state (t :: ts) = run? state' ts := by
  rw [run?, step]
  rfl

/-- The places where a value may stand. -/
inductive Opens : Place → Prop where
  | value : Opens .value
  | firstItem : Opens .firstItem

theorem Opens.step?_eq {place : Place} (opens : Opens place) {state : State}
    (read : value? stack t = some state) : step? ⟨stack, place⟩ t = some state := by
  cases opens with
  | value => exact read
  | firstItem => cases t <;> first | exact read | cases read

theorem Opens.run?_cons {place : Place} (opens : Opens place) (state : State)
    (read : value? stack t = some state) : run? ⟨stack, place⟩ (t :: ts) = run? state ts :=
  Reader.run?_cons (opens.step?_eq read)

/-- The places where the name of a member may stand, with the members before it. -/
inductive OpensMember (done : List (String × Json)) : Place → Prop where
  | firstKey : OpensMember done (.firstKey done)
  | key : OpensMember done (.key done)

theorem OpensMember.step?_eq {done : List (String × Json)} {place : Place}
    (opens : OpensMember done place) (k : String) :
    step? ⟨stack, place⟩ (.str k) = some ⟨stack, .colon done k⟩ := by
  cases opens <;> rfl

mutual

/-- From any place for a value its tokens give the value to the container that is open there. -/
theorem run?_tokens : ∀ (j : Json), j.Faithful style → ∀ {place : Place}, Opens place →
    ∀ (stack : List Frame) (rest : List Token),
      run? ⟨stack, place⟩ (j.tokens ++ rest) = run? (give stack j) rest
  | null, _, _, opens, _, _ => opens.run?_cons _ rfl
  | bool _, _, _, opens, _, _ => opens.run?_cons _ rfl
  | num _, _, _, opens, _, _ => opens.run?_cons _ rfl
  | str _, _, _, opens, _, _ => opens.run?_cons _ rfl
  | arr [], _, _, opens, stack, rest => by
    rw [tokens, itemTokens, List.intercalate_nil]
    exact opens.run?_cons ⟨.arr [] :: stack, .firstItem⟩ rfl
  | arr (x :: xs), faithful, _, opens, stack, rest => by
    rw [tokens, List.cons_append, List.append_assoc,
      opens.run?_cons ⟨.arr [] :: stack, .firstItem⟩ rfl]
    exact run?_itemTokens (x :: xs) nofun faithful .firstItem [] stack rest
  | obj [], _, _, opens, stack, rest => by
    rw [tokens, memberTokens, List.intercalate_nil]
    exact opens.run?_cons ⟨stack, .firstKey []⟩ rfl
  | obj (m :: ms), ⟨distinct, faithful⟩, _, opens, stack, rest => by
    have whole : closeObject stack ((m :: ms).reverse ++ []) = give stack (obj (m :: ms)) := by
      rw [closeObject, List.append_nil, List.reverse_reverse, Members.ofList_eq_self distinct]
    rw [tokens, List.cons_append, List.append_assoc,
      opens.run?_cons ⟨stack, .firstKey []⟩ rfl, ← whole]
    exact run?_memberTokens (m :: ms) nofun faithful .firstKey stack rest

theorem run?_itemTokens : ∀ xs : List Json, xs ≠ [] → ItemsFaithful style xs →
    ∀ {place : Place}, Opens place → ∀ (done : List Json) (stack : List Frame) (rest : List Token),
      run? ⟨.arr done :: stack, place⟩
          ([.comma].intercalate (itemTokens xs) ++ .closeArray :: rest) =
        run? (give stack (arr (done.reverse ++ xs))) rest
  | [], nonempty, _, _, _, _, _, _ => absurd rfl nonempty
  | [x], _, ⟨first, _⟩, _, opens, done, stack, rest => by
    have closed : step? (give (.arr done :: stack) x) .closeArray =
        some (give stack (arr (done.reverse ++ [x]))) := by
      rw [← List.reverse_cons]
      rfl
    rw [itemTokens, itemTokens, List.intercalate_singleton,
      run?_tokens x first opens (.arr done :: stack), run?_cons closed]
  | x :: y :: ys, _, ⟨first, others⟩, _, opens, done, stack, rest => by
    have next : step? (give (.arr done :: stack) x) .comma =
        some ⟨.arr (x :: done) :: stack, .value⟩ := rfl
    rw [itemTokens, itemTokens, List.intercalate_cons_cons, List.append_assoc, List.append_assoc,
      run?_tokens x first opens (.arr done :: stack), List.singleton_append, run?_cons next,
      ← itemTokens, run?_itemTokens (y :: ys) nofun others .value (x :: done) stack rest,
      List.reverse_cons, List.append_assoc, List.singleton_append]

theorem run?_memberTokens : ∀ ms : Members, ms ≠ [] → MembersFaithful style ms →
    ∀ {done : List (String × Json)} {place : Place}, OpensMember done place →
      ∀ (stack : List Frame) (rest : List Token),
        run? ⟨stack, place⟩ ([.comma].intercalate (memberTokens ms) ++ .closeObject :: rest) =
          run? (closeObject stack (ms.reverse ++ done)) rest
  | [], nonempty, _, _, _, _, _, _ => absurd rfl nonempty
  | [(k, x)], _, ⟨first, _⟩, done, _, opens, stack, rest => by
    have closed : step? (give (.obj done k :: stack) x) .closeObject =
        some (closeObject stack ((k, x) :: done)) := rfl
    have colon : step? ⟨stack, .colon done k⟩ .colon = some ⟨.obj done k :: stack, .value⟩ := rfl
    rw [memberTokens, memberTokens, List.intercalate_singleton, List.cons_append, List.cons_append,
      run?_cons (opens.step?_eq k), run?_cons colon, run?_tokens x first .value, run?_cons closed]
    rfl
  | (k, x) :: m :: ms, _, ⟨first, others⟩, done, _, opens, stack, rest => by
    have next : step? (give (.obj done k :: stack) x) .comma =
        some ⟨stack, .key ((k, x) :: done)⟩ := rfl
    have colon : step? ⟨stack, .colon done k⟩ .colon = some ⟨.obj done k :: stack, .value⟩ := rfl
    have further : OpensMember ((k, x) :: done) (.key ((k, x) :: done)) := .key
    have later := run?_memberTokens (m :: ms) nofun others further stack rest
    rw [memberTokens] at later
    rw [memberTokens, memberTokens, List.intercalate_cons_cons, List.append_assoc,
      List.append_assoc, List.cons_append, List.cons_append, run?_cons (opens.step?_eq k),
      run?_cons colon, run?_tokens x first .value, List.singleton_append, run?_cons next, later,
      List.reverse_cons (a := (k, x)), List.append_assoc, List.singleton_append]

end

end Reader

/-- A value that the style can write is read back from its text. -/
theorem ofText?_text {style : Style} (legible : style.Legible) {j : Json}
    (faithful : j.Faithful style) : ofText? (j.text style) = some j := by
  have lexed := readsApart_text legible j faithful [] nofun
  have read := Reader.run?_tokens j faithful .value [] []
  rw [List.append_nil] at lexed read
  rw [ofText?, lexed]
  simp only [Token.lex?, Option.map_some, List.append_nil]
  exact read

mutual

/-- Every number is in its one spelling, and no object names a member twice. -/
def WellFormed : Json → Prop
  | num n => n.Canonical
  | arr xs => ItemsWellFormed xs
  | obj ms => (ms.map Prod.fst).Nodup ∧ MembersWellFormed ms
  | _ => True

def ItemsWellFormed : List Json → Prop
  | [] => True
  | x :: xs => x.WellFormed ∧ ItemsWellFormed xs

def MembersWellFormed : Members → Prop
  | [] => True
  | (_, x) :: ms => x.WellFormed ∧ MembersWellFormed ms

end

section Compact

theorem map_fst_writableMembers (ms : Members) :
    (writableMembers ms).map Prod.fst = ms.map Prod.fst := by
  induction ms with
  | nil => rfl
  | cons m ms ih => rw [writableMembers, List.map_cons, ih, List.map_cons]

mutual

/-- Without the numbers that JSON cannot write a value can be written in every style. -/
theorem WellFormed.writable {style : Style} : ∀ {j : Json}, j.WellFormed → j.writable.Faithful style
  | null, _ | bool _, _ | str _, _ => trivial
  | num n, canonical => by
    unfold Json.writable
    split
    next finite => exact style.spells_of_isFinite finite canonical
    next => trivial
  | arr _, items => ItemsWellFormed.writable items
  | obj ms, ⟨distinct, members⟩ =>
    ⟨(map_fst_writableMembers ms).symm ▸ distinct, MembersWellFormed.writable members⟩

theorem ItemsWellFormed.writable {style : Style} :
    ∀ {xs : List Json}, ItemsWellFormed xs → ItemsFaithful style (writableItems xs)
  | [], _ => trivial
  | _ :: _, ⟨first, others⟩ => ⟨first.writable, others.writable⟩

theorem MembersWellFormed.writable {style : Style} :
    ∀ {ms : Members}, MembersWellFormed ms → MembersFaithful style (writableMembers ms)
  | [], _ => trivial
  | (_, _) :: _, ⟨first, others⟩ => ⟨first.writable, others.writable⟩

end

mutual

/-- The compact text does not tell such numbers from `null`. -/
theorem text_writable : ∀ j : Json, j.writable.text compact = j.text compact
  | null | bool true | bool false | str _ => rfl
  | num (.int _) => rfl
  | num (.float .nan) => rfl
  | num (.float (.infinite true)) => rfl
  | num (.float (.infinite false)) => rfl
  | num (.float (.finite ..)) => rfl
  | arr xs => by rw [writable, text, text, itemTexts_writable xs]
  | obj ms => by rw [writable, text, text, memberTexts_writable ms]

theorem itemTexts_writable : ∀ xs : List Json,
    itemTexts compact (writableItems xs) = itemTexts compact xs
  | [] => rfl
  | x :: xs => by rw [writableItems, itemTexts, itemTexts, text_writable x, itemTexts_writable xs]

theorem memberTexts_writable : ∀ ms : Members,
    memberTexts compact (writableMembers ms) = memberTexts compact ms
  | [] => rfl
  | (k, x) :: ms => by
    rw [writableMembers, memberTexts, memberTexts, text_writable x, memberTexts_writable ms]

end

theorem legible_compact : compact.Legible where
  unsorted := rfl
  comma := Token.readsAs_mark rfl
  commaParts := ⟨',', [], rfl, rfl⟩
  colon := Token.readsAs_mark rfl

/-- A value is read back from its compact text, but for the numbers that JSON cannot write. -/
theorem ofText?_compact {j : Json} (wellFormed : j.WellFormed) :
    ofText? (j.text compact) = some j.writable := by
  rw [← text_writable]
  exact ofText?_text legible_compact wellFormed.writable

end Compact

end Json

end Cookbook
