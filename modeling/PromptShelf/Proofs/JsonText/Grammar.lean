/-
What a JSON text is.

A text says a tree (`Json`).  The tree is written out as a list of lexemes, and the text spells them
one after the other, with blanks wherever there is none inside (`Spells`).  Texts may be spelled in
many ways, for characters can be escaped or not; numerals are spelled as they are.

Which numerals there are is a parameter: those of the standard (`IsNumeral`), or three words for
numbers that have none besides (`IsLoose`).

* **`lexemes_unique`** — a tree can be told from its lexemes, whatever comes after them;
* **`Spells.unique`** — a text spells one list of lexemes at most;
* **`Says.unique`** — a text says one tree at most.
-/
import PromptShelf.JsonText.Reading
import PromptShelf.Proofs.Text.Utf8

namespace PromptShelf.JsonText

/-- What a text says; a number is kept as its numeral. -/
inductive Json
  | null
  | bool (b : Bool)
  | number (numeral : List Char)
  | text (s : String)
  | array (items : List Json)
  | object (members : List (String × Json))

/-- What a text is spelled of: brackets, commas and colons, the words of the standard, numerals
and texts. -/
inductive Lexeme
  | mark (c : Char)
  | word (w : List Char)
  | number (numeral : List Char)
  | text (s : String)

/-- Lists of lexemes with commas between them. -/
def separated : List (List Lexeme) → List Lexeme
  | [] => []
  | ls :: rest => ls ++ rest.flatMap (.mark ',' :: ·)

def boolWord (b : Bool) : List Char := if b then "true".toList else "false".toList

mutual

def Json.lexemes : Json → List Lexeme
  | .null => [.word "null".toList]
  | .bool b => [.word (boolWord b)]
  | .number numeral => [.number numeral]
  | .text s => [.text s]
  | .array items => .mark '[' :: (separated (itemLexemes items) ++ [.mark ']'])
  | .object members => .mark '\x7b' :: (separated (memberLexemes members) ++ [.mark '\x7d'])

def itemLexemes : List Json → List (List Lexeme)
  | [] => []
  | j :: rest => j.lexemes :: itemLexemes rest

def memberLexemes : List (String × Json) → List (List Lexeme)
  | [] => []
  | (key, j) :: rest => (.text key :: .mark ':' :: j.lexemes) :: memberLexemes rest

end

theorem itemLexemes_eq_map (items : List Json) : itemLexemes items = items.map Json.lexemes := by
  induction items with
  | nil => rfl
  | cons j rest ih => rw [itemLexemes, ih, List.map_cons]

theorem memberLexemes_eq_map (members : List (String × Json)) :
    memberLexemes members = members.map fun m => .text m.1 :: .mark ':' :: m.2.lexemes := by
  induction members with
  | nil => rfl
  | cons m rest ih =>
    obtain ⟨key, j⟩ := m
    rw [memberLexemes, ih, List.map_cons]

/-- What holds of all trees: of arrays and objects, if it holds of their parts. -/
theorem Json.induct {P : Json → Prop} (null : P .null) (bool : ∀ b, P (.bool b))
    (number : ∀ numeral, P (.number numeral)) (text : ∀ s, P (.text s))
    (array : ∀ items, (∀ j ∈ items, P j) → P (.array items))
    (object : ∀ members, (∀ m ∈ members, P m.2) → P (.object members)) : ∀ j, P j := by
  refine @Json.rec P (fun items => ∀ j ∈ items, P j) (fun members => ∀ m ∈ members, P m.2)
    (fun m => P m.2) null bool number text array object ?_ ?_ ?_ ?_ ?_
  · exact fun j hj => absurd hj List.not_mem_nil
  · exact fun j items hj hitems => List.forall_mem_cons.mpr ⟨hj, hitems⟩
  · exact fun m hm => absurd hm List.not_mem_nil
  · exact fun m members hm hmembers => List.forall_mem_cons.mpr ⟨hm, hmembers⟩
  · exact fun key j hj => hj

/-! ### Numerals -/

/-- Digits of a whole number: no zero before others. -/
structure IsWhole (ds : List Char) : Prop where
  ne_nil : ds ≠ []
  digits : ∀ c ∈ ds, c.isDigit = true
  no_zero : ds.head? = some '0' → ds = ['0']

/-- A point with digits behind it, or nothing. -/
inductive IsFraction : List Char → Prop
  | none : IsFraction []
  | places (ds : List Char) (hne : ds ≠ []) (hdigits : ∀ c ∈ ds, c.isDigit = true) :
      IsFraction ('.' :: ds)

/-- A mark with a sign, which may be missing, and digits behind it, or nothing. -/
inductive IsExponent : List Char → Prop
  | none : IsExponent []
  | power (mark : Char) (sign ds : List Char) (hmark : mark ∈ ['e', 'E'])
      (hsign : sign ∈ [[], ['+'], ['-']]) (hne : ds ≠ []) (hdigits : ∀ c ∈ ds, c.isDigit = true) :
      IsExponent (mark :: (sign ++ ds))

/-- A numeral of the standard. -/
inductive IsNumeral : List Char → Prop
  | mk (sign whole fraction power : List Char) (hsign : sign ∈ [[], ['-']])
      (hwhole : IsWhole whole) (hfraction : IsFraction fraction) (hpower : IsExponent power) :
      IsNumeral (sign ++ (whole ++ (fraction ++ power)))

/-- Words for numbers without a numeral. -/
def numberWords : List (List Char) := ["NaN".toList, "Infinity".toList, "-Infinity".toList]

/-- A numeral or one of the words that are no part of the standard. -/
def IsLoose (cs : List Char) : Prop := IsNumeral cs ∨ cs ∈ numberWords

/-- Characters of numerals. -/
def isNumeralChar (c : Char) : Bool := c.isDigit || "+-.eE".toList.contains c

/-- Characters of numerals and of the words for numbers without one. -/
def isNumberChar (c : Char) : Bool := isNumeralChar c || "NaInfity".toList.contains c

/-- No number goes on in the text. -/
def Ends (cs : List Char) : Prop := ∀ c ∈ cs.head?, isNumberChar c = false

/-! ### Spelling -/

/-- How a character of a text is spelled: as it is, if it is neither a quote, a backslash nor a
control character, or escaped by a letter, by its code, or by the codes of its two surrogates. -/
inductive SpellsChar : Char → List Char → Prop
  | plain {c : Char} (hquote : c ≠ '"') (hescape : c ≠ '\\') (hcontrol : 32 ≤ c.toNat) :
      SpellsChar c [c]
  | letter {c e : Char} (h : escaped? e = some c) : SpellsChar c ['\\', e]
  | code {c p q r s : Char} (h : hexNumber? p q r s = some c.toNat) :
      SpellsChar c ['\\', 'u', p, q, r, s]
  | surrogates {c p q r s p' q' r' s' : Char} {high low : Nat}
      (hhigh : hexNumber? p q r s = some high) (hlow : hexNumber? p' q' r' s' = some low)
      (hhigh_range : 0xd800 ≤ high ∧ high < 0xdc00) (hlow_range : 0xdc00 ≤ low ∧ low < 0xe000)
      (h : c.toNat = 0x10000 + (high - 0xd800) * 1024 + (low - 0xdc00)) :
      SpellsChar c ['\\', 'u', p, q, r, s, '\\', 'u', p', q', r', s']

/-- How the characters of a text are spelled one after the other. -/
inductive SpellsText : List Char → List Char → Prop
  | nil : SpellsText [] []
  | cons {c : Char} {cs chars more : List Char} (hc : SpellsChar c chars)
      (hmore : SpellsText cs more) : SpellsText (c :: cs) (chars ++ more)

def marks : List Char := "[]\x7b\x7d,:".toList

def standardWords : List (List Char) := ["null".toList, "true".toList, "false".toList]

/-- How lexemes are spelled with the numerals there are. -/
inductive Spells (Numeral : List Char → Prop) : List Lexeme → List Char → Prop
  | nil : Spells Numeral [] []
  | blank {c : Char} {ls : List Lexeme} {cs : List Char} (hc : isBlank c = true)
      (h : Spells Numeral ls cs) : Spells Numeral ls (c :: cs)
  | mark {c : Char} {ls : List Lexeme} {cs : List Char} (hc : c ∈ marks)
      (h : Spells Numeral ls cs) : Spells Numeral (.mark c :: ls) (c :: cs)
  | word {w : List Char} {ls : List Lexeme} {cs : List Char} (hw : w ∈ standardWords)
      (h : Spells Numeral ls cs) : Spells Numeral (.word w :: ls) (w ++ cs)
  | number {numeral : List Char} {ls : List Lexeme} {cs : List Char} (hn : Numeral numeral)
      (hends : Ends cs) (h : Spells Numeral ls cs) :
      Spells Numeral (.number numeral :: ls) (numeral ++ cs)
  | text {s : String} {chars : List Char} {ls : List Lexeme} {cs : List Char}
      (hs : SpellsText s.toList chars) (h : Spells Numeral ls cs) :
      Spells Numeral (.text s :: ls) ('"' :: (chars ++ '"' :: cs))

/-- The text says the tree, with the numerals there are. -/
def Says (Numeral : List Char → Prop) (text : String) (j : Json) : Prop :=
  Spells Numeral j.lexemes text.toList

/-! ### Trees from their lexemes -/

theorem boolWord_ne_null (b : Bool) : boolWord b ≠ "null".toList := by
  cases b <;> decide

theorem boolWord_injective {b b' : Bool} (h : boolWord b = boolWord b') : b = b' := by
  revert h
  cases b <;> cases b' <;> decide

/-- The first lexeme of a tree is no closing bracket. -/
theorem lexemes_ne_cons (j : Json) {c : Char} (hc : c = ']' ∨ c = '\x7d') (ls ms : List Lexeme) :
    j.lexemes ++ ls ≠ .mark c :: ms := by
  cases j <;> rcases hc with rfl | rfl <;> simp [Json.lexemes]

section Separated

variable {α : Type} {f : α → List Lexeme} {c : Char}

/-- Parts that can be told from their lexemes can be told from their lexemes with commas between
them, too. -/
theorem tail_unique (hc : c ≠ ',') {xs : List α}
    (hf : ∀ x ∈ xs, ∀ y ls ms, f x ++ ls = f y ++ ms → x = y ∧ ls = ms) {ys : List α}
    {ls ms : List Lexeme} (h : (xs.map f).flatMap (.mark ',' :: ·) ++ .mark c :: ls =
      (ys.map f).flatMap (.mark ',' :: ·) ++ .mark c :: ms) : xs = ys ∧ ls = ms := by
  induction xs generalizing ys with
  | nil =>
    cases ys with
    | nil => exact ⟨rfl, (List.cons.inj h).2⟩
    | cons y ys => exact absurd (Lexeme.mark.inj (List.cons.inj h).1) hc
  | cons x xs ih =>
    cases ys with
    | nil => exact absurd (Lexeme.mark.inj (List.cons.inj h).1).symm hc
    | cons y ys =>
      simp only [List.map_cons, List.flatMap_cons, List.cons_append, List.append_assoc,
        List.cons.injEq, true_and] at h
      obtain ⟨rfl, hmore⟩ := hf x List.mem_cons_self y _ _ h
      obtain ⟨rfl, hls⟩ := ih (fun x hx => hf x (List.mem_cons_of_mem _ hx)) hmore
      exact ⟨rfl, hls⟩

theorem separated_unique (hc : c ≠ ',') (hlead : ∀ x ls ms, f x ++ ls ≠ .mark c :: ms) {xs : List α}
    (hf : ∀ x ∈ xs, ∀ y ls ms, f x ++ ls = f y ++ ms → x = y ∧ ls = ms) {ys : List α}
    {ls ms : List Lexeme} (h : separated (xs.map f) ++ .mark c :: ls =
      separated (ys.map f) ++ .mark c :: ms) : xs = ys ∧ ls = ms := by
  cases xs with
  | nil =>
    cases ys with
    | nil => exact ⟨rfl, (List.cons.inj h).2⟩
    | cons y ys =>
      simp only [List.map_cons, separated, List.append_assoc] at h
      exact absurd h.symm (hlead y _ _)
  | cons x xs =>
    cases ys with
    | nil =>
      simp only [List.map_cons, separated, List.append_assoc] at h
      exact absurd h (hlead x _ _)
    | cons y ys =>
      simp only [List.map_cons, separated, List.append_assoc] at h
      obtain ⟨rfl, hmore⟩ := hf x List.mem_cons_self y _ _ h
      obtain ⟨rfl, hls⟩ := tail_unique hc (fun x hx => hf x (List.mem_cons_of_mem _ hx)) hmore
      exact ⟨rfl, hls⟩

end Separated

/-- A tree can be told from its lexemes, whatever comes after them. -/
theorem lexemes_unique (j : Json) : ∀ (k : Json) {ls ms : List Lexeme},
    j.lexemes ++ ls = k.lexemes ++ ms → j = k ∧ ls = ms := by
  induction j using Json.induct with
  | null =>
    intro k ls ms h
    cases k with
    | bool b => exact absurd (Lexeme.word.inj (List.cons.inj h).1).symm (boolWord_ne_null b)
    | null => simpa [Json.lexemes] using h
    | _ => simp [Json.lexemes] at h
  | bool b =>
    intro k ls ms h
    cases k with
    | null => exact absurd (Lexeme.word.inj (List.cons.inj h).1) (boolWord_ne_null b)
    | bool b' =>
      obtain ⟨hword, hls⟩ := List.cons.inj h
      exact ⟨congrArg Json.bool (boolWord_injective (Lexeme.word.inj hword)), hls⟩
    | _ => simp [Json.lexemes] at h
  | number numeral =>
    intro k ls ms h
    cases k with
    | number numeral' => simpa [Json.lexemes] using h
    | _ => simp [Json.lexemes] at h
  | text s =>
    intro k ls ms h
    cases k with
    | text s' => simpa [Json.lexemes] using h
    | _ => simp [Json.lexemes] at h
  | array items ih =>
    intro k ls ms h
    cases k with
    | array items' =>
      simp only [Json.lexemes, itemLexemes_eq_map, List.cons_append, List.append_assoc,
        List.cons.injEq, true_and, List.nil_append] at h
      obtain ⟨rfl, hls⟩ := separated_unique (by decide)
        (fun j ls ms => lexemes_ne_cons j (.inl rfl) ls ms)
        (fun j hj k ls ms h => ih j hj k h) h
      exact ⟨rfl, hls⟩
    | _ => simp [Json.lexemes] at h
  | object members ih =>
    intro k ls ms h
    cases k with
    | object members' =>
      simp only [Json.lexemes, memberLexemes_eq_map, List.cons_append, List.append_assoc,
        List.cons.injEq, true_and, List.nil_append] at h
      have hmember : ∀ m ∈ members, ∀ (m' : String × Json) (ls ms : List Lexeme),
          (.text m.1 :: .mark ':' :: m.2.lexemes) ++ ls =
            (.text m'.1 :: .mark ':' :: m'.2.lexemes) ++ ms → m = m' ∧ ls = ms := by
        intro m hm m' ls ms heq
        obtain ⟨hkey, hrest⟩ := List.cons.inj heq
        obtain ⟨hvalue, hls⟩ := ih m hm m'.2 (List.cons.inj hrest).2
        exact ⟨Prod.ext (Lexeme.text.inj hkey) hvalue, hls⟩
      obtain ⟨rfl, hls⟩ := separated_unique (by decide) (fun m ls ms => by simp) hmember h
      exact ⟨rfl, hls⟩
    | _ => simp [Json.lexemes] at h

/-! ### Lexemes from the text that spells them -/

/-- What a lexeme is can be told from the first character that spells it. -/
inductive Kind
  | blank
  | mark
  | text
  | word
  | number
  deriving DecidableEq

def kindOf (c : Char) : Kind :=
  if isBlank c then .blank
  else if c ∈ marks then .mark
  else if c = '"' then .text
  else if c ∈ ['n', 't', 'f'] then .word
  else .number

theorem kindOf_blank {c : Char} (h : isBlank c = true) : kindOf c = .blank := if_pos h

theorem kindOf_mark {c : Char} (h : c ∈ marks) : kindOf c = .mark := by
  have hall : (marks.all fun c => kindOf c = .mark) = true := by decide
  exact of_decide_eq_true (List.all_eq_true.mp hall c h)

theorem exists_kindOf_word {w : List Char} (hw : w ∈ standardWords) :
    ∃ c rest, w = c :: rest ∧ kindOf c = .word := by
  simp only [standardWords, List.mem_cons, List.not_mem_nil, or_false] at hw
  rcases hw with rfl | rfl | rfl <;> exact ⟨_, _, rfl, by decide⟩

/-- What holds of the first characters can be tried out. -/
theorem forall_char_lt {bound : Nat} {P : Char → Prop} (h : ∀ n < bound, P (Char.ofNat n)) :
    ∀ c : Char, c.toNat < bound → P c := by
  intro c hc
  rw [← Char.ofNat_toNat c]
  exact h c.toNat hc

theorem kindOf_digit {c : Char} (h : c.isDigit = true) : kindOf c = .number := by
  have hrange : 48 ≤ c.toNat ∧ c.toNat ≤ 57 := by
    simpa [Char.isDigit, UInt32.le_iff_toNat_le] using h
  exact forall_char_lt (P := fun c => 48 ≤ c.toNat → kindOf c = .number) (by decide) c
    (by omega : c.toNat < 58) hrange.1

theorem exists_kindOf_number {n : List Char} (h : IsLoose n) :
    ∃ c rest, n = c :: rest ∧ kindOf c = .number := by
  rcases h with ⟨sign, whole, fraction, power, hsign, hwhole, -, -⟩ | hword
  · simp only [List.mem_cons, List.not_mem_nil, or_false] at hsign
    rcases hsign with rfl | rfl
    · obtain ⟨d, ds, rfl⟩ := List.exists_cons_of_ne_nil hwhole.ne_nil
      exact ⟨d, _, rfl, kindOf_digit (hwhole.digits d List.mem_cons_self)⟩
    · exact ⟨'-', _, rfl, by decide⟩
  · simp only [numberWords, List.mem_cons, List.not_mem_nil, or_false] at hword
    rcases hword with rfl | rfl | rfl <;> exact ⟨_, _, rfl, by decide⟩

theorem isNumeralChar_of_digit {c : Char} (h : c.isDigit = true) : isNumeralChar c = true := by
  rw [isNumeralChar, h, Bool.true_or]

theorem chars_of_mem {words : List (List Char)} {p : Char → Bool}
    (h : (words.all (·.all p)) = true) {w : List Char} (hw : w ∈ words) : ∀ c ∈ w, p c = true :=
  List.all_eq_true.mp (List.all_eq_true.mp h w hw)

theorem IsNumeral.chars {n : List Char} (h : IsNumeral n) : ∀ c ∈ n, isNumeralChar c = true := by
  obtain ⟨sign, whole, fraction, power, hsign, hwhole, hfraction, hpower⟩ := h
  have hsign' : ∀ c ∈ sign, isNumeralChar c = true := chars_of_mem (by decide) hsign
  have hfraction' : ∀ c ∈ fraction, isNumeralChar c = true := by
    cases hfraction with
    | none => exact fun c hc => absurd hc List.not_mem_nil
    | places ds hne hdigits =>
      exact List.forall_mem_cons.mpr
        ⟨by decide, fun c hc => isNumeralChar_of_digit (hdigits c hc)⟩
  have hpower' : ∀ c ∈ power, isNumeralChar c = true := by
    cases hpower with
    | none => exact fun c hc => absurd hc List.not_mem_nil
    | power mark sign ds hmark hsign hne hdigits =>
      have hmarks : (['e', 'E'].all isNumeralChar) = true := by decide
      have hmark' : isNumeralChar mark = true := List.all_eq_true.mp hmarks mark hmark
      have hsign' : ∀ c ∈ sign, isNumeralChar c = true := chars_of_mem (by decide) hsign
      refine List.forall_mem_cons.mpr ⟨hmark', List.forall_mem_append.mpr ⟨hsign', ?_⟩⟩
      exact fun c hc => isNumeralChar_of_digit (hdigits c hc)
  refine List.forall_mem_append.mpr ⟨hsign', List.forall_mem_append.mpr ⟨?_, ?_⟩⟩
  · exact fun c hc => isNumeralChar_of_digit (hwhole.digits c hc)
  · exact List.forall_mem_append.mpr ⟨hfraction', hpower'⟩

theorem IsLoose.chars {n : List Char} (h : IsLoose n) : ∀ c ∈ n, isNumberChar c = true := by
  rcases h with hnumeral | hword
  · intro c hc
    rw [isNumberChar, hnumeral.chars c hc, Bool.true_or]
  · exact chars_of_mem (by decide) hword

/-- No character is a surrogate. -/
theorem not_surrogate (c : Char) : ¬ (0xd800 ≤ c.toNat ∧ c.toNat < 0xdc00) := by
  have hvalid := Text.Utf8.toNat_bounds c
  omega

theorem SpellsChar.unique {c d : Char} {as bs xs ys : List Char} (h : SpellsChar c as)
    (h' : SpellsChar d bs) (heq : as ++ xs = bs ++ ys) : c = d ∧ xs = ys := by
  have hletter : escaped? 'u' = none := rfl
  cases h with
  | plain hquote hescape hcontrol =>
    cases h' with
    | plain => simpa using heq
    | _ => exact absurd (List.cons.inj heq).1 hescape
  | letter h =>
    cases h' with
    | plain hquote hescape hcontrol => exact absurd (List.cons.inj heq).1.symm hescape
    | letter h' =>
      simp only [List.cons_append, List.cons.injEq, true_and, List.nil_append] at heq
      obtain ⟨rfl, hrest⟩ := heq
      exact ⟨Option.some.inj (h.symm.trans h'), hrest⟩
    | _ =>
      obtain rfl := (List.cons.inj (List.cons.inj heq).2).1
      exact absurd (hletter.symm.trans h) (by simp)
  | code h =>
    cases h' with
    | plain hquote hescape hcontrol => exact absurd (List.cons.inj heq).1.symm hescape
    | letter h' =>
      obtain rfl := (List.cons.inj (List.cons.inj heq).2).1
      exact absurd (hletter.symm.trans h') (by simp)
    | code h' =>
      simp only [List.cons_append, List.cons.injEq, true_and, List.nil_append] at heq
      obtain ⟨rfl, rfl, rfl, rfl, hrest⟩ := heq
      exact ⟨Char.toNat_inj.mp (Option.some.inj (h.symm.trans h')), hrest⟩
    | surrogates hhigh hlow hhigh_range hlow_range h' =>
      simp only [List.cons_append, List.cons.injEq, true_and, List.nil_append] at heq
      obtain ⟨rfl, rfl, rfl, rfl, -⟩ := heq
      obtain rfl := Option.some.inj (h.symm.trans hhigh)
      exact absurd hhigh_range (not_surrogate _)
  | surrogates hhigh hlow hhigh_range hlow_range h =>
    cases h' with
    | plain hquote hescape hcontrol => exact absurd (List.cons.inj heq).1.symm hescape
    | letter h' =>
      obtain rfl := (List.cons.inj (List.cons.inj heq).2).1
      exact absurd (hletter.symm.trans h') (by simp)
    | code h' =>
      simp only [List.cons_append, List.cons.injEq, true_and, List.nil_append] at heq
      obtain ⟨rfl, rfl, rfl, rfl, -⟩ := heq
      obtain rfl := Option.some.inj (hhigh.symm.trans h')
      exact absurd hhigh_range (not_surrogate _)
    | surrogates hhigh' hlow' _ _ h' =>
      simp only [List.cons_append, List.cons.injEq, true_and, List.nil_append] at heq
      obtain ⟨rfl, rfl, rfl, rfl, rfl, rfl, rfl, rfl, hrest⟩ := heq
      obtain rfl := Option.some.inj (hhigh.symm.trans hhigh')
      obtain rfl := Option.some.inj (hlow.symm.trans hlow')
      exact ⟨Char.toNat_inj.mp (h.trans h'.symm), hrest⟩

/-- No spelled character begins with a quote. -/
theorem SpellsChar.ne_quote {c : Char} {as xs ys : List Char} (h : SpellsChar c as) :
    as ++ xs ≠ '"' :: ys := by
  cases h with
  | plain hquote hescape hcontrol => exact fun heq => hquote (List.cons.inj heq).1
  | _ => simp

/-- A text ends where its quote is. -/
theorem SpellsText.unique {cs ds as bs xs ys : List Char} (h : SpellsText cs as)
    (h' : SpellsText ds bs) (heq : as ++ '"' :: xs = bs ++ '"' :: ys) : cs = ds ∧ xs = ys := by
  induction h generalizing ds bs with
  | nil =>
    cases h' with
    | nil => exact ⟨rfl, (List.cons.inj heq).2⟩
    | cons hc hmore =>
      rw [List.append_assoc] at heq
      exact absurd heq.symm hc.ne_quote
  | cons hc hmore ih =>
    cases h' with
    | nil =>
      rw [List.append_assoc] at heq
      exact absurd heq hc.ne_quote
    | cons hc' hmore' =>
      rw [List.append_assoc, List.append_assoc] at heq
      obtain ⟨rfl, hrest⟩ := hc.unique hc' heq
      obtain ⟨rfl, hxs⟩ := ih hmore' hrest
      exact ⟨rfl, hxs⟩

/-- A numeral ends where no character of numerals follows. -/
theorem numeral_unique {n m cs ds : List Char} (hn : IsLoose n) (hm : IsLoose m) (hcs : Ends cs)
    (hds : Ends ds) (heq : n ++ cs = m ++ ds) : n = m ∧ cs = ds := by
  have htake : ∀ {n cs : List Char}, IsLoose n → Ends cs →
      (n ++ cs).takeWhile isNumberChar = n := by
    intro n cs hn hcs
    rw [List.takeWhile_append_of_pos hn.chars]
    cases cs with
    | nil => simp
    | cons c cs =>
      have hc : isNumberChar c = false := hcs c rfl
      simp [hc]
  have hsame : n = m := by rw [← htake hn hcs, heq, htake hm hds]
  subst hsame
  exact ⟨rfl, List.append_cancel_left heq⟩

theorem word_unique {w v cs ds : List Char} (hw : w ∈ standardWords) (hv : v ∈ standardWords)
    (heq : w ++ cs = v ++ ds) : w = v ∧ cs = ds := by
  simp only [standardWords, List.mem_cons, List.not_mem_nil, or_false] at hw hv
  rcases hw with rfl | rfl | rfl <;> rcases hv with rfl | rfl | rfl <;> simp_all

/-- What the text spells from a character of some kind on. -/
def SpellsFrom (c : Char) (rest : List Char) (ls : List Lexeme) : Kind → Prop
  | .blank => Spells IsLoose ls rest
  | .mark => ∃ ls', ls = .mark c :: ls' ∧ Spells IsLoose ls' rest
  | .text => ∃ s chars ls' cs, ls = .text s :: ls' ∧ rest = chars ++ '"' :: cs ∧
      SpellsText s.toList chars ∧ Spells IsLoose ls' cs
  | .word => ∃ w ls' cs, ls = .word w :: ls' ∧ c :: rest = w ++ cs ∧ w ∈ standardWords ∧
      Spells IsLoose ls' cs
  | .number => ∃ n ls' cs, ls = .number n :: ls' ∧ c :: rest = n ++ cs ∧ IsLoose n ∧ Ends cs ∧
      Spells IsLoose ls' cs

theorem Spells.cases_cons {ls : List Lexeme} {c : Char} {rest : List Char}
    (h : Spells IsLoose ls (c :: rest)) : SpellsFrom c rest ls (kindOf c) := by
  generalize hcs : c :: rest = cs at h
  cases h with
  | nil => exact absurd hcs (by simp)
  | blank hc h =>
    obtain ⟨rfl, rfl⟩ := List.cons.inj hcs
    rw [kindOf_blank hc]
    exact h
  | mark hc h =>
    obtain ⟨rfl, rfl⟩ := List.cons.inj hcs
    rw [kindOf_mark hc]
    exact ⟨_, rfl, h⟩
  | word hw h =>
    obtain ⟨c', more, rfl, hkind⟩ := exists_kindOf_word hw
    obtain ⟨rfl, -⟩ := List.cons.inj hcs
    rw [hkind]
    exact ⟨_, _, _, rfl, hcs, hw, h⟩
  | number hn hends h =>
    obtain ⟨c', more, rfl, hkind⟩ := exists_kindOf_number hn
    obtain ⟨rfl, -⟩ := List.cons.inj hcs
    rw [hkind]
    exact ⟨_, _, _, rfl, hcs, hn, hends, h⟩
  | text hs h =>
    obtain ⟨rfl, rfl⟩ := List.cons.inj hcs
    have hkind : kindOf '"' = .text := by decide
    rw [hkind]
    exact ⟨_, _, _, _, rfl, rfl, hs, h⟩

theorem Spells.cases_nil {ls : List Lexeme} (h : Spells IsLoose ls []) : ls = [] := by
  generalize hcs : ([] : List Char) = cs at h
  cases h with
  | nil => rfl
  | word hw h =>
    obtain ⟨c, more, rfl, -⟩ := exists_kindOf_word hw
    exact absurd hcs (by simp)
  | number hn hends h =>
    obtain ⟨c, more, rfl, -⟩ := exists_kindOf_number hn
    exact absurd hcs (by simp)
  | _ => exact absurd hcs (by simp)

/-- A text spells one list of lexemes at most. -/
theorem Spells.unique {cs : List Char} {ls ms : List Lexeme} (h : Spells IsLoose ls cs)
    (h' : Spells IsLoose ms cs) : ls = ms := by
  induction h generalizing ms with
  | nil => rw [h'.cases_nil]
  | blank hc h ih =>
    have hfrom := h'.cases_cons
    rw [kindOf_blank hc] at hfrom
    exact ih hfrom
  | mark hc h ih =>
    have hfrom := h'.cases_cons
    rw [kindOf_mark hc] at hfrom
    obtain ⟨ms', rfl, hms⟩ := hfrom
    rw [ih hms]
  | word hw h ih =>
    obtain ⟨c, more, rfl, hkind⟩ := exists_kindOf_word hw
    have hfrom := h'.cases_cons
    rw [hkind] at hfrom
    obtain ⟨v, ms', ds, rfl, heq, hv, hms⟩ := hfrom
    obtain ⟨rfl, rfl⟩ := word_unique hw hv heq
    rw [ih hms]
  | number hn hends h ih =>
    obtain ⟨c, more, rfl, hkind⟩ := exists_kindOf_number hn
    have hfrom := h'.cases_cons
    rw [hkind] at hfrom
    obtain ⟨m, ms', ds, rfl, heq, hm, hends', hms⟩ := hfrom
    obtain ⟨rfl, rfl⟩ := numeral_unique hn hm hends hends' heq
    rw [ih hms]
  | text hs h ih =>
    have hkind : kindOf '"' = .text := by decide
    have hfrom := h'.cases_cons
    rw [hkind] at hfrom
    obtain ⟨t, chars', ms', ds, rfl, heq, ht, hms⟩ := hfrom
    obtain ⟨hst, rfl⟩ := hs.unique ht heq
    rw [String.toList_inj.mp hst, ih hms]

/-- A text says one tree at most. -/
theorem Says.unique {text : String} {j k : Json} (h : Says IsLoose text j)
    (h' : Says IsLoose text k) : j = k := by
  have hlexemes : j.lexemes ++ [] = k.lexemes ++ [] := by rw [Spells.unique h h']
  exact (lexemes_unique j k hlexemes).1

/-! ### Numbers of a tree -/

/-- All numbers of the tree are spelled like this. -/
def Json.Numbers (P : List Char → Prop) (j : Json) : Prop := ∀ n, .number n ∈ j.lexemes → P n

theorem number_mem_separated {α : Type} {f : α → List Lexeme} {xs : List α} {n : List Char} :
    .number n ∈ separated (xs.map f) ↔ ∃ x ∈ xs, .number n ∈ f x := by
  cases xs with
  | nil => simp [separated]
  | cons x xs => simp [separated, List.flatMap_map]

theorem Json.numbers_array_iff {P : List Char → Prop} {items : List Json} :
    (Json.array items).Numbers P ↔ ∀ j ∈ items, j.Numbers P := by
  simp only [Json.Numbers, Json.lexemes, itemLexemes_eq_map, List.mem_cons, List.mem_append,
    reduceCtorEq, List.not_mem_nil, or_false, false_or, number_mem_separated]
  exact ⟨fun h j hj n hn => h n ⟨j, hj, hn⟩, fun h n ⟨j, hj, hn⟩ => h j hj n hn⟩

theorem Json.numbers_object_iff {P : List Char → Prop} {members : List (String × Json)} :
    (Json.object members).Numbers P ↔ ∀ m ∈ members, m.2.Numbers P := by
  simp only [Json.Numbers, Json.lexemes, memberLexemes_eq_map, List.mem_cons, List.mem_append,
    reduceCtorEq, List.not_mem_nil, or_false, false_or, number_mem_separated]
  exact ⟨fun h m hm n hn => h n ⟨m, hm, hn⟩, fun h n ⟨m, hm, hn⟩ => h m hm n hn⟩

/-- What is spelled with some numerals is spelled with others, if those in it are among them. -/
theorem Spells.restrict {Numeral Numeral' : List Char → Prop} {ls : List Lexeme} {cs : List Char}
    (h : Spells Numeral ls cs)
    (hnumerals : ∀ n, .number n ∈ ls → Numeral n → Numeral' n) : Spells Numeral' ls cs := by
  induction h with
  | nil => exact .nil
  | blank hc h ih => exact .blank hc (ih hnumerals)
  | mark hc h ih => exact .mark hc (ih fun n hn => hnumerals n (List.mem_cons_of_mem _ hn))
  | word hw h ih => exact .word hw (ih fun n hn => hnumerals n (List.mem_cons_of_mem _ hn))
  | number hn hends h ih =>
    exact .number (hnumerals _ List.mem_cons_self hn) hends
      (ih fun n hn => hnumerals n (List.mem_cons_of_mem _ hn))
  | text hs h ih => exact .text hs (ih fun n hn => hnumerals n (List.mem_cons_of_mem _ hn))

theorem Spells.numeral_of_mem {Numeral : List Char → Prop} {ls : List Lexeme} {cs : List Char}
    (h : Spells Numeral ls cs) {n : List Char} (hmem : .number n ∈ ls) : Numeral n := by
  induction h with
  | nil => exact absurd hmem List.not_mem_nil
  | blank hc h ih => exact ih hmem
  | number hn hends h ih =>
    rcases List.mem_cons.mp hmem with heq | hmem
    · rwa [Lexeme.number.inj heq]
    · exact ih hmem
  | mark hc h ih | word hw h ih | text hs h ih =>
    rcases List.mem_cons.mp hmem with heq | hmem
    · exact absurd heq (by simp)
    · exact ih hmem

/-- A text that says a tree is a text of the standard exactly if the numbers of the tree have
numerals of the standard. -/
theorem Says.standard_iff {text : String} {j : Json} (h : Says IsLoose text j) :
    (∃ k, Says IsNumeral text k) ↔ j.Numbers IsNumeral := by
  constructor
  · rintro ⟨k, hk⟩ n hn
    have hloose : Says IsLoose text k := Spells.restrict hk fun n _ hn => .inl hn
    obtain rfl := h.unique hloose
    exact Spells.numeral_of_mem hk hn
  · intro hnumerals
    exact ⟨j, Spells.restrict h fun n hn _ => hnumerals n hn⟩

end PromptShelf.JsonText
