/-
How a placeholder can be read at the front of a text.

A `Reading` is a placeholder as it is written, with the blanks around its key.
Several readings may start at one place; `Taken` is the one that is taken there:

* the double form is better than the single one;
* of double forms the one with the most blanks ahead of the key is best, and then
  the one with the longest key;
* of single forms the one with the longest key.

The search of `Split` finds it:

* **`token?_eq_some_iff`** — the search finds the reading that is taken, and nothing
  else;
* **`token?_eq_none_iff`** — it finds nothing exactly where no reading starts.
-/
import Mathlib.Data.List.TakeWhile
import PromptShelf.Template.Split

namespace PromptShelf.Template

/-- A placeholder as it is written: the blanks around its key, or none of them. -/
inductive Reading
  | double (ahead : List Char) (key : Key) (behind : List Char)
  | single (key : Key)
  deriving DecidableEq

namespace Reading

def key : Reading → Key
  | .double _ key _ => key
  | .single key => key

def source : Reading → List Char
  | .double ahead key behind => '{' :: '{' :: (ahead ++ (key ++ (behind ++ ['}', '}'])))
  | .single key => '{' :: (key ++ ['}'])

/-- The key is one of those that count, and only blanks stand around it. -/
def Allowed (Names : Key → Prop) : Reading → Prop
  | .double ahead key behind =>
    Names key ∧ (∀ c ∈ ahead, Text.isBlank c = true) ∧ ∀ c ∈ behind, Text.isBlank c = true
  | .single key => Names key

/-- The first of two readings at one place is preferred. -/
def Better : Reading → Reading → Prop
  | .double .., .single _ => True
  | .double ahead key _, .double ahead' key' _ =>
    ahead'.length < ahead.length ∨ (ahead'.length = ahead.length ∧ key'.length < key.length)
  | .single key, .single key' => key'.length < key.length
  | .single _, .double .. => False

def token (r : Reading) : Token := ⟨r.key, r.source.length⟩

theorem Better.asymm {r r' : Reading} (h : r.Better r') : ¬ r'.Better r := by
  cases r with
  | double ahead key _ =>
    cases r' with
    | double ahead' key' _ =>
      simp only [Better] at h ⊢
      omega
    | single key' => exact fun h' => h'
  | single key =>
    cases r' with
    | double ahead' key' _ => exact absurd h fun h => h
    | single key' =>
      simp only [Better] at h ⊢
      omega

end Reading

def StartsAt (Names : Key → Prop) (cs : List Char) (r : Reading) : Prop :=
  r.Allowed Names ∧ r.source <+: cs

/-- A reading that starts at the front of a text and is better than all others there. -/
def Taken (Names : Key → Prop) (cs : List Char) (r : Reading) : Prop :=
  StartsAt Names cs r ∧ ∀ r', StartsAt Names cs r' → r' = r ∨ r.Better r'

theorem Taken.unique {Names : Key → Prop} {cs : List Char} {r r' : Reading}
    (h : Taken Names cs r) (h' : Taken Names cs r') : r = r' := by
  rcases h'.2 r h.1 with heq | hbetter
  · exact heq
  · rcases h.2 r' h'.1 with heq | hbetter'
    · exact heq.symm
    · exact absurd hbetter hbetter'.asymm

theorem StartsAt.congr {Names Names' : Key → Prop} (h : ∀ k, Names k ↔ Names' k)
    (cs : List Char) (r : Reading) : StartsAt Names cs r ↔ StartsAt Names' cs r := by
  cases r <;> simp [StartsAt, Reading.Allowed, h]

/-! ### Blanks -/

theorem length_le_blanksAhead {ahead : List Char} (h : ∀ c ∈ ahead, Text.isBlank c = true)
    (rest : List Char) : ahead.length ≤ blanksAhead (ahead ++ rest) := by
  rw [blanksAhead, List.takeWhile_append_of_pos h, List.length_append]
  omega

/-- Blanks that a brace ends are all the blanks ahead. -/
theorem blanksAhead_append_brace {ahead : List Char} (h : ∀ c ∈ ahead, Text.isBlank c = true)
    (rest : List Char) : blanksAhead (ahead ++ '}' :: rest) = ahead.length := by
  have hbrace : ¬ Text.isBlank '}' = true := by simp [Text.not_isBlank_brace.2]
  rw [blanksAhead, List.takeWhile_append_of_pos h, List.takeWhile_cons_of_neg hbrace,
    List.append_nil]

theorem isBlank_of_mem_take {cs : List Char} {n : Nat} (hn : n ≤ blanksAhead cs) {c : Char}
    (hc : c ∈ cs.take n) : Text.isBlank c = true := by
  have hfront : cs.take n <+: cs.takeWhile Text.isBlank :=
    List.prefix_of_prefix_length_le (List.take_prefix n cs) (List.takeWhile_prefix _)
      (by rw [List.length_take]; exact le_trans (Nat.min_le_left _ _) hn)
  exact List.mem_takeWhile_imp (hfront.subset hc)

/-! ### Readings of one form -/

theorem startsAt_single_iff {Names : Key → Prop} {cs : List Char} {key : Key} :
    StartsAt Names ('{' :: cs) (.single key) ↔ Names key ∧ key ++ ['}'] <+: cs := by
  rw [StartsAt, Reading.Allowed, Reading.source, List.cons_prefix_cons]
  simp

theorem startsAt_double_iff {Names : Key → Prop} {inner : List Char} {ahead behind : List Char}
    {key : Key} :
    StartsAt Names ('{' :: '{' :: inner) (.double ahead key behind) ↔
      (Names key ∧ (∀ c ∈ ahead, Text.isBlank c = true) ∧
          ∀ c ∈ behind, Text.isBlank c = true) ∧
        ahead ++ (key ++ (behind ++ ['}', '}'])) <+: inner := by
  rw [StartsAt, Reading.Allowed, Reading.source, List.cons_prefix_cons, List.cons_prefix_cons]
  simp

theorem single?_eq_some_iff {cs : List Char} {key : Key} {t : Token} :
    single? cs key = some t ↔ key ++ ['}'] <+: cs ∧ (Reading.single key).token = t := by
  have htoken : (Reading.single key).token = ⟨key, key.length + 2⟩ := by
    simp [Reading.token, Reading.key, Reading.source]
  have hfront : (key.isPrefixOf cs = true ∧ ['}'].isPrefixOf (cs.drop key.length) = true) ↔
      key ++ ['}'] <+: cs := by
    rw [List.isPrefixOf_iff_prefix, List.isPrefixOf_iff_prefix]
    constructor
    · rintro ⟨⟨rest, rfl⟩, hbrace⟩
      rw [List.drop_left] at hbrace
      exact (List.prefix_append_right_inj key).mpr hbrace
    · rintro ⟨rest, rfl⟩
      rw [List.append_assoc, List.drop_left]
      exact ⟨List.prefix_append _ _, List.prefix_append _ _⟩
  rw [single?, htoken]
  by_cases h : key ++ ['}'] <+: cs
  · rw [if_pos (hfront.mpr h), Option.some_inj]
    exact ⟨fun ht => ⟨h, ht⟩, fun ht => ht.2⟩
  · rw [if_neg fun hc => h (hfront.mp hc)]
    exact ⟨fun ht => absurd ht (by simp), fun ht => absurd ht.1 h⟩

/-- The double form of a key after `n` blanks is found where it stands. -/
theorem double?_eq_some_iff {cs : List Char} {n : Nat} {key : Key} {t : Token} :
    double? cs n key = some t ↔
      ∃ behind, (∀ c ∈ behind, Text.isBlank c = true) ∧
        key ++ (behind ++ ['}', '}']) <+: cs.drop n ∧
        t = ⟨key, n + key.length + behind.length + 4⟩ := by
  rw [double?]
  constructor
  · intro h
    simp only [List.isPrefixOf_iff_prefix] at h
    split at h
    · rename_i hfound
      obtain ⟨⟨tail, htail⟩, hbraces⟩ := hfound
      rw [← htail, List.drop_left] at h
      rw [← htail, ← List.drop_drop, List.drop_left] at hbraces
      -- All blanks that follow the key stand behind it, and then the braces close.
      refine ⟨tail.take (blanksAhead tail), fun c hc => isBlank_of_mem_take le_rfl hc, ?_, ?_⟩
      · rw [← htail, List.prefix_append_right_inj]
        obtain ⟨rest, hrest⟩ := hbraces
        refine ⟨rest, ?_⟩
        rw [List.append_assoc, hrest, List.take_append_drop]
      · have hle : blanksAhead tail ≤ tail.length := (List.takeWhile_prefix _).length_le
        rw [List.length_take, Nat.min_eq_left hle]
        exact (Option.some_inj.mp h).symm
    · exact absurd h (by simp)
  · rintro ⟨behind, hblank, ⟨rest, hrest⟩, rfl⟩
    have hdrop : (cs.drop n).drop key.length = behind ++ '}' :: '}' :: rest := by
      rw [← hrest]
      simp
    have hgap : blanksAhead ((cs.drop n).drop key.length) = behind.length := by
      rw [hdrop, blanksAhead_append_brace hblank]
    have hkey : key <+: cs.drop n := by
      rw [← hrest, List.append_assoc]
      exact List.prefix_append _ _
    have hbraces : ['}', '}'] <+: (cs.drop n).drop (key.length + behind.length) := by
      rw [← List.drop_drop, hdrop, List.drop_left]
      exact ⟨rest, rfl⟩
    simp only [List.isPrefixOf_iff_prefix, hgap]
    exact if_pos ⟨hkey, hbraces⟩

/-! ### The best of several -/

/-- With longer keys first, what is found is found for the longest key. -/
theorem longest_of_findSome? {keys : List Key} {f : Key → Option Token} {t : Token}
    (hsorted : keys.Pairwise fun a b => b.length ≤ a.length) (h : keys.findSome? f = some t) :
    ∃ key ∈ keys, f key = some t ∧
      ∀ key' ∈ keys, (f key').isSome → key'.length ≤ key.length := by
  obtain ⟨before, key, after, rfl, hkey, hnone⟩ := List.findSome?_eq_some_iff.mp h
  refine ⟨key, by simp, hkey, fun key' hmem hsome => ?_⟩
  rcases List.mem_append.mp hmem with hbefore | hrest
  · rw [hnone key' hbefore] at hsome
    exact absurd hsome (by simp)
  · rcases List.mem_cons.mp hrest with rfl | hafter
    · exact le_rfl
    · exact List.rel_of_pairwise_cons (List.pairwise_append.mp hsorted).2.1 hafter

theorem doubleFrom?_eq_none_iff {keys : List Key} {inner : List Char} {n : Nat} :
    doubleFrom? keys inner n = none ↔
      ∀ m, m ≤ n → keys.findSome? (double? inner m) = none := by
  induction n with
  | zero => simp [doubleFrom?]
  | succ n ih =>
    rw [doubleFrom?, Option.or_eq_none_iff, ih]
    constructor
    · rintro ⟨hlast, hless⟩ m hm
      rcases Nat.le_succ_iff.mp hm with hm | rfl
      · exact hless m hm
      · exact hlast
    · intro h
      exact ⟨h (n + 1) le_rfl, fun m hm => h m (by omega)⟩

/-- What is found is found behind as many blanks as possible. -/
theorem most_of_doubleFrom? {keys : List Key} {inner : List Char} {n : Nat} {t : Token}
    (h : doubleFrom? keys inner n = some t) :
    ∃ m, m ≤ n ∧ keys.findSome? (double? inner m) = some t ∧
      ∀ j, j ≤ n → m < j → keys.findSome? (double? inner j) = none := by
  induction n with
  | zero => exact ⟨0, le_rfl, h, fun j hj hlt => by omega⟩
  | succ n ih =>
    rw [doubleFrom?] at h
    cases hlast : keys.findSome? (double? inner (n + 1)) with
    | some t' =>
      rw [hlast, Option.some_or] at h
      exact ⟨n + 1, le_rfl, by rw [hlast, h], fun j hj hlt => by omega⟩
    | none =>
      rw [hlast, Option.none_or] at h
      obtain ⟨m, hm, hfound, hmost⟩ := ih h
      refine ⟨m, by omega, hfound, fun j hj hlt => ?_⟩
      rcases Nat.le_succ_iff.mp hj with hj | rfl
      · exact hmost j hj hlt
      · exact hlast

/-! ### The search finds the reading that is taken -/

section Search

variable {keys : List Key} {cs inner : List Char} {t : Token}

/-- Keys that end in the same place behind the same blanks are the same. -/
private theorem eq_of_startsAt_double {Names : Key → Prop} {ahead ahead' behind behind' : List Char}
    {key key' : Key} (h : StartsAt Names ('{' :: '{' :: inner) (.double ahead key behind))
    (h' : StartsAt Names ('{' :: '{' :: inner) (.double ahead' key' behind'))
    (hahead : ahead.length = ahead'.length) (hkey : key.length = key'.length) :
    Reading.double ahead key behind = .double ahead' key' behind' := by
  obtain ⟨⟨-, -, hblank⟩, rest, hrest⟩ := startsAt_double_iff.mp h
  obtain ⟨⟨-, -, hblank'⟩, rest', hrest'⟩ := startsAt_double_iff.mp h'
  have hsame := hrest.trans hrest'.symm
  simp only [List.append_assoc] at hsame
  obtain ⟨rfl, hfromKey⟩ := List.append_inj hsame hahead
  obtain ⟨rfl, hfromBehind⟩ := List.append_inj hfromKey hkey
  -- The blanks behind the key end at the first brace, so their number is fixed.
  have hbehind : behind.length = behind'.length := by
    rw [← blanksAhead_append_brace hblank ('}' :: rest),
      ← blanksAhead_append_brace hblank' ('}' :: rest')]
    exact congrArg blanksAhead (by simpa using hfromBehind)
  obtain ⟨rfl, -⟩ := List.append_inj hfromBehind hbehind
  rfl

/-- A double form that starts here is found behind as many blanks as it has ahead. -/
private theorem double?_of_startsAt {ahead behind : List Char} {key : Key}
    (h : StartsAt (· ∈ keys) ('{' :: '{' :: inner) (.double ahead key behind)) :
    ahead.length ≤ blanksAhead inner ∧
      double? inner ahead.length key = some (Reading.double ahead key behind).token := by
  obtain ⟨⟨-, hahead, hbehind⟩, rest, rfl⟩ := startsAt_double_iff.mp h
  constructor
  · rw [List.append_assoc]
    exact length_le_blanksAhead hahead _
  · refine double?_eq_some_iff.mpr ⟨behind, hbehind, ⟨rest, by simp⟩, ?_⟩
    simp only [Reading.token, Reading.key, Reading.source, List.length_cons, List.length_append,
      List.length_nil, Token.mk.injEq, true_and]
    omega

/-- What is found behind some of the blanks ahead is a double form that starts here. -/
private theorem startsAt_of_double? {n : Nat} {key : Key} (hn : n ≤ blanksAhead inner)
    (hmem : key ∈ keys) (h : double? inner n key = some t) :
    ∃ behind, StartsAt (· ∈ keys) ('{' :: '{' :: inner) (.double (inner.take n) key behind) ∧
      (Reading.double (inner.take n) key behind).token = t ∧ (inner.take n).length = n := by
  obtain ⟨behind, hbehind, ⟨rest, hrest⟩, rfl⟩ := double?_eq_some_iff.mp h
  have hlength : (inner.take n).length = n :=
    List.length_take_of_le (le_trans hn (List.takeWhile_prefix _).length_le)
  refine ⟨behind, startsAt_double_iff.mpr ⟨⟨hmem, fun c hc => isBlank_of_mem_take hn hc, hbehind⟩,
    rest, ?_⟩, ?_, hlength⟩
  · rw [List.append_assoc, hrest, List.take_append_drop]
  · simp only [Reading.token, Reading.key, Reading.source, List.length_cons, List.length_append,
      hlength, List.length_nil, Token.mk.injEq, true_and]
    omega

private theorem not_startsAt_double (h : doubleFrom? keys inner (blanksAhead inner) = none)
    (ahead : List Char) (key : Key) (behind : List Char) :
    ¬ StartsAt (· ∈ keys) ('{' :: '{' :: inner) (.double ahead key behind) := by
  intro hstart
  obtain ⟨hle, hfound⟩ := double?_of_startsAt hstart
  have hnone := doubleFrom?_eq_none_iff.mp h ahead.length hle
  rw [List.findSome?_eq_none_iff.mp hnone key (startsAt_double_iff.mp hstart).1.1] at hfound
  exact absurd hfound (by simp)

private theorem taken_of_doubleFrom? (hsorted : keys.Pairwise fun a b => b.length ≤ a.length)
    (h : doubleFrom? keys inner (blanksAhead inner) = some t) :
    ∃ r, Taken (· ∈ keys) ('{' :: '{' :: inner) r ∧ r.token = t := by
  obtain ⟨n, hn, hfound, hmost⟩ := most_of_doubleFrom? h
  obtain ⟨key, hmem, hkey, hlongest⟩ := longest_of_findSome? hsorted hfound
  obtain ⟨behind, hstart, htoken, hlength⟩ := startsAt_of_double? hn hmem hkey
  refine ⟨_, ⟨hstart, fun r' hstart' => ?_⟩, htoken⟩
  cases r' with
  | single key' => exact Or.inr trivial
  | double ahead' key' behind' =>
    -- The search comes past this reading, too, and prefers what it has found.
    obtain ⟨hle, hfound'⟩ := double?_of_startsAt hstart'
    have hmem' := (startsAt_double_iff.mp hstart').1.1
    -- A reading with more blanks ahead would have been found before this one.
    have hahead : ahead'.length ≤ n := by
      by_contra hlt
      have hnone := hmost ahead'.length hle (by omega)
      rw [List.findSome?_eq_none_iff.mp hnone key' hmem'] at hfound'
      exact absurd hfound' (by simp)
    rcases Nat.lt_or_eq_of_le hahead with hlt | heq
    · exact Or.inr (Or.inl (by rw [hlength]; exact hlt))
    · rcases Nat.lt_or_eq_of_le (hlongest key' hmem' (by rw [← heq, hfound']; rfl)) with hlt | hkeys
      · exact Or.inr (Or.inr ⟨by rw [hlength, heq], hlt⟩)
      · exact Or.inl (eq_of_startsAt_double hstart' hstart (by rw [hlength, heq]) hkeys)

private theorem not_startsAt_single (h : keys.findSome? (single? cs) = none) (key : Key) :
    ¬ StartsAt (· ∈ keys) ('{' :: cs) (.single key) := by
  intro hstart
  obtain ⟨hmem, hfront⟩ := startsAt_single_iff.mp hstart
  have hfound := single?_eq_some_iff.mpr ⟨hfront, rfl⟩
  rw [List.findSome?_eq_none_iff.mp h key hmem] at hfound
  exact absurd hfound (by simp)

private theorem taken_of_single? (hsorted : keys.Pairwise fun a b => b.length ≤ a.length)
    (hdouble : ∀ ahead key behind, ¬ StartsAt (· ∈ keys) ('{' :: cs) (.double ahead key behind))
    (h : keys.findSome? (single? cs) = some t) :
    ∃ r, Taken (· ∈ keys) ('{' :: cs) r ∧ r.token = t := by
  obtain ⟨key, hmem, hkey, hlongest⟩ := longest_of_findSome? hsorted h
  obtain ⟨hfront, htoken⟩ := single?_eq_some_iff.mp hkey
  refine ⟨.single key, ⟨startsAt_single_iff.mpr ⟨hmem, hfront⟩, fun r' hstart' => ?_⟩, htoken⟩
  cases r' with
  | double ahead' key' behind' => exact absurd hstart' (hdouble ahead' key' behind')
  | single key' =>
    obtain ⟨hmem', hfront'⟩ := startsAt_single_iff.mp hstart'
    have hsome : (single? cs key').isSome := by
      rw [single?_eq_some_iff.mpr ⟨hfront', rfl⟩]
      rfl
    rcases Nat.lt_or_eq_of_le (hlongest key' hmem' hsome) with hlt | heq
    · exact Or.inr hlt
    · have hle := List.prefix_of_prefix_length_le ((List.prefix_append _ _).trans hfront')
        ((List.prefix_append _ _).trans hfront) (le_of_eq heq)
      exact Or.inl (by rw [hle.eq_of_length heq])

private theorem exists_cons_of_startsAt {Names : Key → Prop} {r : Reading}
    (h : StartsAt Names cs r) : ∃ rest, cs = '{' :: rest := by
  obtain ⟨-, rest, rfl⟩ := h
  cases r <;> exact ⟨_, rfl⟩

private theorem exists_cons_of_startsAt_double {Names : Key → Prop}
    {ahead behind : List Char} {key : Key}
    (h : StartsAt Names ('{' :: cs) (.double ahead key behind)) : ∃ rest, cs = '{' :: rest := by
  obtain ⟨-, rest, hrest⟩ := h
  rw [Reading.source, List.cons_append, List.cons_append, List.cons_inj_right] at hrest
  exact ⟨_, hrest.symm⟩

theorem taken_of_token? (hsorted : keys.Pairwise fun a b => b.length ≤ a.length)
    (h : token? keys cs = some t) : ∃ r, Taken (· ∈ keys) cs r ∧ r.token = t := by
  rw [token?.eq_def] at h
  split at h
  · rename_i rest
    split at h
    · rename_i inner
      cases hdouble : doubleFrom? keys inner (blanksAhead inner) with
      | some t' =>
        rw [hdouble, Option.some_or, Option.some_inj] at h
        exact h ▸ taken_of_doubleFrom? hsorted hdouble
      | none =>
        rw [hdouble, Option.none_or] at h
        exact taken_of_single? hsorted (not_startsAt_double hdouble) h
    · rename_i hone
      rw [Option.none_or] at h
      refine taken_of_single? hsorted (fun ahead key behind hstart => ?_) h
      obtain ⟨inner, hinner⟩ := exists_cons_of_startsAt_double hstart
      exact hone inner hinner
  · exact absurd h (by simp)

theorem not_startsAt_of_token? (h : token? keys cs = none) (r : Reading) :
    ¬ StartsAt (· ∈ keys) cs r := by
  intro hstart
  rw [token?.eq_def] at h
  split at h
  · rw [Option.or_eq_none_iff] at h
    cases r with
    | single key => exact not_startsAt_single h.2 key hstart
    | double ahead key behind =>
      obtain ⟨inner, rfl⟩ := exists_cons_of_startsAt_double hstart
      exact not_startsAt_double h.1 ahead key behind hstart
  · rename_i hbrace
    obtain ⟨rest, rfl⟩ := exists_cons_of_startsAt hstart
    exact hbrace rest rfl

theorem token?_eq_some_iff (hsorted : keys.Pairwise fun a b => b.length ≤ a.length) :
    token? keys cs = some t ↔ ∃ r, Taken (· ∈ keys) cs r ∧ r.token = t := by
  constructor
  · exact taken_of_token? hsorted
  · rintro ⟨r, htaken, rfl⟩
    cases h : token? keys cs with
    | none => exact absurd htaken.1 (not_startsAt_of_token? h r)
    | some t' =>
      obtain ⟨r', htaken', rfl⟩ := taken_of_token? hsorted h
      rw [htaken.unique htaken']

theorem token?_eq_none_iff (hsorted : keys.Pairwise fun a b => b.length ≤ a.length) :
    token? keys cs = none ↔ ∀ r, ¬ StartsAt (· ∈ keys) cs r := by
  constructor
  · exact not_startsAt_of_token?
  · intro h
    cases hfound : token? keys cs with
    | none => rfl
    | some t' =>
      obtain ⟨r, htaken, -⟩ := taken_of_token? hsorted hfound
      exact absurd htaken.1 (h r)

end Search

end PromptShelf.Template
