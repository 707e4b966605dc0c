/-
Splitting a template into literal text and placeholders.

A placeholder of the key `k` is written in one of two forms,

    `{{ k }}`, with any white space around the key, or `{k}`, with none.

Only given keys are placeholders, and every other brace is literal text.  The
template is read from left to right; where a placeholder can start, it is taken,
and these choices remain:

* the double form comes before the single one;
* of the readings of a double form the one that skips the most white space before
  the key is taken, and then the longest key;
* of single forms the one with the longest key.

The result depends on the template and the keys alone, never on a value, and
`source_split` says that nothing of the template is lost.
-/
import PromptShelf.Text.Blank

namespace PromptShelf.Template

abbrev Key := List Char

/-- A piece of a template: one literal character, or a placeholder as it is written. -/
inductive Piece
  | literal (c : Char)
  | token (key : Key) (source : List Char)
  deriving DecidableEq

def Piece.source : Piece → List Char
  | .literal c => [c]
  | .token _ source => source

/-- A placeholder found at the front of a text: its key and how many characters
it covers. -/
structure Token where
  key : Key
  length : Nat
  deriving DecidableEq

/-- Longer keys first; keys of one length stay in order. -/
def longestFirst (keys : List Key) : List Key :=
  keys.mergeSort fun a b => b.length ≤ a.length

/-- Number of blanks at the front of a text. -/
def blanksAhead (cs : List Char) : Nat := (cs.takeWhile Text.isBlank).length

/-- The key stands at the front and is closed by one brace. -/
def single? (cs : List Char) (key : Key) : Option Token :=
  if key.isPrefixOf cs ∧ ['}'].isPrefixOf (cs.drop key.length) then
    some ⟨key, key.length + 2⟩
  else none

/-- The key stands after `skipped` blanks and is closed, after blanks, by two braces. -/
def double? (cs : List Char) (skipped : Nat) (key : Key) : Option Token :=
  let body := cs.drop skipped
  -- Braces are not blank, so the blanks behind the key can be taken all at once.
  let gap := blanksAhead (body.drop key.length)
  if key.isPrefixOf body ∧ ['}', '}'].isPrefixOf (body.drop (key.length + gap)) then
    some ⟨key, skipped + key.length + gap + 4⟩
  else none

/-- Double forms at the front of what follows two braces, the most blanks first. -/
def doubleFrom? (keys : List Key) (cs : List Char) : Nat → Option Token
  | 0 => keys.findSome? (double? cs 0)
  | n + 1 => (keys.findSome? (double? cs (n + 1))).or (doubleFrom? keys cs n)

/-- The placeholder at the front of a text, for keys in the order they are preferred. -/
def token? (keys : List Key) : List Char → Option Token
  | '{' :: cs =>
    let double := match cs with
      | '{' :: inner => doubleFrom? keys inner (blanksAhead inner)
      | _ => none
    double.or (keys.findSome? (single? cs))
  | _ => none

/-- The pieces of a text, for keys in the order they are preferred. -/
def pieces (keys : List Key) : List Char → List Piece
  | [] => []
  | c :: rest =>
    match token? keys (c :: rest) with
    | some t =>
      .token t.key (c :: rest.take (t.length - 1)) :: pieces keys (rest.drop (t.length - 1))
    | none => .literal c :: pieces keys rest
  termination_by cs => cs.length
  -- A token covers its opening brace at least.
  decreasing_by
    · simp only [List.length_drop, List.length_cons]
      omega
    · simp

/-- The pieces of a template for a list of keys. -/
def split (keys : List Key) (cs : List Char) : List Piece := pieces (longestFirst keys) cs

theorem source_pieces (keys : List Key) (cs : List Char) :
    (pieces keys cs).flatMap Piece.source = cs := by
  fun_induction pieces keys cs with
  | case1 => rfl
  | case2 c rest t _ ih => simp [Piece.source, ih]
  | case3 c rest _ ih => simp [Piece.source, ih]

/-- Nothing of the template is lost. -/
theorem source_split (keys : List Key) (cs : List Char) :
    (split keys cs).flatMap Piece.source = cs :=
  source_pieces _ cs

end PromptShelf.Template
