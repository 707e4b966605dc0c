/-
Reading values from their JSON text.

A text is cut into tokens, brackets, commas, colons and leaves, with blanks
between them dropped; the tokens are then put together (`read`).  Control
characters inside quotes, commas before a closing bracket and anything after the
value are refused, and so are arrays and objects too deep inside each other.  The
reason that comes first in the text is given (`ReadError`).

Beside the standard's numbers the reader knows `NaN` and the two infinities.  A
numeral with a point or an exponent is a double, any other an integer.
-/
import PromptShelf.Value.Basic

namespace PromptShelf.JsonText

/-- What brackets enclose. -/
inductive Nesting
  | array
  | object
  deriving DecidableEq

def Nesting.word : Nesting → String
  | .array => "array"
  | .object => "object"

/-- Why a text is no value: it breaks the rules, or an array or object in it stands too
deep inside others. -/
inductive ReadError
  | malformed
  | tooDeep (nesting : Nesting)
  deriving DecidableEq

/-- A bracket, comma or colon, a value that is none of the brackets' kind, or a place
where no token begins. -/
inductive Token
  | mark (c : Char)
  | leaf (v : Value)
  | nothing

def hexValue? (c : Char) : Option Nat :=
  if c.isDigit then some (c.toNat - '0'.toNat)
  else if 'a' ≤ c ∧ c ≤ 'f' then some (c.toNat - 'a'.toNat + 10)
  else if 'A' ≤ c ∧ c ≤ 'F' then some (c.toNat - 'A'.toNat + 10)
  else none

def hexNumber? (a b c d : Char) : Option Nat := do
  let high := (← hexValue? a) * 16 + (← hexValue? b)
  return (high * 16 + (← hexValue? c)) * 16 + (← hexValue? d)

/-- Character that a letter after a backslash stands for. -/
def escaped? : Char → Option Char
  | '"' => some '"'
  | '\\' => some '\\'
  | '/' => some '/'
  | 'b' => some '\x08'
  | 'f' => some '\x0c'
  | 'n' => some '\n'
  | 'r' => some '\r'
  | 't' => some '\t'
  | _ => none

/-- Code units up to the closing quote, and what follows it. -/
def textUnits : List Char → Option (List Nat × List Char)
  | [] => none
  | '"' :: rest => some ([], rest)
  | '\\' :: 'u' :: a :: b :: c :: d :: rest => do
    let n ← hexNumber? a b c d
    let (more, rest) ← textUnits rest
    return (n :: more, rest)
  | '\\' :: c :: rest => do
    let e ← escaped? c
    let (more, rest) ← textUnits rest
    return (e.toNat :: more, rest)
  | c :: rest =>
    if c.toNat < 32 ∨ c = '\\' then none
    else do
      let (more, rest) ← textUnits rest
      return (c.toNat :: more, rest)

/-- Characters of code units: two surrogates are one character, one alone is none
and leaves the replacement character. -/
def ofUnits : List Nat → List Char
  | high :: low :: rest =>
    if 0xd800 ≤ high ∧ high < 0xdc00 ∧ 0xdc00 ≤ low ∧ low < 0xe000 then
      Char.ofNat (0x10000 + (high - 0xd800) * 1024 + (low - 0xdc00)) :: ofUnits rest
    else (if high.isValidChar then Char.ofNat high else '\ufffd') :: ofUnits (low :: rest)
  | [unit] => [if unit.isValidChar then Char.ofNat unit else '\ufffd']
  | [] => []

/-- Whole part of a numeral: a zero, or digits that begin with another one. -/
def wholeDigits : List Char → Option (List Char × List Char)
  | '0' :: rest => some (['0'], rest)
  | c :: rest => if c.isDigit then some (Decimal.splitDigits (c :: rest)) else none
  | [] => none

/-- A point with digits after it, or nothing. -/
def places : List Char → List Char × List Char
  | '.' :: c :: rest =>
    if c.isDigit then Decimal.splitDigits (c :: rest) else ([], '.' :: c :: rest)
  | cs => ([], cs)

/-- An exponent: a mark, an optional sign and digits; or nothing. -/
def exponent (cs : List Char) : Option Int × List Char :=
  match cs with
  | mark :: rest =>
    if mark ≠ 'e' ∧ mark ≠ 'E' then (none, cs)
    else
      let (negative, rest) := match rest with
        | '-' :: rest => (true, rest)
        | '+' :: rest => (false, rest)
        | rest => (false, rest)
      match Decimal.splitDigits rest with
      | ([], _) => (none, cs)
      | (ds, rest) =>
        let n : Int := Decimal.ofDigits ds
        (some (if negative then -n else n), rest)
  | [] => (none, cs)

/-- The number at the front of a text, its sign taken off already. -/
def number (negative : Bool) (cs : List Char) : Option (Value × List Char) := do
  let (whole, rest) ← wholeDigits cs
  let (fraction, rest) := places rest
  let (power, rest) := exponent rest
  if fraction.isEmpty ∧ power.isNone then
    let n : Int := Decimal.ofDigits whole
    return (.int (if negative then -n else n), rest)
  else
    let coefficient := Decimal.ofDigits (whole ++ fraction)
    return (.float (.ofDecimal negative coefficient (power.getD 0 - fraction.length)), rest)

def words : List (List Char × Value) :=
  [("null".toList, .none), ("true".toList, .bool true), ("false".toList, .bool false),
    ("NaN".toList, .float .nan), ("Infinity".toList, .float (.infinity false)),
    ("-Infinity".toList, .float (.infinity true))]

/-- The word at the front of a text, and what follows it. -/
def word (cs : List Char) : Option (Value × List Char) :=
  words.findSome? fun (w, v) => if w.isPrefixOf cs then some (v, cs.drop w.length) else none

/-- The token at the front of a text, and what follows it. -/
def token (c : Char) (rest : List Char) : Option (Token × List Char) :=
  if "[]\x7b\x7d,:".toList.contains c then some (.mark c, rest)
  else if c = '"' then
    (textUnits rest).map fun (units, rest) =>
      (.leaf (.text (String.ofList (ofUnits units))), rest)
  else
    match word (c :: rest) with
    | some (v, rest) => some (.leaf v, rest)
    | none =>
      let found := if c = '-' then number true rest else number false (c :: rest)
      found.map fun (v, rest) => (.leaf v, rest)

def isBlank (c : Char) : Bool := c == ' ' || c == '\t' || c == '\n' || c == '\r'

/-- Tokens of a text, at most as many as `fuel`, up to the first place where none
begins. -/
def tokensFrom : Nat → List Char → List Token
  | _, [] => []
  | 0, _ => [.nothing]
  | fuel + 1, c :: rest =>
    if isBlank c then tokensFrom fuel rest
    else
      match token c rest with
      | some (t, rest) => t :: tokensFrom fuel rest
      | none => [.nothing]

def tokens (cs : List Char) : List Token := tokensFrom cs.length cs

mutual

/-- The value at the front of tokens, and the tokens after it; arrays and objects may
stand `depth` deep inside each other. -/
def valueFrom : Nat → Nat → List Token → Except ReadError (Value × List Token)
  | _ + 1, _, .leaf v :: rest => .ok (v, rest)
  | _ + 1, 0, .mark '[' :: _ => .error (.tooDeep .array)
  | _ + 1, _ + 1, .mark '[' :: .mark ']' :: rest => .ok (.list [], rest)
  | fuel + 1, depth + 1, .mark '[' :: rest => do
    let (items, rest) ← itemsFrom fuel depth rest
    return (.list items, rest)
  | _ + 1, 0, .mark '\x7b' :: _ => .error (.tooDeep .object)
  | _ + 1, _ + 1, .mark '\x7b' :: .mark '\x7d' :: rest => .ok (.dict [], rest)
  | fuel + 1, depth + 1, .mark '\x7b' :: rest => do
    let (pairs, rest) ← pairsFrom fuel depth rest
    return (.dict (Value.entriesOf pairs), rest)
  | _, _, _ => .error .malformed

/-- Values with commas between them, up to the closing bracket. -/
def itemsFrom : Nat → Nat → List Token → Except ReadError (List Value × List Token)
  | 0, _, _ => .error .malformed
  | fuel + 1, depth, ts => do
    let (v, rest) ← valueFrom fuel depth ts
    match rest with
    | .mark ']' :: rest => return ([v], rest)
    | .mark ',' :: rest =>
      let (more, rest) ← itemsFrom fuel depth rest
      return (v :: more, rest)
    | _ => throw .malformed

/-- Keys and values with commas between them, up to the closing brace. -/
def pairsFrom :
    Nat → Nat → List Token → Except ReadError (List (Value × Value) × List Token)
  | fuel + 1, depth, .leaf (.text key) :: .mark ':' :: rest => do
    let (v, rest) ← valueFrom fuel depth rest
    match rest with
    | .mark '\x7d' :: rest => return ([(.text key, v)], rest)
    | .mark ',' :: rest =>
      let (more, rest) ← pairsFrom fuel depth rest
      return ((.text key, v) :: more, rest)
    | _ => throw .malformed
  | _, _, _ => .error .malformed

end

/-- The value that a text is, with arrays and objects at most `depth` deep inside each
other. -/
def read (depth : Nat) (cs : List Char) : Except ReadError Value :=
  let ts := tokens cs
  match valueFrom (2 * ts.length + 1) depth ts with
  | .ok (v, []) => .ok v
  | .ok _ => .error .malformed
  | .error cause => .error cause

end PromptShelf.JsonText
