/-
Messages with places for arguments.

In a message with arguments a percent sign and a letter are a place: `s` takes any
value and shows it, `d` takes a number and shows its whole part, and a second percent
sign takes nothing and shows one.  There must be as many places as arguments, except
that a lone argument that can be asked for its parts by name or number need not be shown.
A message without arguments has no places.

These are the places of the messages that are written here.  There are others, with more
letters and with flags, widths and names before the letter; none of them is known here, and
a message with one is refused like a message with a letter that means nothing.
-/
import PromptShelf.Value.Heap

namespace PromptShelf.Log

/-- Why arguments do not fit their message. -/
inductive ArgumentError
  | tooFew
  | tooMany
  | notNumber (kind : String)
  | notANumber
  | infinite
  | incomplete
  | unknownPlace (letter : Char) (index : Nat)
  deriving DecidableEq

namespace ArgumentError

def name : ArgumentError → String
  | .tooFew => "TypeError"
  | .tooMany => "TypeError"
  | .notNumber _ => "TypeError"
  | .infinite => "OverflowError"
  | _ => "ValueError"

/-- A printable ASCII character, or a question mark. -/
def visible (c : Char) : Char := if 31 ≤ c.toNat ∧ c.toNat ≤ 126 then c else '?'

def message : ArgumentError → String
  | .tooFew => "not enough arguments for format string"
  | .tooMany => "not all arguments converted during string formatting"
  | .notNumber kind => "%d format: a real number is required, not " ++ kind
  | .notANumber => "cannot convert float NaN to integer"
  | .infinite => "cannot convert float infinity to integer"
  | .incomplete => "incomplete format"
  | .unknownPlace letter index =>
    "unsupported format character '" ++ String.ofList [visible letter] ++ "' (0x" ++
      String.ofList (Nat.toDigits 16 letter.toNat) ++ ") at index " ++
      String.ofList (Decimal.digits index)

end ArgumentError

def wholePart (v : Value) : Except ArgumentError Int :=
  match v with
  | .int n => .ok n
  | .bool b => .ok (if b then 1 else 0)
  | .float .nan => .error .notANumber
  | .float x =>
    match x.truncate? with
    | some n => .ok n
    | none => .error .infinite
  | .decimal negative size =>
    let n := Int.ofNat (size.coefficient * Nat.pow 10 size.exponent.toNat /
      Nat.pow 10 (-size.exponent).toNat)
    .ok (if negative then -n else n)
  | v => .error (.notNumber v.qualifiedKind)

/-- What fills the places of a message. -/
structure Arguments where
  items : List Value
  mayRemain : Bool

namespace Arguments

/-- Arguments one by one.  A lone dictionary with entries need not be shown. -/
def ofList (heap : Heap) (items : List Value) : Arguments :=
  match items.map heap.resolve with
  | [.dict (_ :: _)] => ⟨items, true⟩
  | _ => ⟨items, false⟩

/-- The arguments that one value gives: a tuple its items, anything else itself, and
nothing, zero and what is empty none.  Lists, dictionaries and bytes need not be shown. -/
def ofValue (heap : Heap) (v : Value) : Arguments :=
  match heap.resolve v with
  | .tuple items => ⟨items, false⟩
  | w =>
    if !w.isTrue then ⟨[], false⟩
    else
      match w with
      | .list _ => ⟨[v], true⟩
      | .dict _ => ⟨[v], true⟩
      | .bytes _ => ⟨[v], true⟩
      | _ => ⟨[v], false⟩

end Arguments

/-- The text of an argument in a place, whose letter stands at an index.  Places of other kinds
than `s` and `d` are left out, even if their letter has a meaning. -/
def argumentText (heap : Heap) (letter : Char) (index : Nat) (v : Value) :
    Except ArgumentError (List Char) :=
  if letter = 's' then .ok (heap.display v).toList
  else if letter = 'd' then (wholePart (heap.resolve v)).map Decimal.ofInt
  else .error (.unknownPlace letter index)

/-- A message from an index on with its arguments filled in, and those left over. -/
def fillFrom (heap : Heap) (index : Nat) (args : List Value) :
    List Char → Except ArgumentError (List Char × List Value)
  | [] => .ok ([], args)
  | ['%'] => .error .incomplete
  | '%' :: '%' :: rest => do
    let (text, left) ← fillFrom heap (index + 2) args rest
    return ('%' :: text, left)
  | '%' :: letter :: rest =>
    match args with
    | [] => .error .tooFew
    | v :: others => do
      let front ← argumentText heap letter (index + 1) v
      let (text, left) ← fillFrom heap (index + 2) others rest
      return (front ++ text, left)
  | c :: rest => do
    let (text, left) ← fillFrom heap (index + 1) args rest
    return (c :: text, left)

def fillMessage (heap : Heap) (message : String) (args : Arguments) :
    Except ArgumentError String :=
  if args.items.isEmpty then .ok message
  else do
    let (text, left) ← fillFrom heap 0 args.items message.toList
    if left.isEmpty || args.mayRemain then return String.ofList text else throw .tooMany

end PromptShelf.Log
