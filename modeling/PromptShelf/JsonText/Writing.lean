/-
Writing values as JSON text.

Lists and tuples are arrays and dictionaries are objects, whose keys may be texts,
numbers, truth values and nothing.  Texts are escaped only where JSON asks for it;
doubles are in their general notation, with words for those that are no numbers;
decimals, bytes, sets and objects of other types are written as the text they show.

A container that holds itself has no JSON text, and no other key has one either.  A text
is written from its front to its end, and the first part without one decides.
-/
import PromptShelf.JsonText.Reading
import PromptShelf.Text.Quoted
import PromptShelf.Value.Heap

namespace PromptShelf.JsonText

/-- Why a value has no JSON text. -/
inductive WriteError
  | circular
  | badKey (kind : String)
  deriving DecidableEq

def WriteError.message : WriteError → String
  | .circular => "Circular reference detected"
  | .badKey kind => "keys must be str, int, float, bool or None, not " ++ kind

def escapedChar (c : Char) : List Char :=
  if c = '"' then ['\\', '"']
  else if c = '\\' then ['\\', '\\']
  else if c = '\n' then ['\\', 'n']
  else if c = '\r' then ['\\', 'r']
  else if c = '\t' then ['\\', 't']
  else if c = '\x08' then ['\\', 'b']
  else if c = '\x0c' then ['\\', 'f']
  else if c.toNat < 32 then '\\' :: 'u' :: '0' :: '0' :: Text.hexDigits 2 c.toNat
  else [c]

def textChars (cs : List Char) : List Char := '"' :: (cs.flatMap escapedChar ++ ['"'])

def floatChars : Binary64 → List Char
  | .nan => "NaN".toList
  | .infinity false => "Infinity".toList
  | .infinity true => "-Infinity".toList
  | x => x.general.toList

def keyText : Value → Except WriteError (List Char)
  | .text s => .ok s.toList
  | .none => .ok "null".toList
  | .bool true => .ok "true".toList
  | .bool false => .ok "false".toList
  | .int n => .ok (Decimal.ofInt n)
  | .float x => .ok (floatChars x)
  | v => .error (.badKey v.qualifiedKind)

mutual

/-- JSON text of a value; `shared` writes the containers of the heap. -/
def writeChars (shared : Nat → Except WriteError (List Char)) :
    Value → Except WriteError (List Char)
  | .none => .ok "null".toList
  | .bool true => .ok "true".toList
  | .bool false => .ok "false".toList
  | .int n => .ok (Decimal.ofInt n)
  | .float x => .ok (floatChars x)
  | .text s => .ok (textChars s.toList)
  | .decimal negative size => .ok (textChars (Value.decimalChars negative size))
  | .bytes octets => .ok (textChars (Value.bytes octets).display.toList)
  | .set items => .ok (textChars (Value.set items).display.toList)
  | .object _ shown => .ok (textChars shown.toList)
  | .list items => do
    return '[' :: (Value.commaSeparated (← writeItems shared items) ++ [']'])
  | .tuple items => do
    return '[' :: (Value.commaSeparated (← writeItems shared items) ++ [']'])
  | .dict entries => do
    return '\x7b' :: (Value.commaSeparated (← writeEntries shared entries) ++ ['\x7d'])
  | .shared p => shared p

def writeItems (shared : Nat → Except WriteError (List Char)) :
    List Value → Except WriteError (List (List Char))
  | [] => .ok []
  | v :: rest => do
    let text ← writeChars shared v
    return text :: (← writeItems shared rest)

def writeEntries (shared : Nat → Except WriteError (List Char)) :
    List (Value × Value) → Except WriteError (List (List Char))
  | [] => .ok []
  | (k, v) :: rest => do
    let key ← keyText k
    let text ← writeChars shared v
    return (textChars key ++ ':' :: ' ' :: text) :: (← writeEntries shared rest)

end

/-- JSON text of the container at a place inside those at the places `above`.  No more
containers than there are stand inside each other without one recurring. -/
def writePlace (heap : Heap) : Nat → List Nat → Nat → Except WriteError (List Char)
  | 0, _, _ => .error .circular
  | depth + 1, above, p =>
    if above.contains p then .error .circular
    else
      match heap[p]? with
      | some v => writeChars (writePlace heap depth (p :: above)) v
      | none => .error .circular

def write (heap : Heap) (v : Value) : Except WriteError String :=
  (writeChars (writePlace heap heap.length []) v).map String.ofList

end PromptShelf.JsonText
