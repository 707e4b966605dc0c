/-
The text of a value.

`Value.display` is the text shown to a reader: a text as it is, a decimal by its
digits, anything else in the notation of `Value.quoted`.  There texts stand between
quotes, a decimal has its type's name around it, a tuple of one has a comma, a set is told
from a dictionary even if it is empty, and a container that is still shared, because it
holds itself, shows dots.
-/
import PromptShelf.Value.Basic
import PromptShelf.Text.Quoted

namespace PromptShelf.Value

/-- The texts with a comma and a space between neighbours. -/
def commaSeparated : List (List Char) → List Char
  | [] => []
  | [t] => t
  | t :: rest => t ++ ',' :: ' ' :: commaSeparated rest

/-- Digits of a decimal, with a point if it has places. -/
def decimalChars (negative : Bool) (size : Decimal) : List Char :=
  if negative then '-' :: size.positional else size.positional

mutual

def quotedChars : Value → List Char
  | .none => "None".toList
  | .bool true => "True".toList
  | .bool false => "False".toList
  | .int n => Decimal.ofInt n
  | .float x => x.general.toList
  | .decimal negative size => "Decimal('".toList ++ decimalChars negative size ++ "')".toList
  | .text s => (Text.quoted s).toList
  | .bytes octets => Text.quotedBytes octets
  | .list items => '[' :: (commaSeparated (quotedItems items) ++ [']'])
  | .tuple [item] => '(' :: (quotedChars item ++ [',', ')'])
  | .tuple items => '(' :: (commaSeparated (quotedItems items) ++ [')'])
  | .set [] => "set()".toList
  | .set items => '\x7b' :: (commaSeparated (quotedItems items) ++ ['\x7d'])
  | .dict entries => '\x7b' :: (commaSeparated (quotedEntries entries) ++ ['\x7d'])
  | .object _ shown => shown.toList
  | .shared _ => "[...]".toList

def quotedItems : List Value → List (List Char)
  | [] => []
  | v :: rest => quotedChars v :: quotedItems rest

def quotedEntries : List (Value × Value) → List (List Char)
  | [] => []
  | (k, v) :: rest => (quotedChars k ++ ':' :: ' ' :: quotedChars v) :: quotedEntries rest

end

def quoted (v : Value) : String := String.ofList (quotedChars v)

/-- The text of a value: a text is its own, and a decimal shows its digits alone. -/
def display : Value → String
  | .text s => s
  | .decimal negative size => String.ofList (decimalChars negative size)
  | v => v.quoted

@[simp] theorem display_text (s : String) : display (.text s) = s := rfl

end PromptShelf.Value
