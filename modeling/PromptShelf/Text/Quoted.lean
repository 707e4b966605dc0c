/-
Quoted texts, as they appear in messages.

A text is put between single quotes, or between double quotes if it holds a
single one and no double one.  The quote in use and the backslash are escaped by
a backslash; tab, line feed and carriage return have letters; any other character
that is not printable is shown by its code point in two, four or eight digits.

Bytes are put between quotes in the same way, with a letter before them, and only
ASCII counts as printable there.
-/
import PromptShelf.Text.Printable

namespace PromptShelf.Text

/-- Hexadecimal digits of a number, filled up with zeros to a width. -/
def hexDigits (width n : Nat) : List Char :=
  let ds := Nat.toDigits 16 n
  List.replicate (width - ds.length) '0' ++ ds

/-- The quote that a text is put between. -/
def quoteFor (cs : List Char) : Char :=
  if cs.contains '\'' && !cs.contains '"' then '"' else '\''

def quotedChar (quote c : Char) : List Char :=
  if c = quote ∨ c = '\\' then ['\\', c]
  else if c = '\t' then ['\\', 't']
  else if c = '\n' then ['\\', 'n']
  else if c = '\r' then ['\\', 'r']
  else if isPrintable c then [c]
  else if c.toNat < 0x100 then '\\' :: 'x' :: hexDigits 2 c.toNat
  else if c.toNat < 0x10000 then '\\' :: 'u' :: hexDigits 4 c.toNat
  else '\\' :: 'U' :: hexDigits 8 c.toNat

def quoted (s : String) : String :=
  let q := quoteFor s.toList
  String.ofList (q :: (s.toList.flatMap (quotedChar q) ++ [q]))

def quotedByte (quote : Char) (b : UInt8) : List Char :=
  let c := Char.ofNat b.toNat
  if c.toNat < 0x7f then quotedChar quote c else '\\' :: 'x' :: hexDigits 2 c.toNat

def quotedBytes (octets : List UInt8) : List Char :=
  let q := quoteFor (octets.map fun b => Char.ofNat b.toNat)
  'b' :: q :: (octets.flatMap (quotedByte q) ++ [q])

end PromptShelf.Text
