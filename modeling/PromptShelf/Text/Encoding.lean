/-
Encodings of text files, and line ends.

A file is read in one of three encodings, each with a name of its own and several
others.  A name is compared without regard to case, and runs of other characters than
letters, digits and points count as one underscore; in the other names a point may stand
for an underscore, too.

Reading as text also makes every line end a line feed (`unifyLineEnds`): a
carriage return with a line feed after it, and one that stands alone.
-/
import PromptShelf.Text.Utf8

namespace PromptShelf.Text

/-- Carriage returns become line feeds, those before a line feed vanish. -/
def unifyLineEnds : List Char → List Char
  | [] => []
  | '\r' :: '\n' :: rest => '\n' :: unifyLineEnds rest
  | '\r' :: rest => '\n' :: unifyLineEnds rest
  | c :: rest => c :: unifyLineEnds rest

/-- The encodings a file can be read in. -/
inductive Encoding
  | utf8
  | ascii
  | latin1
  deriving DecidableEq

namespace Encoding

/-- Text of bytes; `none` if they are ill formed. -/
def decode : Encoding → List UInt8 → Option (List Char)
  | .utf8, bs => Utf8.decode bs
  | .ascii, bs => if bs.all (Utf8.within 0x00 0x7F) then some (bs.map fun b => Char.ofNat b.toNat) else none
  | .latin1, bs => some (bs.map fun b => Char.ofNat b.toNat)

/-- The form in which names are compared; `gap` tells that an underscore is due
before the next character. -/
def nameKeyFrom (started gap : Bool) : List Char → List Char
  | [] => []
  | c :: rest =>
    if c.isAlphanum || c = '.' then
      (if gap && started then ['_'] else []) ++ c.toLower :: nameKeyFrom true false rest
    else nameKeyFrom started true rest

def nameKey (name : String) : String := String.ofList (nameKeyFrom false false name.toList)

def ownName : Encoding → String
  | .utf8 => "utf_8"
  | .ascii => "ascii"
  | .latin1 => "latin_1"

def aliases : Encoding → List String
  | .utf8 => ["u8", "utf", "utf8", "utf8_ucs2", "utf8_ucs4", "cp65001"]
  | .ascii =>
    ["646", "ansi_x3.4_1968", "ansi_x3_4_1968", "ansi_x3.4_1986", "cp367", "csascii", "ibm367",
      "iso646_us", "iso_646.irv_1991", "iso_ir_6", "us", "us_ascii"]
  | .latin1 =>
    ["8859", "cp819", "csisolatin1", "ibm819", "iso8859", "iso8859_1", "iso_8859_1",
      "iso_8859_1_1987", "iso_ir_100", "l1", "latin", "latin1"]

def withoutPoints (key : String) : String :=
  String.ofList (key.toList.map fun c => if c = '.' then '_' else c)

/-- The key names the encoding: it is the encoding's own name or one of the others, and
in those points may stand for underscores. -/
def isNamed (e : Encoding) (key : String) : Bool :=
  e.ownName == key || e.aliases.contains key || e.aliases.contains (withoutPoints key)

/-- The name that asks for the encoding of the surroundings, which is UTF-8. -/
def surroundingsName : String := "locale"

def named? (name : String) : Option Encoding :=
  if name = surroundingsName then some .utf8
  else [utf8, ascii, latin1].find? fun e => e.isNamed (nameKey name)

end Encoding

end PromptShelf.Text
