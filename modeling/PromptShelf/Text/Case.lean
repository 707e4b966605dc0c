/-
Small and capital letters.

`lower` writes a text in small letters by Unicode's full mapping.  Two characters
are not mapped one by one:

* the capital `I` with a dot becomes two characters, `i` and a combining dot;
* a capital sigma becomes the final form at the end of a word, that is after a
  letter with case and before none, marks in between being looked past.

`asciiUpper` writes in capitals what has an ASCII capital form, ligatures and
long forms included, and leaves every other character alone; names that consist
of ASCII capitals are looked up by it.
-/
import PromptShelf.Text.Casing

namespace PromptShelf.Text

/-- Small letter of one character, sigma in its usual form. -/
def lowerChar (c : Char) : Char :=
  if c.toNat < 128 then c.toLower
  else
    match lowerSpans.find? fun (first, last, gap, _) =>
        first ≤ c.toNat && c.toNat ≤ last && (c.toNat - first) % gap == 0 with
    | some (_, _, _, distance) => Char.ofNat ((c.toNat : Int) + distance).toNat
    | none => c

/-- The first character with or without case that is not looked past has case. -/
def followedByCased (rest : List Char) : Bool :=
  (rest.dropWhile caseIgnorable.has).head?.any cased.has

/-- Whether a letter with case comes before the next character, marks looked past. -/
def caseBefore (before : Bool) (c : Char) : Bool :=
  if caseIgnorable.has c then before else cased.has c

/-- Small letters of a text, of which `before` tells what stands in front. -/
def lowerFrom (before : Bool) : List Char → List Char
  | [] => []
  | c :: rest =>
    let small :=
      if c = 'Σ' then [if before && !followedByCased rest then 'ς' else 'σ']
      else if c = 'İ' then ['i', '\u0307']
      else [lowerChar c]
    small ++ lowerFrom (caseBefore before c) rest

def lower (s : String) : String := String.ofList (lowerFrom false s.toList)

/-- Capitals of one character, as far as they are ASCII. -/
def asciiUpperChar (c : Char) : List Char :=
  if c.toNat < 128 then [c.toUpper]
  else if c = 'ß' then ['S', 'S']
  else if c = 'ı' then ['I']
  else if c = 'ſ' then ['S']
  else if c = 'ﬀ' then ['F', 'F']
  else if c = 'ﬁ' then ['F', 'I']
  else if c = 'ﬂ' then ['F', 'L']
  else if c = 'ﬃ' then ['F', 'F', 'I']
  else if c = 'ﬄ' then ['F', 'F', 'L']
  else if c = 'ﬅ' then ['S', 'T']
  else if c = 'ﬆ' then ['S', 'T']
  else [c]

/-- A text in capitals, as far as they are ASCII. -/
def asciiUpper (s : String) : String := String.ofList (s.toList.flatMap asciiUpperChar)

end PromptShelf.Text
