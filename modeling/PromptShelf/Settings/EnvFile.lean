/-
Settings files: lines of a name, an equals sign and a value.

Blank lines and lines after a hash sign are skipped, and so is a line that is not
well formed.  A name may follow the word `export` or stand between single quotes.
A value is

* the text between single quotes, where a backslash keeps a quote or a backslash;
* the text between double quotes, where a backslash and a letter stand for a
  control character as well;
* or the rest of the line without the blanks around it; a hash sign after a blank
  starts a comment, also where no value stands before it.

Text between quotes may run over several lines.  In the value of a name,
`$` and a braced name stand for an earlier value or a variable of the environment.
-/
import PromptShelf.Text.Blank

namespace PromptShelf.EnvFile

def isLineEnd (c : Char) : Bool := c == '\n' || c == '\r'

/-- A blank inside a line. -/
def isGap (c : Char) : Bool := Text.isBlank c && !isLineEnd c

/-- The text without the blanks at its front that lie in one line. -/
def skipGap (cs : List Char) : List Char := cs.dropWhile isGap

/-- The word `export` and a blank, taken from the front. -/
def skipExport (cs : List Char) : List Char :=
  let rest := cs.drop 6
  if "export".toList.isPrefixOf cs ∧ (rest.head?.any isGap) then skipGap rest else cs

def isNameChar (c : Char) : Bool := c != '=' && c != '#' && !Text.isBlank c

/-- The name at the front, and what follows it. -/
def name (cs : List Char) : Option (List Char × List Char) :=
  match cs with
  | '\'' :: rest =>
    match rest.dropWhile (· ≠ '\'') with
    | '\'' :: after =>
      let inside := rest.takeWhile (· ≠ '\'')
      if inside.isEmpty then none else some (inside, after)
    | _ => none
  | cs =>
    let front := cs.takeWhile isNameChar
    if front.isEmpty then none else some (front, cs.dropWhile isNameChar)

/-- The text up to a closing quote, and what follows it.  A backslash and the character
after it belong together, so a quote there does not close. -/
def upToQuote (quote : Char) : List Char → Option (List Char × List Char)
  | [] => none
  | ['\\'] => none
  | '\\' :: c :: rest =>
    (upToQuote quote rest).map fun (inside, after) => ('\\' :: c :: inside, after)
  | c :: rest =>
    if c = quote then some ([], rest)
    else (upToQuote quote rest).map fun (inside, after) => (c :: inside, after)

/-- What a character after a backslash stands for between single quotes. -/
def literalEscape? : Char → Option Char
  | '\\' => some '\\'
  | '\'' => some '\''
  | _ => none

/-- What a character after a backslash stands for between double quotes. -/
def fullEscape? : Char → Option Char
  | '\\' => some '\\'
  | '\'' => some '\''
  | '"' => some '"'
  | 'a' => some '\x07'
  | 'b' => some '\x08'
  | 'f' => some '\x0c'
  | 'n' => some '\n'
  | 'r' => some '\r'
  | 't' => some '\t'
  | 'v' => some '\x0b'
  | _ => none

/-- The text with its escapes replaced; a backslash before anything else stays. -/
def unescape (escape? : Char → Option Char) : List Char → List Char
  | '\\' :: c :: rest =>
    match escape? c with
    | some e => e :: unescape escape? rest
    | none => '\\' :: unescape escape? (c :: rest)
  | c :: rest => c :: unescape escape? rest
  | [] => []

/-- The text before the first blanks with a hash sign after them. -/
def beforeComment : List Char → List Char
  | [] => []
  | c :: rest =>
    if Text.isBlank c ∧ (rest.dropWhile Text.isBlank).head? = some '#' then []
    else c :: beforeComment rest

/-- The text without the blanks at its end. -/
def trimEnd (cs : List Char) : List Char := (cs.reverse.dropWhile Text.isBlank).reverse

/-- The value at the front, and what follows it.  After blanks a hash sign starts a
comment, so there the value is empty. -/
def value (cs : List Char) : Option (List Char × List Char) :=
  match skipGap cs with
  | '\'' :: rest =>
    (upToQuote '\'' rest).map fun (inside, after) => (unescape literalEscape? inside, after)
  | '"' :: rest =>
    (upToQuote '"' rest).map fun (inside, after) => (unescape fullEscape? inside, after)
  | _ =>
    let front := trimEnd (beforeComment (cs.takeWhile (!isLineEnd ·)))
    some (skipGap front, cs.dropWhile (!isLineEnd ·))

/-- What is left after the comment and the end of a line, if nothing else stands
before the end. -/
def lineRest (cs : List Char) : Option (List Char) :=
  let cs := match skipGap cs with
    | '#' :: rest => rest.dropWhile (!isLineEnd ·)
    | rest => rest
  match cs with
  | '\r' :: '\n' :: rest => some rest
  | c :: rest => if isLineEnd c then some rest else none
  | [] => some []

/-- What a line says: a name and perhaps a value, nothing, or no sense. -/
inductive Line
  | binding (name : List Char) (value : Option (List Char))
  | blank
  | malformed

/-- What is left after the end of the line. -/
def skipLine (cs : List Char) : List Char := (cs.dropWhile (!isLineEnd ·)).drop 1

/-- The end of a line that says `line`, or the rest of a malformed one. -/
def finish (line : Line) (cs : List Char) : Line × List Char :=
  match lineRest cs with
  | some rest => (line, rest)
  | none => (.malformed, skipLine cs)

/-- The line at the front, blank lines before it taken off, and what follows it. -/
def line (cs : List Char) : Line × List Char :=
  match skipExport (cs.dropWhile Text.isBlank) with
  | [] => (.blank, [])
  | '#' :: rest => finish .blank ('#' :: rest)
  | cs =>
    match name cs with
    | none => (.malformed, skipLine cs)
    | some (n, rest) =>
      match skipGap rest with
      | '=' :: rest =>
        match value rest with
        | some (v, rest) => finish (.binding n (some v)) rest
        | none => (.malformed, skipLine (skipGap rest))
      | rest => finish (.binding n none) rest

/-- The text without a byte order mark at its front. -/
def skipMark : List Char → List Char
  | '\ufeff' :: rest => rest
  | cs => cs

/-- The bindings of a text, in order.  Every line takes something off. -/
def bindings (cs : List Char) : List (List Char × Option (List Char)) :=
  match line cs with
  | (l, rest) =>
    let more := if rest.length < cs.length then bindings rest else []
    match l with
    | .binding n v => (n, v) :: more
    | _ => more
  termination_by cs.length

/-- A part of a value: a text, or a name with a text to stand in for it. -/
inductive Part
  | text (c : Char)
  | name (name default : List Char)

/-- The braced name at the front, its opening taken off, and what follows it. -/
def braced (cs : List Char) : Option (Part × List Char) :=
  let isEnd := fun (c : Char) => c == ':' || c == '\x7d'
  match cs.takeWhile (!isEnd ·), cs.dropWhile (!isEnd ·) with
  | n, '\x7d' :: rest => some (.name n [], rest)
  | n, ':' :: '-' :: rest =>
    match rest.dropWhile (· ≠ '\x7d') with
    | '\x7d' :: after => some (.name n (rest.takeWhile (· ≠ '\x7d')), after)
    | _ => none
  | _, _ => none

/-- Parts of a value, at most as many as `fuel`. -/
def partsFrom : Nat → List Char → List Part
  | fuel + 1, '$' :: '\x7b' :: rest =>
    match braced rest with
    | some (p, rest) => p :: partsFrom fuel rest
    | none => .text '$' :: partsFrom fuel ('\x7b' :: rest)
  | fuel + 1, c :: rest => .text c :: partsFrom fuel rest
  | _, _ => []

/-- A value with the names in it replaced by what they stand for. -/
def expand (lookup : String → Option String) (cs : List Char) : List Char :=
  (partsFrom cs.length cs).flatMap fun
    | .text c => [c]
    | .name n default => ((lookup (String.ofList n)).map String.toList).getD default

/-- Value of a name in a list of bindings, the last one given. -/
def lookup (bound : List (String × Option String)) (n : String) : Option (Option String) :=
  (bound.findRev? fun b => b.1 = n).map (·.2)

/-- The names of a settings file and their values, later lines winning.  A byte order
mark at the front is no part of the first name. -/
def read (environment : List (String × String)) (cs : List Char) :
    List (String × Option String) :=
  (bindings (skipMark cs)).foldl (fun bound (n, v) =>
    let find := fun (key : String) =>
      match lookup bound key with
      | some v => some (v.getD "")
      | none => environment.lookup key
    let v := v.map fun v => String.ofList (expand find v)
    (bound.filter fun b => b.1 ≠ String.ofList n) ++ [(String.ofList n, v)]) []

end PromptShelf.EnvFile
