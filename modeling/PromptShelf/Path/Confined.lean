/-
Paths from outside, kept under a root.

A requested path is read with both slashes as separators.  It is accepted if it is
relative, has no drive, no parent segment and no null character; its segments,
without empty and dot ones, are then put behind the root (`sanitize`).  The result
is compared with the root once more before it is given out.

Optionally the requested text must end in one of a list of extensions, compared
without regard to case.  The test comes after the others and looks at the text as
it was requested.
-/
import PromptShelf.Error
import PromptShelf.Path.Basic
import PromptShelf.Text.Case

namespace PromptShelf.Path

/-- Both slashes separate the segments of a requested path. -/
def isSeparator (c : Char) : Bool := c == '/' || c == '\\'

def requestedSegments (cs : List Char) : List Segment := segmentsBy isSeparator cs

/-- A letter and a colon at the front. -/
def hasDrive : List Char → Bool
  | c :: ':' :: _ => c.isAlpha
  | _ => false

def startsAtRoot : List Char → Bool
  | c :: _ => isSeparator c
  | [] => false

/-- The segments of a requested path that name something, or why it is refused. -/
def acceptedSegments (cs : List Char) : Except Denial (List Segment) :=
  -- A path that fails in several ways is given the first of these reasons.
  if cs.contains '\x00' then .error .nullByte
  else if startsAtRoot cs || hasDrive cs then .error .notRelative
  else if (requestedSegments cs).contains dotDot then .error .parentSegment
  else .ok ((requestedSegments cs).filter fun s => s ≠ [] ∧ s ≠ dot)

/-- Segments put behind a path one after the other. -/
def appendAll (base : List Char) (ss : List Segment) : List Char := ss.foldl append base

/-- What every path below a root begins with. -/
def below (root : List Char) : List Char :=
  if root.getLast? = some '/' then root else root ++ ['/']

/-- The root itself or a path below it. -/
def isWithin (root cs : List Char) : Bool := cs == root || (below root).isPrefixOf cs

/-- The path of a request under a root, in normal form. -/
def sanitizeChars (directory root cs : List Char) : Except Denial (List Char) := do
  let root := absolute directory root
  let ss ← acceptedSegments cs
  let resolved := normalize (appendAll root ss)
  -- Nothing that was accepted leads out; it is compared with the root all the same.
  if isWithin root resolved then return resolved else throw .outside

/-- The path of a request under a root that is read from a directory. -/
def sanitize (directory root requested : String) : Except Error String :=
  match sanitizeChars directory.toList root.toList requested.toList with
  | .ok cs => .ok (String.ofList cs)
  | .error denial => .error (.accessDenied requested denial)

/-- The text ends in one of the extensions, in small letters both. -/
def hasExtension (requested : String) (extensions : List String) : Bool :=
  extensions.any fun e => (Text.lower e).toList.isSuffixOf (Text.lower requested).toList

/-- A request without an allowed extension is refused; with no list all are allowed. -/
def checkExtension (requested : String) : Option (List String) → Except Error Unit
  | none => .ok ()
  | some extensions =>
    if hasExtension requested extensions then .ok ()
    else .error (.accessDenied requested .extension)

/-- The path of a request that must have an extension, too. -/
def resolve (directory root requested : String) (extensions : Option (List String)) :
    Except Error String := do
  let resolved ← sanitize directory root requested
  -- The extension is that of the request, which normal form may have lost.
  checkExtension requested extensions
  return resolved

end PromptShelf.Path
