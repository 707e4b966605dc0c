/-
File trees.

A tree maps locations, lists of names from the root down, to directories, files
and symbolic links (`FileTree.node?`).  The root is always a directory.  Two walks turn a path into
a location:

* `walk` opens a path the way a kernel does: every step needs a directory, links
  are followed where they stand, forty of them at most, and what is asked of the last
  name is a `Lookup`;
* `realize` finds the real location of a path: what is resolved so far is a path
  itself, every name is looked up behind it, links are resolved one inside the
  other as deep as there are links, which only a loop exceeds, and a parent
  segment takes back the last name, whatever it names.

So the two differ where a parent segment stands behind a file, where there are many
links, and where a path is long: a walk is given the whole path at once, and the real
location is found by looking up one path after the other, each of which may be too long
while the first one is not.  Neither looks at the text of a path beyond its names, so
equal names are equal paths.

Nobody is refused anything here: every directory can be searched, every file read, and
`FileFault.forbidden` only comes from readers that are given from outside.  How deep an
interpreter lets links be resolved one inside the other is left out.
-/
import PromptShelf.Path.Basic
import PromptShelf.Text.Utf8

namespace PromptShelf

/-- Names from the root down. -/
abbrev Location := List Segment

/-- What stands at a location. -/
inductive Node
  | directory
  | file (bytes : List UInt8)
  | link (target : List Char)
  deriving DecidableEq

/-- What the file system answers instead of a location. -/
inductive FileFault
  | missing
  | notDirectory
  | isDirectory
  | alreadyThere
  | forbidden
  | linkLoop
  | nameTooLong
  deriving DecidableEq

def FileFault.name : FileFault → String
  | .missing => "FileNotFoundError"
  | .notDirectory => "NotADirectoryError"
  | .isDirectory => "IsADirectoryError"
  | .alreadyThere => "FileExistsError"
  | .forbidden => "PermissionError"
  | .linkLoop => "OSError"
  | .nameTooLong => "OSError"

/-- A location and what stands there.  The number of names is kept with it, so entries at
other depths are told apart without a look at the names. -/
structure FileEntry where
  location : Location
  node : Node
  depth : Nat := location.length
  depth_eq : depth = location.length := by rfl
  deriving DecidableEq

namespace FileEntry

/-- The entry stands at the location of `depth` names. -/
def isAt (depth : Nat) (l : Location) (e : FileEntry) : Bool :=
  e.depth == depth && e.location == l

theorem isAt_iff (l : Location) (e : FileEntry) :
    e.isAt l.length l = true ↔ e.location = l := by
  simp only [isAt, Bool.and_eq_true, beq_iff_eq, e.depth_eq, and_iff_right_iff_imp]
  exact fun h => congrArg List.length h

end FileEntry

/-- Locations and what stands there, in the order they were made. -/
structure FileTree where
  entries : List FileEntry
  deriving DecidableEq

/-- A path as the file system gets it: from the root or from a directory, and its
names, parent segments included. -/
structure FilePath where
  fromRoot : Bool
  names : List Segment
  deriving DecidableEq

namespace FilePath

/-- Names of a text: empty and dot segments are dropped. -/
def ofChars (cs : List Char) : FilePath :=
  ⟨Path.isAbsolute cs, (Path.segments cs).filter fun s => s ≠ [] ∧ s ≠ Path.dot⟩

def ofString (s : String) : FilePath := ofChars s.toList

def start (p : FilePath) (directory : Location) : Location :=
  if p.fromRoot then [] else directory

/-- Bytes that the path takes as a text: every name has a slash before it, but for the
first one of a path that is not from the root.  A second slash in front of all, which a text
may have, is not counted. -/
def size (p : FilePath) : Nat :=
  p.names.foldr (fun s n => (Text.Utf8.encode s).length + 1 + n) 0 - (if p.fromRoot then 0 else 1)

/-- No text of a path may hold a null character. -/
def hasNull (p : FilePath) : Bool := p.names.any (·.contains '\x00')

/-- The path of an entry, by its name. -/
def down (p : FilePath) (s : Segment) : FilePath := { p with names := p.names ++ [s] }

/-- The path of the parent: the last name is taken away, and a relative path without one
gets a parent segment more. -/
def up (p : FilePath) : FilePath :=
  if p.fromRoot = false ∧ (p.names = [] ∨ p.names.getLast? = some Path.dotDot) then
    p.down Path.dotDot
  else { p with names := p.names.dropLast }

end FilePath

/-- What is asked of the last name of a path: that something stands there, a link itself
or where it leads, or that where it leads a file can be made if there is none. -/
inductive Lookup
  | itself
  | followed
  | creatable
  deriving DecidableEq

namespace FileTree

def node? (t : FileTree) (l : Location) : Option Node :=
  if l = [] then some .directory else (t.entries.find? (FileEntry.isAt l.length l)).map (·.node)

def isDirectory (t : FileTree) (l : Location) : Bool := t.node? l == some .directory

/-- Longest name, in bytes. -/
def maxName : Nat := 255

/-- Longest path, in bytes. -/
def maxPath : Nat := 4095

/-- Most links on one walk. -/
def maxLinks : Nat := 40

/-- The name is longer than any can be. -/
def isTooLong (s : Segment) : Bool := maxName < (Text.Utf8.encode s).length

/-- What stands under a name in a directory, links not followed. -/
def child (t : FileTree) (l : Location) (s : Segment) : Except FileFault Node :=
  match t.node? l with
  | none => .error .missing
  | some .directory =>
    if isTooLong s then .error .nameTooLong
    else
      match t.node? (l ++ [s]) with
      | none => .error .missing
      | some n => .ok n
  | some _ => .error .notDirectory

/-- Names of a link's target; a slash at the end is an empty name, which asks for a
directory. -/
def targetNames (target : List Char) : List Segment :=
  (Path.segments target).filter (· ≠ []) ++
    (if target.getLast? = some '/' then [[]] else [])

/-- Where the names of a link's target begin. -/
def targetStart (target : List Char) (l : Location) : Location :=
  if Path.isAbsolute target then [] else l

/-- The location of names seen from a directory, with `links` links to follow at
most. -/
def walk (t : FileTree) (last : Lookup) (links : Nat) (l : Location) :
    List Segment → Except FileFault Location
  | [] => .ok l
  | s :: rest =>
    if s = [] ∨ s = Path.dot then
      if t.isDirectory l then walk t last links l rest else .error .notDirectory
    else if s = Path.dotDot then
      if t.isDirectory l then walk t last links l.dropLast rest else .error .notDirectory
    else if last = .creatable ∧ rest = [[]] ∧ t.isDirectory l then .error .isDirectory
    else
      match t.child l s with
      | .error .missing =>
        if last = .creatable ∧ rest = [] then .ok (l ++ [s]) else .error .missing
      | .error fault => .error fault
      | .ok (.link target) =>
        if last = .itself ∧ rest = [] then .ok (l ++ [s])
        else
          match links with
          | 0 => .error .linkLoop
          | links + 1 =>
            walk t last links (targetStart target l) (targetNames target ++ rest)
      | .ok _ => walk t last links (l ++ [s]) rest
  termination_by names => (links, names.length)

/-- The location of a path for a caller in a directory. -/
def locate (t : FileTree) (last : Lookup) (directory : Location) (p : FilePath) :
    Except FileFault Location :=
  if maxPath < p.size then .error .nameTooLong
  else t.walk last maxLinks (p.start directory) p.names

def linkCount (t : FileTree) : Nat :=
  (t.entries.filter fun e => match e.node with | .link _ => true | _ => false).length

/-- Where the search for a real location has come to, and the path that names the place to
the file system: relative as long as the search is. -/
structure Reached where
  location : Location
  text : FilePath
  deriving DecidableEq

namespace Reached

/-- Where a search begins. -/
def start (p : FilePath) (directory : Location) : Reached := ⟨p.start directory, ⟨p.fromRoot, []⟩⟩

def down (r : Reached) (s : Segment) : Reached := ⟨r.location ++ [s], r.text.down s⟩

def up (r : Reached) : Reached := ⟨r.location.dropLast, r.text.up⟩

/-- Where the names of a link's target begin. -/
def toTarget (r : Reached) (target : List Char) : Reached :=
  ⟨targetStart target r.location, if Path.isAbsolute target then ⟨true, []⟩ else r.text⟩

end Reached

/-- What stands under a name behind what is reached, looked up by its path. -/
def lookUp (t : FileTree) (r : Reached) (s : Segment) : Except FileFault Node :=
  if maxPath < (r.text.down s).size then .error .nameTooLong else t.child r.location s

/-- Where names lead from what is reached, links nested `depth` deep. -/
def realizeFrom (t : FileTree) (depth : Nat) (r : Reached) :
    List Segment → Except FileFault Reached
  | [] => .ok r
  | s :: rest =>
    if s = [] ∨ s = Path.dot then realizeFrom t depth r rest
    else if s = Path.dotDot then realizeFrom t depth r.up rest
    else
      match t.lookUp r s with
      | .error fault => .error fault
      | .ok (.link target) =>
        match depth with
        | 0 => .error .linkLoop
        | depth + 1 =>
          match realizeFrom t depth (r.toTarget target) (Path.segments target) with
          | .error fault => .error fault
          | .ok r => realizeFrom t (depth + 1) r rest
      | .ok _ => realizeFrom t depth (r.down s) rest
  termination_by names => (depth, names.length)

/-- The real location of a path for a caller in a directory.  Unlike `locate` it does not
ask for a directory before a parent segment, has no limit of links, and takes paths of every
length as long as those that are looked up on the way are short enough. -/
def realize (t : FileTree) (directory : Location) (p : FilePath) : Except FileFault Location :=
  (t.realizeFrom t.linkCount (.start p directory) p.names).map (·.location)

/-- The path and the root both have real locations, and the path's is the root's or one
below it. -/
def isUnder (t : FileTree) (directory : Location) (path root : FilePath) : Bool :=
  match t.realize directory root, t.realize directory path with
  | .ok r, .ok l => r.isPrefixOf l
  | _, _ => false

end FileTree

end PromptShelf
