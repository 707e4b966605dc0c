/-
Making and changing entries of a tree.

`makeDirectory` makes one directory where its parent exists and nothing stands.
`ensureDirectory` makes the parents, too, and is content with a directory that is
there already.  It can fail with some parents made, so it gives back the tree in
every case.

Files and links are put where a path leads and taken away again; `changeAt` makes the
parents first.
-/
import PromptShelf.FileTree.Basic

namespace PromptShelf.FileTree

/-- The tree with a directory at a location. -/
def addDirectory (t : FileTree) (l : Location) : FileTree :=
  ⟨t.entries ++ [{ location := l, node := .directory }]⟩

/-- The location of a path where nothing stands yet, in a directory that is there. -/
def freeLocation (t : FileTree) (directory : Location) (p : FilePath) :
    Except FileFault Location :=
  if maxPath < p.size then .error .nameTooLong
  else
    match p.names.getLast? with
    | none => .error .alreadyThere
    | some name =>
      match t.walk .followed maxLinks (p.start directory) p.names.dropLast with
      | .error fault => .error fault
      | .ok l =>
        if !t.isDirectory l then .error .notDirectory
        else if name = Path.dotDot then .error .alreadyThere
        else
          match t.child l name with
          | .ok _ => .error .alreadyThere
          | .error .missing => .ok (l ++ [name])
          | .error fault => .error fault

def makeDirectory (t : FileTree) (directory : Location) (p : FilePath) :
    Except FileFault FileTree :=
  match t.freeLocation directory p with
  | .ok l => .ok (t.addDirectory l)
  | .error fault => .error fault

/-- A fault is none if the path names a directory all the same; to look, the path must
not lead to a name that is too long. -/
def unlessDirectory (t : FileTree) (directory : Location) (p : FilePath) (fault : FileFault) :
    Option FileFault :=
  match t.locate .followed directory p with
  | .ok l => if t.isDirectory l then none else some fault
  | .error .nameTooLong => some .nameTooLong
  | .error _ => some fault

/-- Makes a directory and its parents; the names are given from the last one up. -/
def ensureFrom (t : FileTree) (fromRoot : Bool) (directory : Location) :
    List Segment → FileTree × Option FileFault
  | [] => (t, t.unlessDirectory directory ⟨fromRoot, []⟩ .alreadyThere)
  | name :: up =>
    let p : FilePath := ⟨fromRoot, (name :: up).reverse⟩
    match t.makeDirectory directory p with
    | .ok made => (made, none)
    | .error .missing =>
      match ensureFrom t fromRoot directory up with
      | (t, some fault) => (t, some fault)
      | (t, none) =>
        match t.makeDirectory directory p with
        | .ok made => (made, none)
        | .error .missing => (t, some .missing)
        | .error fault => (t, t.unlessDirectory directory p fault)
    | .error fault => (t, t.unlessDirectory directory p fault)

/-- Makes a directory and its parents, if they are not there. -/
def ensureDirectory (t : FileTree) (directory : Location) (p : FilePath) :
    FileTree × Option FileFault :=
  t.ensureFrom p.fromRoot directory p.names.reverse

/-- The tree with something new at a location. -/
def setNode (t : FileTree) (l : Location) (n : Node) : FileTree :=
  if (t.node? l).isSome then
    ⟨t.entries.map fun e => if e.location = l then { e with node := n } else e⟩
  else ⟨t.entries ++ [{ location := l, node := n }]⟩

/-- Puts bytes into the file that a path leads to, a new one if there is none. -/
def putFile (t : FileTree) (directory : Location) (p : FilePath) (bytes : List UInt8) :
    Except FileFault FileTree :=
  match t.locate .creatable directory p with
  | .ok l => if t.isDirectory l then .error .isDirectory else .ok (t.setNode l (.file bytes))
  | .error fault => .error fault

def putLink (t : FileTree) (directory : Location) (p : FilePath) (target : List Char) :
    Except FileFault FileTree :=
  if target = [] then .error .missing
  else if maxPath < (Text.Utf8.encode target).length then .error .nameTooLong
  else
    match t.freeLocation directory p with
    | .ok l => .ok (t.setNode l (.link target))
    | .error fault => .error fault

/-- Takes away the file or link that a path names. -/
def remove (t : FileTree) (directory : Location) (p : FilePath) : Except FileFault FileTree :=
  match t.locate .itself directory p with
  | .ok l =>
    if t.isDirectory l then .error .isDirectory
    else .ok ⟨t.entries.filter fun e => e.location ≠ l⟩
  | .error fault => .error fault

/-- Changes what stands under a path's last name, after the directories above it are
made. -/
def changeAt (t : FileTree) (directory : Location) (p : FilePath)
    (change : FileTree → Except FileFault FileTree) : FileTree × Option FileFault :=
  match t.ensureDirectory directory ⟨p.fromRoot, p.names.dropLast⟩ with
  | (made, some fault) => (made, some fault)
  | (made, none) =>
    match change made with
    | .ok changed => (changed, none)
    | .error fault => (made, some fault)

/-- Writes a file, its parents made before. -/
def writeFile (t : FileTree) (directory : Location) (p : FilePath) (bytes : List UInt8) :
    FileTree × Option FileFault :=
  t.changeAt directory p (·.putFile directory p bytes)

/-- Everything below a location, with the names from there. -/
def listing (t : FileTree) (l : Location) : List (Location × Node) :=
  (t.entries.filter fun e => l.isPrefixOf e.location ∧ e.location ≠ l).map fun e =>
    (e.location.drop l.length, e.node)

end PromptShelf.FileTree
