/-
Where the workspace, the data and the templates are.

The workspace is the directory the settings name, else the current directory, else,
if that one is protected, the user's home directory.  The data directory is seen
from the workspace unless it is absolute, and templates come with the library
unless the settings name a directory of their own.

A directory counts as protected by the beginning of its text, whatever the case of
its letters.
-/
import PromptShelf.Log.Record
import PromptShelf.Path.Resolver
import PromptShelf.Settings.Basic

namespace PromptShelf

/-- Where the program runs, and the home directory that the environment gives. -/
structure Surroundings where
  directory : String
  home : String
  deriving DecidableEq

/-- The home directory without slashes at its end, if it is known: a lone tilde
names it but does not tell it. -/
def Surroundings.home? (p : Surroundings) : Option String :=
  let trimmed := String.ofList (p.home.toList.reverse.dropWhile (· = '/')).reverse
  if trimmed = "" then some "/" else if trimmed = "~" then none else some trimmed

namespace Workspace

/-- Directories of the system, where no one works. -/
def protectedDirectories : List String :=
  ["/etc", "/usr", "/bin", "/sbin", "/sys", "/proc", "C:\\Windows", "C:\\Program Files"]

/-- The text begins like one of a protected directory, in small letters both. -/
def isProtected (directory : String) : Bool :=
  protectedDirectories.any fun p =>
    (Text.lower p).toList.isPrefixOf (Text.lower directory).toList

/-- The home directory stands in for a protected one. -/
def substitute? (s : Settings) (p : Surroundings) : Option String :=
  if s.workspaceRoot = "" ∧ isProtected p.directory then p.home? else none

def root (s : Settings) (p : Surroundings) : String :=
  if s.workspaceRoot ≠ "" then
    String.ofList (Path.absolute p.directory.toList s.workspaceRoot.toList)
  else (substitute? s p).getD p.directory

/-- What is logged when the root is looked for. -/
def rootRecords (s : Settings) (p : Surroundings) : List Log.Record :=
  if (substitute? s p).isSome then
    [{ logger := "taskprompt.path_resolver", severity := Log.Severity.info,
       message := "cwd is a protected directory, using home as workspace root" }]
  else []

/-- The name of the data directory, which is never empty. -/
def dataName (s : Settings) : String :=
  if s.dataDirectory = "" then ({} : Settings).dataDirectory else s.dataDirectory

/-- The data directory, its text as it is given. -/
def dataDirectory (s : Settings) (p : Surroundings) : String :=
  String.ofList (Path.append (root s p).toList (dataName s).toList)

/-- What is logged when the data directory is looked for. -/
def dataRecords (s : Settings) (p : Surroundings) : List Log.Record :=
  if Path.isAbsolute (dataName s).toList then [] else rootRecords s p

def templatesRoot (s : Settings) (p : Surroundings) : String :=
  if s.templatesDirectory = "" then bundledRoot
  else String.ofList (Path.absolute p.directory.toList s.templatesDirectory.toList)

/-- The path of a file in the data directory, which default settings name if no
other one is given. -/
def dataPath (p : Surroundings) (directory : Option String) (name : String) :
    Except Error String :=
  Path.sanitize p.directory (directory.getD (dataDirectory {} p)) name

end Workspace

end PromptShelf
