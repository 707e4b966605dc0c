/-
Settings from their sources.

A setting is given by the caller, by the environment, by a settings file, or not
at all, and the first of these that gives it decides (`Sources.find?`).  The list of
extensions stands in the environment and in files as JSON, and both must be readable
even if the caller gives the list.

`check` holds the rules for values.  Every rule that is broken is a fault, and
settings are made only if there is none.  Names that no setting has are faults when
a caller or a file gives them; the environment may hold what it likes.
-/
import PromptShelf.FileTree.Reading
import PromptShelf.JsonText.Reading
import PromptShelf.Settings.Basic
import PromptShelf.Settings.EnvFile
import PromptShelf.Value.Display

namespace PromptShelf.Settings

/-- A rule for values that is broken. -/
inductive Issue
  | notReadAsBool
  | notBool
  | notText
  | notList
  | unknownName
  deriving DecidableEq

def Issue.word : Issue → String
  | .notReadAsBool => "bool_parsing"
  | .notBool => "bool_type"
  | .notText => "string_type"
  | .notList => "list_type"
  | .unknownName => "extra_forbidden"

/-- An issue and its place: a name, and for an element of a list its number. -/
structure Fault where
  place : List String
  issue : Issue
  deriving DecidableEq

/-- Texts that stand for settings. -/
inductive Source
  | environment
  | file
  deriving DecidableEq

def Source.name : Source → String
  | .environment => "EnvSettingsSource"
  | .file => "DotEnvSettingsSource"

/-- How deep arrays and objects may stand inside each other in a text of a source; the
texts of a file stand one level further down.  The numbers are what an interpreter that lets
a thousand calls stand inside each other has left where a program loads its settings at once;
from deeper inside other calls there is less.  Only here this limit is kept: redaction and the
writing of JSON go as deep as their values. -/
def Source.maxDepth : Source → Nat
  | .environment => 984
  | .file => 983

/-- Why there are no settings: the file's bytes are no text, a text is not the JSON it
should be or too deep, or rules for values are broken. -/
inductive Failure
  | undecodable
  | malformed (source : Source)
  | tooDeep (nesting : JsonText.Nesting)
  | invalid (faults : List Fault)

/-- The failure of a malformed text in words. -/
def malformedMessage (source : Source) : String :=
  "error parsing value for field \"" ++ extensionsName ++ "\" from source \"" ++ source.name ++ "\""

/-- The failure of a text that is too deep in words. -/
def tooDeepMessage (nesting : JsonText.Nesting) : String :=
  "maximum recursion depth exceeded while decoding a JSON " ++ nesting.word ++
    " from a unicode string"

def trueWords : List String := ["1", "on", "t", "true", "y", "yes"]

def falseWords : List String := ["0", "off", "f", "false", "n", "no"]

/-- Text that a value is taken as: texts, and bytes that spell one. -/
def textOf? : Value → Option String
  | .text s => some s
  | .bytes octets => (Text.Utf8.decode octets).map String.ofList
  | _ => none

def readWhole (n : Int) : Except Issue Bool :=
  if n = 0 then .ok false
  else if n = 1 then .ok true
  else .error .notReadAsBool

/-- The truth value that a value is taken as; a number that does not fit in 64 bits is
not even looked at, nor is the least double that does. -/
def readBool (v : Value) : Except Issue Bool :=
  match v with
  | .bool b => .ok b
  | .int n =>
    let bound := Int.ofNat (Nat.pow 2 63)
    if -bound ≤ n ∧ n < bound then readWhole n else .error .notBool
  | .float x =>
    match x.truncate? with
    | some n => if x.isInteger ∧ n.natAbs < Nat.pow 2 63 then readWhole n else .error .notBool
    | none => .error .notBool
  | v =>
    match textOf? v with
    | none => .error .notBool
    | some s =>
      if trueWords.contains (Text.lower s) then .ok true
      else if falseWords.contains (Text.lower s) then .ok false
      else .error .notReadAsBool

/-- The text that a value is taken as. -/
def readText (v : Value) : Except Issue String :=
  match textOf? v with
  | some s => .ok s
  | none => .error .notText

/-- Items of a value that is taken as a list. -/
def itemsOf? : Value → Option (List Value)
  | .list items => some items
  | .tuple items => some items
  | .set items => some items
  | _ => none

/-- Texts of a list, and the faults of the items that are none. -/
def readTexts (name : String) : Nat → List Value → List String × List Fault
  | _, [] => ([], [])
  | i, v :: rest =>
    let (texts, faults) := readTexts name (i + 1) rest
    match readText v with
    | .ok s => (s :: texts, faults)
    | .error issue => (texts, ⟨[name, String.ofList (Decimal.digits i)], issue⟩ :: faults)

/-- The value of a setting, or its default and a fault. -/
def checked {α : Type} (values : List (String × Value)) (name : String) (default : α)
    (read : Value → Except Issue α) : α × List Fault :=
  match (values.lookup name).map read with
  | none => (default, [])
  | some (.ok a) => (a, [])
  | some (.error issue) => (default, [⟨[name], issue⟩])

/-- The list of extensions, or its default, and the faults in it. -/
def checkedExtensions (values : List (String × Value)) (default : List String) :
    List String × List Fault :=
  match values.lookup extensionsName with
  | none => (default, [])
  | some v =>
    match itemsOf? v with
    | none => (default, [⟨[extensionsName], .notList⟩])
    | some items => readTexts extensionsName 0 items

/-- Faults of the names that no setting has. -/
def unknownNames (values : List (String × Value)) : List Fault :=
  (values.filter fun v => !names.contains v.1).map fun v => ⟨[v.1], .unknownName⟩

/-- Settings of the values under their names, or every fault. -/
def check (values : List (String × Value)) : Except (List Fault) Settings :=
  let standard : Settings := {}
  let root := checked values "MCP_WORKSPACE_ROOT" standard.workspaceRoot readText
  let data := checked values "DATA_DIR" standard.dataDirectory readText
  let templates := checked values "TEMPLATES_DIR" standard.templatesDirectory readText
  let extensions := checkedExtensions values standard.extensions
  let preload := checked values "PRELOAD_ON_STARTUP" standard.preload readBool
  let level := checked values "LOG_LEVEL" standard.logLevel readText
  let environment := checked values "TASKPROMPT_ENV" standard.environment readText
  let faults := root.2 ++ data.2 ++ templates.2 ++ extensions.2 ++ preload.2 ++ level.2 ++
    environment.2 ++ unknownNames values
  if faults.isEmpty then
    .ok ⟨root.1, data.1, templates.1, extensions.1, preload.1, level.1, environment.1⟩
  else .error faults

/-- The value of a setting in a text; only the list of extensions is JSON, where
nothing is not given. -/
def valueIn (source : Source) (name text : String) : Except Failure (Option Value) :=
  if name ≠ extensionsName then .ok (some (.text text))
  else
    match JsonText.read source.maxDepth text.toList with
    | .error .malformed => .error (.malformed source)
    | .error (.tooDeep nesting) => .error (.tooDeep nesting)
    | .ok .none => .ok none
    | .ok v => .ok (some v)

/-- The values that texts under names give to settings. -/
def valuesIn (source : Source) (texts : List (String × String)) :
    Except Failure (List (String × Value)) := do
  let found ← (texts.filter fun t => names.contains t.1).mapM fun t => do
    return (t.1, ← valueIn source t.1 t.2)
  return found.filterMap fun (name, v) => v.map fun v => (name, v)

/-- Texts of a file under names that no setting has, the empty ones left out. -/
def strangers (texts : List (String × String)) : List (String × Value) :=
  (texts.filter fun t => !names.contains t.1 && t.2 != "").map fun t => (t.1, .text t.2)

/-- Where settings come from. -/
structure Sources where
  given : List (String × Value) := []
  environment : List (String × String) := []
  file : Option String := none

def Sources.fileTexts (s : Sources) : List (String × String) :=
  match s.file with
  | none => []
  | some text =>
    (EnvFile.read s.environment (Text.unifyLineEnds text.toList)).filterMap fun (n, v) =>
      v.map fun v => (n, v)

/-- Values of several sources, the first one that gives a name deciding. -/
def merge (sources : List (List (String × Value))) : List (String × Value) :=
  sources.flatten.foldl (fun kept v => if (kept.lookup v.1).isSome then kept else kept ++ [v]) []

def load (s : Sources) : Except Failure Settings := do
  let environment ← valuesIn .environment s.environment
  let file ← valuesIn .file s.fileTexts
  match check (merge [s.given, environment, file, strangers s.fileTexts]) with
  | .ok settings => return settings
  | .error faults => throw (.invalid faults)

/-- Settings of their sources after the settings file was read.  A file that cannot be
opened gives nothing. -/
def loadAfter (r : ReadResult) (s : Sources) : Except Failure Settings :=
  if r.fault = some .undecodable then .error .undecodable
  else load { s with file := r.content }

end PromptShelf.Settings
