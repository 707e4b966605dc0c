/-
Where log lines go out.

The root lets records through from a severity on and says how much their lines tell
about errors.  Its severity is set by name, in letters of any case; a name that no
severity has means the usual one.  Two names are taken for something else and cannot
be used.
-/
import PromptShelf.Error
import PromptShelf.Log.Line

namespace PromptShelf.Log

/-- What lets records through. -/
structure Root where
  severity : Severity
  detailed : Bool
  deriving DecidableEq

def severities : List (String × Severity) :=
  [("CRITICAL", Severity.critical), ("FATAL", Severity.critical), ("ERROR", Severity.error),
    ("WARN", Severity.warning), ("WARNING", Severity.warning), ("INFO", Severity.info),
    ("DEBUG", Severity.debug), ("NOTSET", 0)]

/-- Names that are taken: the one of a format and the one of the styles of formats. -/
inductive TakenName
  | format
  | styles
  deriving DecidableEq

def TakenName.ofText? : String → Option TakenName
  | "BASIC_FORMAT" => some .format
  | "_STYLES" => some .styles
  | _ => none

def TakenName.name : TakenName → String
  | .format => "ValueError"
  | .styles => "TypeError"

/-- Why the name cannot be used, in words. -/
def TakenName.message : TakenName → String
  | .format => "Unknown level: '%(levelname)s:%(name)s:%(message)s'"
  | .styles =>
    "Level not an integer or a valid string: \x7b'%': (<class 'logging.PercentStyle'>, " ++
      "'%(levelname)s:%(name)s:%(message)s'), '\x7b': (<class 'logging.StrFormatStyle'>, " ++
      "'\x7blevelname\x7d:\x7bname\x7d:\x7bmessage\x7d'), " ++
      "'$': (<class 'logging.StringTemplateStyle'>, " ++
      "'$\x7blevelname\x7d:$\x7bname\x7d:$\x7bmessage\x7d')\x7d"

def severityNamed (name : String) : Except TakenName Severity :=
  let capitals := Text.asciiUpper name
  match TakenName.ofText? capitals with
  | some taken => .error taken
  | none => .ok ((severities.lookup capitals).getD Severity.info)

namespace Root

/-- A root for a severity's name; in production lines tell less. -/
def setUp (severity : String) (production : Bool) : Except TakenName Root := do
  return ⟨← severityNamed severity, !production⟩

/-- The record is let through.  One without any severity never is. -/
def lets (root : Root) (r : Record) : Bool := 0 < r.severity && root.severity ≤ r.severity

/-- The lines of records that are let through at a time; one without a line is left
out. -/
def lines (root : Root) (time : String) (heap : Heap) (rs : List Record) : List String :=
  (rs.filter root.lets).filterMap fun r => (line root.detailed time heap r).toOption

/-- The lines of records, if none that is let through has a field beside it under a name
that is taken. -/
def emit (root : Root) (time : String) (heap : Heap) (rs : List Record) :
    Except Error (List String) :=
  match (rs.filter root.lets).findSome? Record.takenField? with
  | some name => .error (.takenField name)
  | none => .ok (root.lines time heap rs)

end Root

end PromptShelf.Log
