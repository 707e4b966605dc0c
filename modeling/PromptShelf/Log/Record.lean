/-
Log records.

A record has a logger, a severity and a message; the message may have places for
arguments, and a record may carry fields beside it and an error.  Severities are
numbers, and six of them have names.

What a record is made of has names, too.  A logger refuses a record with a field under
one of them (`Record.takenField?`); in a record that is made without a logger the field
stands in for the part (`Record.part?`).
-/
import PromptShelf.Value.Basic

namespace PromptShelf.Log

/-- How severe a record is; the greater, the more. -/
abbrev Severity := Int

namespace Severity

def debug : Severity := 10
def info : Severity := 20
def warning : Severity := 30
def error : Severity := 40
def critical : Severity := 50

def named : List (Severity × String) :=
  [(critical, "CRITICAL"), (error, "ERROR"), (warning, "WARNING"), (info, "INFO"),
    (debug, "DEBUG"), (0, "NOTSET")]

/-- Name of a severity, made of its number if it has none. -/
def name (s : Severity) : String :=
  (named.lookup s).getD ("Level " ++ String.ofList (Decimal.ofInt s))

end Severity

/-- An error that a record carries: its name, with and without the place it is
defined in, and its message.  The calls that it came through are left out, so it is an
error as it is before it is raised. -/
structure Exception where
  name : String
  qualifiedName : String
  message : String
  deriving DecidableEq

/-- A log record. -/
structure Record where
  logger : String
  severity : Severity
  message : String
  arguments : List Value := []
  fields : List (String × Value) := []
  exception : Option Exception := none

/-- Names that a record has for what it is made of. -/
def ownFields : List String :=
  ["args", "asctime", "created", "exc_info", "exc_text", "filename", "funcName", "levelname",
    "levelno", "lineno", "message", "module", "msecs", "msg", "name", "pathname", "process",
    "processName", "relativeCreated", "stack_info", "thread", "threadName"]

/-- The first field beside a record under one of the record's own names. -/
def Record.takenField? (r : Record) : Option String :=
  (r.fields.map (·.1)).find? ownFields.contains

/-- The field that stands in for the part of a name. -/
def Record.part? (r : Record) (name : String) : Option Value := r.fields.lookup name

/-- What the record says for the part of a name, `own` if no field stands in for it. -/
def Record.part (r : Record) (name : String) (own : Value) : Value := (r.part? name).getD own

/-- Name of the logger that all others are below. -/
def rootLogger : String := "root"

/-- Name of the logger that a text asks for. -/
def loggerNamed (name : String) : String := if name = "" then rootLogger else name

def Record.template? (r : Record) : Option Value := r.fields.lookup "template_path"

end PromptShelf.Log
