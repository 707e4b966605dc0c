/-
Log lines.

A record becomes one line, a JSON object with the time, the severity, the logger and
the message.  Four fields are taken over from the record if they say anything, without
secrets; other fields are dropped.  The error a record carries comes last.

Fields can stand in for what a record is made of, with values of any type; the time is
asked for first, then the message, the error, and in the end all is written.
-/
import PromptShelf.JsonText.Writing
import PromptShelf.Log.Arguments
import PromptShelf.Log.ErrorInfo
import PromptShelf.Log.Record
import PromptShelf.Log.Redaction
import PromptShelf.Log.Timestamp

namespace PromptShelf.Log

/-- Why a record has no line. -/
inductive LineError
  | time (cause : TimeError)
  | noMessage (kind : String)
  | arguments (cause : ArgumentError)
  | errorInfo (cause : InfoError)
  | writing (cause : JsonText.WriteError)
  deriving DecidableEq

namespace LineError

def name : LineError → String
  | .time cause => cause.name
  | .noMessage _ => "TypeError"
  | .arguments cause => cause.name
  | .errorInfo cause => cause.name
  | .writing .circular => "ValueError"
  | .writing (.badKey _) => "TypeError"

def message : LineError → String
  | .time cause => cause.message
  | .noMessage kind => "'" ++ kind ++ "' object is not callable"
  | .arguments cause => cause.message
  | .errorInfo cause => cause.message
  | .writing cause => cause.message

end LineError

def contextFields : List String := ["correlation_id", "component", "template_path", "details"]

/-- The text of an error; with `detailed` it names the place the error is defined in,
and nothing after that if there is no message. -/
def Exception.text (detailed : Bool) (e : Exception) : String :=
  if detailed then
    if e.message = "" then e.qualifiedName else e.qualifiedName ++ ": " ++ e.message
  else e.name ++ ": " ++ e.message

/-- The fields of a record that are taken over, without secrets. -/
def contextOf (heap : Heap) (r : Record) : List (Value × Value) :=
  contextFields.filterMap fun key =>
    match r.fields.lookup key with
    | some v => if (heap.resolve v).isTrue then some (.text key, redact heap v) else none
    | none => none

def entry (time : String) (heap : Heap) (r : Record) (message : String)
    (error : Option String) : Value :=
  .dict ([(.text "timestamp", .text time),
      (.text "level", r.part "levelname" (.text r.severity.name)),
      (.text "module", r.part "name" (.text r.logger)), (.text "message", .text message)] ++
    contextOf heap r ++
    match error with
    | some text => [(.text "exception", .text text)]
    | none => [])

/-- The name under which a record is asked for its message. -/
def messageRequest : String := "getMessage"

/-- The message of a record with its arguments filled in.  A field under the name that
the message is asked for stands in the way. -/
def Record.fullMessage (heap : Heap) (r : Record) : Except LineError String :=
  match r.part? messageRequest with
  | some v => .error (.noMessage (heap.resolve v).qualifiedKind)
  | none =>
    let args := match r.part? "args" with
      | some v => Arguments.ofValue heap v
      | none => .ofList heap r.arguments
    (fillMessage heap (heap.display (r.part "msg" (.text r.message))) args).mapError .arguments

def Record.errorText (detailed : Bool) (heap : Heap) (r : Record) :
    Except LineError (Option String) :=
  match r.part? "exc_info" with
  | some v => (infoText detailed heap v).mapError .errorInfo
  | none => .ok (r.exception.map (Exception.text detailed))

/-- The line of a record at a time. -/
def line (detailed : Bool) (time : String) (heap : Heap) (r : Record) :
    Except LineError String := do
  let message ← r.fullMessage heap
  let error ← r.errorText detailed heap
  (JsonText.write heap (entry time heap r message error)).mapError .writing

/-- The line of a record made at a time, of which `seconds` and `milliseconds` are what
the record itself says. -/
def lineAt (detailed : Bool) (seconds milliseconds : Value) (heap : Heap) (r : Record) :
    Except LineError String := do
  let part (name : String) (own : Value) := heap.resolve (r.part name own)
  let time ← (timestamp (part "created" seconds) (part "msecs" milliseconds)).mapError .time
  line detailed time heap r

end PromptShelf.Log
