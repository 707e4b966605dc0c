/-
What can go wrong.

`Error` names the causes; `Error.message` words them.  The messages of the
library's own errors are safe to show to a caller: they hold the path that was
asked for or the name of a template, never where the templates are kept.

`Ending` is how a call ends: with a value, with an error, or by being stopped
from outside, which no error handling catches.
-/
import PromptShelf.FileTree.Reading
import PromptShelf.Prompt.Wording
import PromptShelf.Template.Render

namespace PromptShelf

/-- Directory named in messages about the bundled templates. -/
def bundledHint : String := "templates/v1/templates_en/"

/-- Why a path is not accepted. -/
inductive Denial
  | nullByte
  | notRelative
  | parentSegment
  | extension
  | outside
  | other (reason : String)
  deriving DecidableEq

def Denial.reason : Denial → String
  | .nullByte => "contains a null byte"
  | .notRelative => "must be relative"
  | .parentSegment => "contains a parent-directory segment"
  | .extension => "has a disallowed file extension"
  | .outside => "resolves outside allowed directory"
  | .other reason => reason

/-- An error.  The first four are the library's own and have a code.  Of the file
system's faults only the kind is known, and of those from elsewhere the name and the
message; a missing key is known by the key, and a field of a log record that has a name
of the record's own by that name. -/
inductive Error
  | accessDenied (requested : String) (denial : Denial)
  | notFound (template hint : String)
  | unreadable (template : String) (cause : Option ReadFault)
  | coded (code message : String) (details : Value.Entries)
  | emptyPath
  | refusedRead (cause : ReadRefusal)
  | unrendered (cause : Template.RenderError)
  | badArguments (cause : Prompt.ArgumentFault)
  | refusedFile (fault : FileFault)
  | notInitialized
  | missingKey (key : String)
  | takenField (name : String)
  | foreign (name message : String)

namespace Error

def code? : Error → Option String
  | .accessDenied .. => some "ACCESS_DENIED"
  | .notFound .. => some "TEMPLATE_NOT_FOUND"
  | .unreadable .. => some "TEMPLATE_READ_ERROR"
  | .coded code .. => some code
  | _ => none

def message : Error → String
  | .accessDenied _ denial => "Access denied: path " ++ denial.reason
  | .notFound template hint =>
    "Template not found: " ++ template ++ ". Ensure the file exists in " ++ hint
  | .unreadable template _ => "Failed to load template: " ++ template
  | .coded _ message _ => message
  | .emptyPath => "no path specified"
  | .refusedRead cause => cause.message
  | .unrendered cause => cause.message
  | .badArguments cause => cause.message
  | .refusedFile _ => ""
  | .notInitialized => "ServiceContainer not initialized. Call init_container() first."
  | .missingKey key => Text.quoted key
  | .takenField name =>
    Text.quoted ("Attempt to overwrite " ++ Text.quoted name ++ " in LogRecord")
  | .foreign _ message => message

def details : Error → Value.Entries
  | .notFound template _ => [(.text "template_path", .text template)]
  | .unreadable template _ => [(.text "template_path", .text template)]
  | .coded _ _ details => details
  | _ => []

def name : Error → String
  | .accessDenied .. => "AccessDeniedError"
  | .notFound .. => "TemplateNotFoundError"
  | .unreadable .. => "TemplateReadError"
  | .coded .. => "TaskPromptError"
  | .emptyPath => "ValueError"
  | .refusedRead (.unknownEncoding _) => "LookupError"
  | .refusedRead _ => "ValueError"
  | .unrendered _ => "TypeError"
  | .badArguments cause => cause.name
  | .refusedFile fault => fault.name
  | .notInitialized => "RuntimeError"
  | .missingKey _ => "KeyError"
  | .takenField _ => "KeyError"
  | .foreign name _ => name

/-- The code of an error, or its name if it has none. -/
def label (e : Error) : String := e.code?.getD e.name

/-- Name of the kind of error with the place it is defined in, which the errors
from outside do not show. -/
def qualifiedName (e : Error) : String :=
  match e.code? with
  | some _ => "taskprompt.core.errors." ++ e.name
  | none => e.name

end Error

/-- What stops a call from outside. -/
inductive Stop
  | cancelled
  | other (name message : String)
  deriving DecidableEq

namespace Stop

def name : Stop → String
  | .cancelled => "CancelledError"
  | .other name _ => name

/-- Name of what stops a call with the place it is defined in. -/
def qualifiedName : Stop → String
  | .cancelled => "asyncio.exceptions.CancelledError"
  | .other name _ => name

end Stop

/-- How a call ends. -/
inductive Ending (α : Type)
  | returned (value : α)
  | failed (error : Error)
  | stopped (stop : Stop)

def Ending.isReturned {α : Type} : Ending α → Bool
  | .returned _ => true
  | _ => false

end PromptShelf
