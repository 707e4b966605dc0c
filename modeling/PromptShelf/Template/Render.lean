/-
Rendering: placeholders replaced by the text of their values.

`formatValue` writes a value into a template: texts as they are, numbers in plain
decimal notation, truth values as `true` and `false`, nothing as the empty text.
Doubles without a value and containers have no such text.  An integer is written whatever
its size; a limit that an interpreter may set on the digits of an integer is left out.

`render` splits the template for the keys of a context and fills the pieces from
left to right.  A text that is filled in is never looked at again, so it may hold
braces and even placeholders.
-/
import PromptShelf.Template.Split
import PromptShelf.Value.Basic

namespace PromptShelf.Template

/-- Names and values to fill in.  Keys that are no texts, or empty, name nothing. -/
abbrev Context := Value.Entries

/-- Why a template is not rendered; both causes name the type of what was given. -/
inductive RenderError
  | notATemplate (kind : String)
  | unsupported (kind : String)
  deriving DecidableEq

def RenderError.message : RenderError → String
  | .notATemplate kind => "Template must be a string, got " ++ kind
  | .unsupported kind =>
    "Unsupported context value type: " ++ kind ++
      " (expected str, int, finite float, bool or None)"

def formatValue (v : Value) : Except RenderError String :=
  match v with
  | .none => .ok ""
  | .text s => .ok s
  | .bool b => .ok (if b then "true" else "false")
  | .int n => .ok (String.ofList (Decimal.ofInt n))
  | .float x =>
    match x.plain? with
    | some s => .ok s
    | none => .error (.unsupported v.kind)
  | _ => .error (.unsupported v.kind)

/-- The keys that name placeholders, in the order of the context. -/
def Context.keys (context : Context) : List Key :=
  context.filterMap fun
    | (.text s, _) => if s.isEmpty then none else some s.toList
    | _ => none

def Context.find? (context : Context) (key : Key) : Option Value :=
  context.findSome? fun
    | (.text s, v) => if s.toList = key then some v else none
    | _ => none

def fillPiece (context : Context) : Piece → Except RenderError (List Char)
  | .literal c => .ok [c]
  | .token key source =>
    match context.find? key with
    | some v => (formatValue v).map String.toList
    | none => .ok source

/-- Text that pieces become; the first piece without one is the error. -/
def fill (context : Context) : List Piece → Except RenderError (List Char)
  | [] => .ok []
  | p :: rest => do
    let text ← fillPiece context p
    let more ← fill context rest
    return text ++ more

def render (template : String) (context : Context) : Except RenderError String :=
  (fill context (split (Context.keys context) template.toList)).map String.ofList

/-- Rendering of what may be no template at all. -/
def renderValue (template : Value) (context : Context) : Except RenderError String :=
  match template with
  | .text s => render s context
  | v => .error (.notATemplate v.kind)

/-- Every pair rendered by itself; the first failure is the failure of all. -/
def renderAll (items : List (Value × Context)) : Except RenderError (List String) :=
  items.mapM fun item => renderValue item.1 item.2

end PromptShelf.Template
