/-
Errors made under their names.

An error can be asked for by the name of its kind and a list of arguments.  Each kind of
the library's own errors has a form: the names of the arguments it needs, and how many
more it takes.  A list that does not fit the form is a fault and makes no error
(`Error.ofArguments`).  Errors from elsewhere take what they are given as their message.

* **`fault?_eq_none_iff`** — the lists without a fault are those of the form's lengths.
-/
import PromptShelf.Error

namespace PromptShelf.Error

/-- Arguments of a kind of error. -/
structure Form where
  name : String
  needed : List String
  more : Nat
  deriving DecidableEq

namespace Form

def own : List Form :=
  [⟨"TaskPromptError", ["code", "message"], 1⟩,
    ⟨"AccessDeniedError", ["requested_path"], 1⟩,
    ⟨"TemplateNotFoundError", ["template_path"], 1⟩,
    ⟨"TemplateReadError", ["template_path"], 0⟩]

/-- What an error of the form is made by, as faults name it. -/
def title (f : Form) : String := f.name ++ ".__init__()"

def most (f : Form) : Nat := f.needed.length + f.more

/-- The fault of a number of arguments; the error to be made counts as one, too. -/
def fault? (f : Form) (given : Nat) : Option Prompt.ArgumentFault :=
  if f.most < given then
    some (.tooMany f.title (f.needed.length + 1) (f.most + 1) (given + 1))
  else if given < f.needed.length then some (.missing f.title (f.needed.drop given))
  else none

theorem fault?_eq_none_iff (f : Form) (given : Nat) :
    f.fault? given = none ↔ f.needed.length ≤ given ∧ given ≤ f.most := by
  grind [fault?]

end Form

/-- Details that a value gives: those of a dictionary, none for any other. -/
def detailsOf : Value → Value.Entries
  | .dict entries => entries
  | _ => []

/-- The error of a kind that is not the library's own. -/
def fromElsewhere (name : String) : List Value → Error
  | [] => .foreign name ""
  | [v] => if name = "KeyError" then .missingKey v.display else .foreign name v.display
  | args => .foreign name (Value.tuple args).display

/-- The error under a name that is made of arguments. -/
def ofArguments (name : String) (args : List Value) : Except Prompt.ArgumentFault Error :=
  match (Form.own.find? (·.name = name)).bind (·.fault? args.length) with
  | some fault => .error fault
  | none =>
    .ok <| match name, args with
      | "TaskPromptError", code :: message :: rest =>
        .coded code.display message.display ((rest.map detailsOf).headD [])
      | "AccessDeniedError", [path] => .accessDenied path.display .outside
      | "AccessDeniedError", [path, reason] =>
        .accessDenied path.display (.other reason.display)
      | "TemplateNotFoundError", [template] => .notFound template.display bundledHint
      | "TemplateNotFoundError", [template, hint] => .notFound template.display hint.display
      | "TemplateReadError", [template] => .unreadable template.display none
      | name, args => fromElsewhere name args

end PromptShelf.Error
