/-
Error information given as a value.

A field of a record can stand in for its error.  Its value then counts as three parts
in order: what kind the error is, the error, and where it was raised.  A value that is
empty or whose first part is, says that there is no error.

The values of fields are no errors, so there is hardly a text to be had from them: a
detailed text asks the third part for its frame and the second for its context, which
only `none` can do without, and a short one asks the first part for its name
(`InfoError`).
-/
import PromptShelf.Value.Heap

namespace PromptShelf.Log

/-- Why a value is no information about an error: it has no parts, too few of them, none
under a number, or a part does not have what is asked of it. -/
inductive InfoError
  | noParts (kind : String)
  | tooShort (sort : String)
  | noEntry (index : Nat)
  | lacks (kind property : String)
  deriving DecidableEq

namespace InfoError

def name : InfoError → String
  | .noParts _ => "TypeError"
  | .tooShort _ => "IndexError"
  | .noEntry _ => "KeyError"
  | .lacks .. => "AttributeError"

def message : InfoError → String
  | .noParts kind => "'" ++ kind ++ "' object is not subscriptable"
  | .tooShort sort => sort ++ "index out of range"
  | .noEntry index => String.ofList (Decimal.digits index)
  | .lacks kind property => "'" ++ kind ++ "' object has no attribute '" ++ property ++ "'"

end InfoError

/-- An item of a sequence, whose sort is named if there is none. -/
def itemAt (sort : String) (items : List Value) (index : Nat) : Except InfoError Value :=
  match items[index]? with
  | some v => .ok v
  | none => .error (.tooShort sort)

/-- The part of a value at an index, from zero on; a dictionary has it under the number. -/
def partAt (heap : Heap) (v : Value) (index : Nat) : Except InfoError Value :=
  match heap.resolve v with
  | .list items => itemAt "list " items index
  | .tuple items => itemAt "tuple " items index
  | .text s => itemAt "string " (s.toList.map fun c => .text (String.ofList [c])) index
  | .bytes octets => itemAt "" (octets.map fun b => .int b.toNat) index
  | .dict entries =>
    match entries.find? fun e => e.1.sameKey (.int index) with
    | some e => .ok e.2
    | none => .error (.noEntry index)
  | w => .error (.noParts w.qualifiedKind)

/-- What a part is asked for without having it. -/
def lacking {α : Type} (heap : Heap) (v : Value) (property : String) : Except InfoError α :=
  .error (.lacks (heap.resolve v).qualifiedKind property)

/-- The text of an error that is given as a value, if it says that there is one. -/
def infoText (detailed : Bool) (heap : Heap) (v : Value) : Except InfoError (Option String) := do
  if !(heap.resolve v).isTrue then return none
  let kind ← partAt heap v 0
  if !(heap.resolve kind).isTrue then return none
  let error ← partAt heap v 1
  if !detailed then lacking heap kind "__name__"
  else
    match ← partAt heap v 2, error with
    | .none, .none => return some "NoneType: None"
    | .none, error => lacking heap error "__suppress_context__"
    | frame, _ => lacking heap frame "tb_frame"

end PromptShelf.Log
