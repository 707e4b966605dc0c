/-
How arguments are worded in prompts.

A flag becomes yes or no, and items become a numbered list or are joined by commas;
where there are none, a text of its own says so.  Items can be given as any value that
has parts: a list, a tuple, a set, the characters of a text, the numbers of bytes or the
keys of a dictionary.
-/
import PromptShelf.Value.Display

namespace PromptShelf.Prompt

/-- Why arguments make nothing: their values are of a type that does not fit, or their
names or number are not what is asked for.  The last four say what they were given to. -/
inductive ArgumentFault
  | noText (kind : String)
  | noItems (kind : String)
  | notJoinable
  | itemNotText (index : Nat) (kind : String)
  | unexpected (title name : String)
  | repeated (title name : String)
  | missing (title : String) (names : List String)
  | tooMany (title : String) (least most given : Nat)
  deriving DecidableEq

/-- Names between quotes, as a list in a sentence. -/
def enumerated : List String → String
  | [] => ""
  | [a] => Text.quoted a
  | [a, b] => Text.quoted a ++ " and " ++ Text.quoted b
  | names =>
    String.intercalate ", " (names.dropLast.map Text.quoted) ++ ", and " ++
      Text.quoted (names.getLastD "")

namespace ArgumentFault

def name : ArgumentFault → String
  | .noText _ => "AttributeError"
  | _ => "TypeError"

def message : ArgumentFault → String
  | .noText kind => Text.quoted kind ++ " object has no attribute 'strip'"
  | .noItems kind => Text.quoted kind ++ " object is not iterable"
  | .notJoinable => "can only join an iterable"
  | .itemNotText index kind =>
    "sequence item " ++ String.ofList (Decimal.digits index) ++
      ": expected str instance, " ++ kind ++ " found"
  | .unexpected title name =>
    title ++ " got an unexpected keyword argument '" ++ name ++ "'"
  | .repeated title name => title ++ " got multiple values for argument '" ++ name ++ "'"
  | .missing title names =>
    title ++ " missing " ++ String.ofList (Decimal.digits names.length) ++
      " required positional argument" ++ (if names.length = 1 then "" else "s") ++ ": " ++
      enumerated names
  | .tooMany title least most given =>
    title ++ " takes " ++
      (if least = most then "" else "from " ++ String.ofList (Decimal.digits least) ++ " to ") ++
      String.ofList (Decimal.digits most) ++ " positional arguments but " ++
      String.ofList (Decimal.digits given) ++ " were given"

end ArgumentFault

def items? : Value → Option (List Value)
  | .list items => some items
  | .tuple items => some items
  | .set items => some items
  | .text s => some (s.toList.map fun c => .text (String.ofList [c]))
  | .bytes octets => some (octets.map fun b => .int b.toNat)
  | .dict entries => some (entries.map (·.1))
  | _ => none

def yesNo (flag : Value) : String := if flag.isTrue then "yes" else "no"

def noneText : String := "none"

/-- Items on lines of their own, numbered from `first`. -/
def numberedLines (first : Nat) : List Value → List String
  | [] => []
  | v :: rest =>
    (String.ofList (Decimal.digits first) ++ ". " ++ v.display) :: numberedLines (first + 1) rest

/-- A numbered list, or `empty` for none. -/
def numberedList (v : Value) (empty : String) : Except ArgumentFault String :=
  if !v.isTrue then .ok empty
  else
    match items? v with
    | some items => .ok (String.intercalate "\n" (numberedLines 1 items))
    | none => .error (.noItems v.qualifiedKind)

/-- The texts of items that must be texts, counted from `index`. -/
def textsFrom (index : Nat) : List Value → Except ArgumentFault (List String)
  | [] => .ok []
  | .text s :: rest => do return s :: (← textsFrom (index + 1) rest)
  | v :: _ => .error (.itemNotText index v.qualifiedKind)

/-- Texts with commas between them, or a word for none. -/
def joinedList (v : Value) : Except ArgumentFault String :=
  if !v.isTrue then .ok noneText
  else
    match items? v with
    | some items => do return String.intercalate ", " (← textsFrom 0 items)
    | none => .error .notJoinable

end PromptShelf.Prompt
