/-
Values of free type.

Template contexts, settings and log fields hold values whose type is known only
when they arrive: nothing, truth values, integers, doubles, decimals, texts, bytes, lists,
tuples, sets, dictionaries and objects of other types, of which the type's name and the
text they show are known.

A container can also be `shared`: it stands in a heap, a list of containers, and
the value holds its place there.  Shared containers make values that are reached
on several ways, and cyclic ones; a value without any is a plain tree.

Entries of a dictionary keep the order of their first insertion (`Value.insert`),
and keys are compared as numbers across the number types (`Value.sameKey`).
-/
import PromptShelf.Number.Decimal

namespace PromptShelf

/-- A value of free type. -/
inductive Value
  | none
  | bool (b : Bool)
  | int (n : Int)
  | float (x : Binary64)
  | decimal (negative : Bool) (size : Decimal)
  | text (s : String)
  | bytes (octets : List UInt8)
  | list (items : List Value)
  | tuple (items : List Value)
  | set (items : List Value)
  | dict (entries : List (Value × Value))
  | object (kind shown : String)
  | shared (place : Nat)

namespace Value

instance : Inhabited Value := ⟨.none⟩

/-- Name of a value's type, as messages give it. -/
def kind : Value → String
  | .none => "NoneType"
  | .bool _ => "bool"
  | .int _ => "int"
  | .float _ => "float"
  | .decimal .. => "Decimal"
  | .text _ => "str"
  | .bytes _ => "bytes"
  | .list _ => "list"
  | .tuple _ => "tuple"
  | .set _ => "set"
  | .dict _ => "dict"
  | .object kind _ => kind
  | .shared _ => "list"

/-- Name of a value's type, for a type that is not built in with the place it is defined
in. -/
def qualifiedKind : Value → String
  | .decimal .. => "decimal.Decimal"
  | v => v.kind

/-- Empty, zero and nothing are false; everything else is true. -/
def isTrue : Value → Bool
  | .none => false
  | .bool b => b
  | .int n => n != 0
  | .float x => !x.isZero
  | .decimal _ size => size.coefficient != 0
  | .text s => s != ""
  | .bytes octets => !octets.isEmpty
  | .list items => !items.isEmpty
  | .tuple items => !items.isEmpty
  | .set items => !items.isEmpty
  | .dict entries => !entries.isEmpty
  | .object .. => true
  | .shared _ => true

/-- Numerator and denominator of a number of any type. -/
def fraction? : Value → Option (Int × Nat)
  | .bool b => some (if b then 1 else 0, 1)
  | .int n => some (n, 1)
  | .float x => x.signedUnits?.map (·, Binary64.unitsPerOne)
  | .decimal negative size =>
    let n := Int.ofNat (size.coefficient * Nat.pow 10 size.exponent.toNat)
    some (if negative then -n else n, Nat.pow 10 (-size.exponent).toNat)
  | _ => Option.none

/-- The values are numbers and equal, whatever their types. -/
def sameNumber (v w : Value) : Bool :=
  match v.fraction?, w.fraction? with
  | some (a, b), some (c, d) => a * d == c * b
  | _, _ => false

mutual

/-- Two keys of a dictionary are one: numbers by their value across types, texts, bytes
and tuples by what they hold.  A double that is not a number is no key but itself,
so no two such keys are one. -/
def sameKey : Value → Value → Bool
  | .none, .none => true
  | .text s, .text t => s == t
  | .bytes a, .bytes b => a == b
  | .float x, .float y => x.sameNumber y
  | .tuple xs, .tuple ys => sameKeys xs ys
  | v, w => sameNumber v w

/-- Keys that are one at every place of two tuples. -/
def sameKeys : List Value → List Value → Bool
  | [], [] => true
  | x :: xs, y :: ys => sameKey x y && sameKeys xs ys
  | _, _ => false

end

/-- Entries of a dictionary in the order of their first insertion. -/
abbrev Entries := List (Value × Value)

/-- An equal key keeps its place and gets the new value; a new one goes to the end. -/
def insert (entries : Entries) (k v : Value) : Entries :=
  match entries with
  | [] => [(k, v)]
  | (k', v') :: rest =>
    if sameKey k' k then (k', v) :: rest else (k', v') :: insert rest k v

/-- The dictionary of a list of pairs, later ones overwriting earlier ones. -/
def entriesOf (pairs : List (Value × Value)) : Entries :=
  pairs.foldl (fun entries p => insert entries p.1 p.2) []

end Value

end PromptShelf
