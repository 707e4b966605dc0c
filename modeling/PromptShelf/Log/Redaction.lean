/-
Log data without secrets.

`redact` copies a value.  Under a key that sounds secret, texts, numbers and truth
values are hidden; under a key for paths, a text keeps its last name only, and any
other value is taken over as it is.  Everything else is copied part by part, tuples as
lists.

Every container is visited once: where it is met again, in itself or elsewhere, a mark
stands for it.  All empty tuples are one container.

* **`visit_of_noShared`** — a value without shared containers is copied without the
  heap being asked.
-/
import PromptShelf.Path.Basic
import PromptShelf.Text.Case
import PromptShelf.Value.Display
import PromptShelf.Value.Heap

namespace PromptShelf.Log

def redacted : String := "[REDACTED]"

/-- What stands for a container that was there before. -/
def circular : Value := .text "[CIRCULAR]"

/-- What stands for a path without any name. -/
def namelessPath : String := "[PATH]"

/-- A key with one of these in it sounds secret. -/
def secretMarkers : List String :=
  ["password", "token", "apikey", "api_key", "secret", "authorization", "cookie", "session",
    "jwt", "bearer", "privatekey", "private_key", "credentials"]

def pathKeys : List String := ["path", "file_path", "filePath"]

/-- The first text stands somewhere in the second. -/
def occursIn (marker : List Char) : List Char → Bool
  | [] => marker.isEmpty
  | c :: rest => marker.isPrefixOf (c :: rest) || occursIn marker rest

/-- The key sounds secret, whatever the case of its letters. -/
def isSecretKey (key : Value) : Bool :=
  secretMarkers.any fun m => occursIn m.toList (Text.lower key.display).toList

def isPathKey (key : Value) : Bool := pathKeys.contains key.display

/-- Texts, numbers and truth values can be secrets. -/
def isScalar : Value → Bool
  | .text _ => true
  | .int _ => true
  | .float _ => true
  | .bool _ => true
  | _ => false

/-- The last name of a path, both slashes separating names. -/
def lastName (path : String) : String :=
  let names := (Path.segmentsBy (fun c => c == '/' || c == '\\') path.toList).filter (· ≠ [])
  match names.getLast? with
  | some name => String.ofList name
  | none => namelessPath

def pathValue : Value → Value
  | .text s => .text (lastName s)
  | v => v

/-- Containers met so far: places in the heap, and the empty tuple. -/
structure Seen where
  places : List Nat := []
  emptyTuple : Bool := false

mutual

/-- The copy of a value; `shared` copies the containers of the heap. -/
def visit (shared : Seen → Nat → Value × Seen) (seen : Seen) : Value → Value × Seen
  | .list items =>
    let copy := visitItems shared seen items
    (.list copy.1, copy.2)
  | .tuple [] =>
    if seen.emptyTuple then (circular, seen) else (.list [], { seen with emptyTuple := true })
  | .tuple items =>
    let copy := visitItems shared seen items
    (.list copy.1, copy.2)
  | .dict entries =>
    let copy := visitEntries shared seen entries
    (.dict copy.1, copy.2)
  | .shared p => shared seen p
  | v => (v, seen)

def visitItems (shared : Seen → Nat → Value × Seen) (seen : Seen) :
    List Value → List Value × Seen
  | [] => ([], seen)
  | v :: rest =>
    let first := visit shared seen v
    let others := visitItems shared first.2 rest
    (first.1 :: others.1, others.2)

def visitEntries (shared : Seen → Nat → Value × Seen) (seen : Seen) :
    List (Value × Value) → List (Value × Value) × Seen
  | [] => ([], seen)
  | (k, v) :: rest =>
    let first :=
      if isSecretKey k && isScalar v then (.text redacted, seen)
      else if isPathKey k then (pathValue v, seen)
      else visit shared seen v
    let others := visitEntries shared first.2 rest
    ((k, first.1) :: others.1, others.2)

end

/-- The copy of the container at a place, the first time it is met; containers stand
inside each other `depth` deep at most. -/
def visitPlace (heap : Heap) : Nat → Seen → Nat → Value × Seen
  | 0, seen, _ => (circular, seen)
  | depth + 1, seen, p =>
    if seen.places.contains p then (circular, seen)
    else
      match heap[p]? with
      | some v => visit (visitPlace heap depth) { seen with places := p :: seen.places } v
      | none => (circular, seen)

/-- The copy of a value without secrets.  Containers stand inside each other at most as
deep as there are containers, for each is visited once. -/
def redact (heap : Heap) (v : Value) : Value := (visit (visitPlace heap heap.length) {} v).1

mutual

/-- The value names no place of the heap. -/
def noShared : Value → Bool
  | .list items => noSharedItems items
  | .tuple items => noSharedItems items
  | .dict entries => noSharedEntries entries
  | .shared _ => false
  | _ => true

/-- No item names a place of the heap. -/
def noSharedItems : List Value → Bool
  | [] => true
  | v :: rest => noShared v && noSharedItems rest

/-- No entry's value names a place of the heap. -/
def noSharedEntries : List (Value × Value) → Bool
  | [] => true
  | (_, v) :: rest => noShared v && noSharedEntries rest

end

mutual

/-- A value without shared containers is copied without the heap being asked. -/
theorem visit_of_noShared (f g : Seen → Nat → Value × Seen) (seen : Seen) :
    ∀ v, noShared v = true → visit f seen v = visit g seen v
  | .none, _ => rfl
  | .bool _, _ => rfl
  | .int _, _ => rfl
  | .float _, _ => rfl
  | .decimal _ _, _ => rfl
  | .text _, _ => rfl
  | .bytes _, _ => rfl
  | .set _, _ => rfl
  | .object _ _, _ => rfl
  | .shared _, h => by simp [noShared] at h
  | .list items, h => by
    rw [noShared] at h
    simp only [visit, visitItems_of_noShared f g seen items h]
  | .tuple [], _ => rfl
  | .tuple (v :: rest), h => by
    rw [noShared] at h
    simp only [visit, visitItems_of_noShared f g seen (v :: rest) h]
  | .dict entries, h => by
    rw [noShared] at h
    simp only [visit, visitEntries_of_noShared f g seen entries h]

theorem visitItems_of_noShared (f g : Seen → Nat → Value × Seen) (seen : Seen) :
    ∀ items, noSharedItems items = true → visitItems f seen items = visitItems g seen items
  | [], _ => rfl
  | v :: rest, h => by
    rw [noSharedItems, Bool.and_eq_true] at h
    simp only [visitItems, visit_of_noShared f g seen v h.1,
      visitItems_of_noShared f g _ rest h.2]

theorem visitEntries_of_noShared (f g : Seen → Nat → Value × Seen) (seen : Seen) :
    ∀ entries, noSharedEntries entries = true →
      visitEntries f seen entries = visitEntries g seen entries
  | [], _ => rfl
  | (k, v) :: rest, h => by
    rw [noSharedEntries, Bool.and_eq_true] at h
    simp only [visitEntries, visit_of_noShared f g seen v h.1,
      visitEntries_of_noShared f g _ rest h.2]

end

end PromptShelf.Log
