/-
Shared containers.

A heap is a list of containers, and a shared value is its place in the list.
`Heap.unroll` writes the containers out where they are named.  A container that is
met again inside itself stays shared there, so the result shows where a value
recurs and is finite all the same (`Heap.display`).
-/
import PromptShelf.Value.Display

namespace PromptShelf

namespace Value

mutual

def mapShared (f : Nat → Value) : Value → Value
  | .list items => .list (mapSharedItems f items)
  | .tuple items => .tuple (mapSharedItems f items)
  | .dict entries => .dict (mapSharedEntries f entries)
  | .shared p => f p
  | v => v

def mapSharedItems (f : Nat → Value) : List Value → List Value
  | [] => []
  | v :: rest => mapShared f v :: mapSharedItems f rest

/-- The entries with the shared containers of their values replaced. -/
def mapSharedEntries (f : Nat → Value) : List (Value × Value) → List (Value × Value)
  | [] => []
  | (k, v) :: rest => (k, mapShared f v) :: mapSharedEntries f rest

end

end Value

abbrev Heap := List Value

namespace Heap

/-- The container at a place inside those at the places `above`, as far as `depth`
containers inside each other. -/
def expand (heap : Heap) : Nat → List Nat → Nat → Value
  | 0, _, p => .shared p
  | depth + 1, above, p =>
    if above.contains p then .shared p
    else
      match heap[p]? with
      | some v => v.mapShared (expand heap depth (p :: above))
      | none => .shared p

/-- The value with its shared containers written out, except where they recur.  No
more containers than there are can stand inside each other without one recurring. -/
def unroll (heap : Heap) (v : Value) : Value := v.mapShared (heap.expand heap.length [])

/-- The value with dots in brackets of their kind for the containers that are still
shared, as they are shown to a reader. -/
def dotted (heap : Heap) (v : Value) : Value :=
  v.mapShared fun p =>
    match heap[p]? with
    | some (.dict _) => .object "dict" "\x7b...\x7d"
    | _ => .shared p

/-- The text of a value, its shared containers written out. -/
def display (heap : Heap) (v : Value) : String := (heap.dotted (heap.unroll v)).display

/-- The value itself, or the container it names. -/
def resolve (heap : Heap) : Value → Value
  | .shared p => heap.getD p (.shared p)
  | v => v

end Heap

end PromptShelf
