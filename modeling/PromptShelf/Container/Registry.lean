/-
The current container.

Containers are numbered in the order they are made.  The last one made is the current
one until it is dropped; without one, asking for it is an error.
-/
import PromptShelf.Container.Basic

namespace PromptShelf

/-- How many containers were made, and the current one with its number. -/
structure Registry where
  made : Nat := 0
  current : Option (Nat × Container) := none

namespace Registry

/-- Makes a container the current one and gives its number. -/
def install (r : Registry) (c : Container) : Registry × Nat :=
  (⟨r.made + 1, some (r.made, c)⟩, r.made)

def get (r : Registry) : Except Error (Nat × Container) :=
  match r.current with
  | some c => .ok c
  | none => .error .notInitialized

def reset (r : Registry) : Registry := { r with current := none }

end Registry

end PromptShelf
