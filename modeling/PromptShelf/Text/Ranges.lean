/-
Sets of characters given by ranges of code points.

`Ranges` is a list of closed intervals; `Ranges.has` tells whether a character
lies in one of them.  The tables of the Unicode properties in this library are
of this type, except the one of lower case letters, which carries a distance.
-/

namespace PromptShelf.Text

abbrev Ranges := List (Nat × Nat)

/-- The character lies in one of the intervals. -/
def Ranges.has (rs : Ranges) (c : Char) : Bool :=
  rs.any fun r => r.1 ≤ c.toNat && c.toNat ≤ r.2

@[simp] theorem Ranges.has_nil (c : Char) : Ranges.has [] c = false := rfl

@[simp] theorem Ranges.has_cons (r : Nat × Nat) (rs : Ranges) (c : Char) :
    Ranges.has (r :: rs) c = ((r.1 ≤ c.toNat && c.toNat ≤ r.2) || Ranges.has rs c) := rfl

end PromptShelf.Text
