/-
Line ends of a text that is read.

A line ends with a carriage return and a line feed, with a carriage return alone or with a line
feed alone.  `Unified` says what a text becomes when each of these is read as one line feed: a
carriage return belongs to the line feed behind it, so a pair of them is one line end and not two.

* **`unified_iff`** — every text becomes exactly what `unifyLineEnds` makes of it;
* **`unifyLineEnds_of_not_mem`** — a text without carriage returns stays as it is.
-/
import PromptShelf.Text.Encoding

namespace PromptShelf.Text

/-- The second text is the first one with a line feed for each of its line ends. -/
inductive Unified : List Char → List Char → Prop
  | nil : Unified [] []
  | pair {cs ds : List Char} (h : Unified cs ds) : Unified ('\r' :: '\n' :: cs) ('\n' :: ds)
  | lone {cs ds : List Char} (hnext : cs.head? ≠ some '\n') (h : Unified cs ds) :
      Unified ('\r' :: cs) ('\n' :: ds)
  | other {c : Char} {cs ds : List Char} (hc : c ≠ '\r') (h : Unified cs ds) :
      Unified (c :: cs) (c :: ds)

theorem unifyLineEnds_other {c : Char} (hc : c ≠ '\r') (cs : List Char) :
    unifyLineEnds (c :: cs) = c :: unifyLineEnds cs := by
  rw [unifyLineEnds]
  · rintro rest rfl
    exact absurd rfl hc
  · rintro rfl
    exact absurd rfl hc

theorem unifyLineEnds_lone {cs : List Char} (hnext : cs.head? ≠ some '\n') :
    unifyLineEnds ('\r' :: cs) = '\n' :: unifyLineEnds cs := by
  rw [unifyLineEnds]
  rintro rest rfl
  exact hnext rfl

theorem unified_unifyLineEnds (cs : List Char) : Unified cs (unifyLineEnds cs) := by
  fun_induction unifyLineEnds cs with
  | case1 => exact .nil
  | case2 rest ih => exact .pair ih
  | case3 rest hpair ih =>
    refine .lone ?_ ih
    cases rest with
    | nil => simp
    | cons c rest =>
      intro hc
      obtain rfl := Option.some.inj hc
      exact hpair rest rfl
  | case4 c rest _ hlone ih => exact .other hlone ih

/-- There is exactly one way to unify the line ends of a text. -/
theorem unified_iff {cs ds : List Char} : Unified cs ds ↔ ds = unifyLineEnds cs := by
  constructor
  · intro h
    induction h with
    | nil => rfl
    | pair _ ih => rw [unifyLineEnds, ih]
    | lone hnext _ ih => rw [unifyLineEnds_lone hnext, ih]
    | other hc _ ih => rw [unifyLineEnds_other hc, ih]
  · rintro rfl
    exact unified_unifyLineEnds cs

/-- Without carriage returns all lines end as they should. -/
theorem unifyLineEnds_of_not_mem {cs : List Char} (h : '\r' ∉ cs) : unifyLineEnds cs = cs := by
  induction cs with
  | nil => rfl
  | cons c cs ih =>
    have hc : c ≠ '\r' := fun heq => h (heq ▸ List.mem_cons_self)
    rw [unifyLineEnds_other hc, ih fun hmem => h (List.mem_cons_of_mem _ hmem)]

end PromptShelf.Text
