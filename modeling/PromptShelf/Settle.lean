/-
Waiting for several calls.

Every call runs to its end, whatever happens to the others.  The ends come in some
order and are kept in the places of their calls (`collect`); when the last one is
there, they become outcomes in the order of the calls (`outcomes`).  A call that was
stopped from outside leaves no outcome: the first of these, in the order of the
calls, stops the whole.

* **`collect_of_forall_mem`** — when every call has ended, in whatever order, the places
  hold all ends.
-/
import PromptShelf.Error

namespace PromptShelf.Settle

/-- What a call that was not stopped leaves behind. -/
inductive Outcome (α : Type)
  | returned (value : α)
  | failed (error : Error)

def Outcome.isOk {α : Type} : Outcome α → Bool
  | .returned _ => true
  | .failed _ => false

/-- The ends that have come so far, in the places of their calls. -/
abbrev Places (α : Type) := List (Option (Ending α))

/-- The end of a call put into its place. -/
def place {α : Type} (endings : List (Ending α)) (places : Places α) (call : Nat) : Places α :=
  places.set call endings[call]?

/-- The places after some calls have ended, in that order. -/
def collect {α : Type} (endings : List (Ending α)) (order : List Nat) : Places α :=
  order.foldl (place endings) (List.replicate endings.length none)

/-- The ends as outcomes, or the first stop. -/
def outcomes {α : Type} : List (Ending α) → Except Stop (List (Outcome α))
  | [] => .ok []
  | .stopped s :: _ => .error s
  | .returned a :: rest => (outcomes rest).map (.returned a :: ·)
  | .failed e :: rest => (outcomes rest).map (.failed e :: ·)

/-- The outcomes once every place is taken. -/
def settled? {α : Type} (places : Places α) : Option (Except Stop (List (Outcome α))) :=
  (places.mapM id).map outcomes

/-- Outcomes of calls that have ended in an order; nothing while one has not. -/
def settle {α : Type} (endings : List (Ending α)) (order : List Nat) :
    Option (Except Stop (List (Outcome α))) :=
  settled? (collect endings order)

/-- The calls in the order of their ends: by the number of turns they take, and of
two that take as many the earlier call first. -/
def finishOrder (turns : List Nat) : List Nat :=
  (List.range turns.length).mergeSort fun i j => turns.getD i 0 ≤ turns.getD j 0

theorem length_place {α : Type} (endings : List (Ending α)) (places : Places α) (call : Nat) :
    (place endings places call).length = places.length := by
  simp [place]

/-- A place holds the end of its call once that has come, and before what it held. -/
theorem getElem?_foldl_place {α : Type} (endings : List (Ending α)) (order : List Nat)
    (places : Places α) (h : places.length = endings.length) (i : Nat) :
    (order.foldl (place endings) places)[i]? =
      if i ∈ order ∧ i < endings.length then some endings[i]? else places[i]? := by
  induction order generalizing places with
  | nil => simp
  | cons call rest ih =>
    rw [List.foldl_cons, ih _ (by rw [length_place, h])]
    by_cases hi : i < endings.length
    · by_cases hr : i ∈ rest
      · simp [hr, hi]
      · by_cases hc : call = i
        · subst hc
          simp [hr, hi, place, h]
        · simp [hr, hi, place, Ne.symm hc, List.getElem?_set_ne hc]
    · have hp : ¬ i < places.length := by omega
      have hp' : ¬ i < (place endings places call).length := by
        rw [length_place]
        omega
      simp [hi, List.getElem?_eq_none (Nat.le_of_not_lt hp),
        List.getElem?_eq_none (Nat.le_of_not_lt hp')]

/-- When every call has ended, in whatever order, the places hold all ends. -/
theorem collect_of_forall_mem {α : Type} (endings : List (Ending α)) (order : List Nat)
    (h : ∀ i, i < endings.length → i ∈ order) :
    collect endings order = endings.map some := by
  apply List.ext_getElem?
  intro i
  rw [collect, getElem?_foldl_place _ _ _ (by simp)]
  by_cases hi : i < endings.length
  · simp [h i hi, hi]
  · simp [hi]

end PromptShelf.Settle
