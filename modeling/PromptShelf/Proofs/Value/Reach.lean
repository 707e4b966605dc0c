/-
What is reached from a value.

From a value one comes to its items, to the values of its entries, and from a place to the
container there (`Reaches`).  Which entries lead on is a parameter.

Ways that visit no place twice are at most as long as there are places.  `Unmet` counts along
such a way: as long as places are left that were not met, there is depth left for them.

* **`Throughout.of_closed`** — what holds inside a value and inside the containers at some places,
  which name no others, holds of all that is reached;
* **`Unmet.cons`** — a new place is met at one less depth.
-/
import Mathlib.Data.List.Perm.Subperm
import PromptShelf.Value.Heap

namespace PromptShelf

/-- One comes from a value to another through items, places and the entries that lead on. -/
inductive Reaches (heap : Heap) (Through : Value → Value → Prop) : Value → Value → Prop
  | refl (v : Value) : Reaches heap Through v v
  | list {items : List Value} {w u : Value} (hw : w ∈ items) (h : Reaches heap Through w u) :
      Reaches heap Through (.list items) u
  | tuple {items : List Value} {w u : Value} (hw : w ∈ items) (h : Reaches heap Through w u) :
      Reaches heap Through (.tuple items) u
  | entry {entries : List (Value × Value)} {k w u : Value} (hw : (k, w) ∈ entries)
      (hthrough : Through k w) (h : Reaches heap Through w u) :
      Reaches heap Through (.dict entries) u
  | place {p : Nat} {w u : Value} (hw : heap[p]? = some w) (h : Reaches heap Through w u) :
      Reaches heap Through (.shared p) u

/-- Every entry leads on. -/
def Always (_ _ : Value) : Prop := True

/-- It holds of all that is reached from the value. -/
def Throughout (heap : Heap) (Through : Value → Value → Prop) (P : Value → Prop) (v : Value) :
    Prop :=
  ∀ w, Reaches heap Through v w → P w

section Throughout

variable {heap : Heap} {Through : Value → Value → Prop} {P : Value → Prop}

theorem Throughout.imp {Q : Value → Prop} {v : Value} (h : Throughout heap Through P v)
    (hpq : ∀ w, P w → Q w) : Throughout heap Through Q v :=
  fun w hw => hpq w (h w hw)

theorem throughout_list_iff {items : List Value} :
    Throughout heap Through P (.list items) ↔
      P (.list items) ∧ ∀ w ∈ items, Throughout heap Through P w := by
  constructor
  · exact fun h => ⟨h _ (.refl _), fun w hw u hu => h u (.list hw hu)⟩
  · rintro ⟨hself, h⟩ u hu
    cases hu with
    | refl => exact hself
    | list hw hu => exact h _ hw u hu

theorem throughout_tuple_iff {items : List Value} :
    Throughout heap Through P (.tuple items) ↔
      P (.tuple items) ∧ ∀ w ∈ items, Throughout heap Through P w := by
  constructor
  · exact fun h => ⟨h _ (.refl _), fun w hw u hu => h u (.tuple hw hu)⟩
  · rintro ⟨hself, h⟩ u hu
    cases hu with
    | refl => exact hself
    | tuple hw hu => exact h _ hw u hu

theorem throughout_dict_iff {entries : List (Value × Value)} :
    Throughout heap Through P (.dict entries) ↔
      P (.dict entries) ∧ ∀ e ∈ entries, Through e.1 e.2 → Throughout heap Through P e.2 := by
  constructor
  · exact fun h => ⟨h _ (.refl _), fun e he hthrough u hu => h u (.entry he hthrough hu)⟩
  · rintro ⟨hself, h⟩ u hu
    cases hu with
    | refl => exact hself
    | entry hw hthrough hu => exact h _ hw hthrough u hu

theorem throughout_shared_iff {p : Nat} :
    Throughout heap Through P (.shared p) ↔
      P (.shared p) ∧ ∀ w, heap[p]? = some w → Throughout heap Through P w := by
  constructor
  · exact fun h => ⟨h _ (.refl _), fun w hw u hu => h u (.place hw hu)⟩
  · rintro ⟨hself, h⟩ u hu
    cases hu with
    | refl => exact hself
    | place hw hu => exact h _ hw u hu

/-- What holds inside a value and inside the containers at some places, which name no others,
holds of all that is reached.  Inside a value no place leads on. -/
theorem Throughout.of_closed {Known : Nat → Prop} {v : Value}
    (hv : Throughout [] Through (fun w => P w ∧ ∀ p, w = .shared p → Known p) v)
    (hknown : ∀ p, Known p → ∀ w, heap[p]? = some w →
      Throughout [] Through (fun w => P w ∧ ∀ p, w = .shared p → Known p) w) :
    Throughout heap Through P v := by
  intro u hu
  induction hu with
  | refl v => exact (hv v (.refl v)).1
  | list hw h ih => exact ih ((throughout_list_iff.mp hv).2 _ hw)
  | tuple hw h ih => exact ih ((throughout_tuple_iff.mp hv).2 _ hw)
  | entry hw hthrough h ih => exact ih ((throughout_dict_iff.mp hv).2 _ hw hthrough)
  | @place p w _ hw h ih =>
    exact ih (hknown p ((hv _ (.refl _)).2 p rfl) w hw)

end Throughout

/-- Places met so far, each once, with depth left for all others. -/
structure Unmet (heap : Heap) (depth : Nat) (met : List Nat) : Prop where
  nodup : met.Nodup
  lt_length : ∀ p ∈ met, p < heap.length
  length_le : heap.length ≤ depth + met.length

namespace Unmet

variable {heap : Heap} {depth : Nat} {met : List Nat}

theorem initial (heap : Heap) : Unmet heap heap.length [] :=
  ⟨List.nodup_nil, fun _ hp => absurd hp List.not_mem_nil, Nat.le_add_right _ _⟩

theorem succ (h : Unmet heap depth met) : Unmet heap (depth + 1) met :=
  ⟨h.nodup, h.lt_length, by have := h.length_le; omega⟩

/-- A new place is met at one less depth. -/
theorem cons (h : Unmet heap depth met) {p : Nat} {v : Value} (hv : heap[p]? = some v)
    (hnew : p ∉ met) : ∃ d, depth = d + 1 ∧ Unmet heap d (p :: met) := by
  have hp : p < heap.length := (List.getElem?_eq_some_iff.mp hv).1
  have hnodup : (p :: met).Nodup := List.nodup_cons.mpr ⟨hnew, h.nodup⟩
  have hlt : ∀ q ∈ p :: met, q < heap.length := List.forall_mem_cons.mpr ⟨hp, h.lt_length⟩
  -- Otherwise more places were met than there are.
  have hroom : (p :: met).length ≤ heap.length := by
    have hsub : p :: met ⊆ List.range heap.length := fun q hq => List.mem_range.mpr (hlt q hq)
    simpa using hnodup.length_le_of_subset hsub
  have hle := h.length_le
  rw [List.length_cons] at hroom
  exact ⟨depth - 1, by omega, hnodup, hlt, by rw [List.length_cons]; omega⟩

end Unmet

end PromptShelf
