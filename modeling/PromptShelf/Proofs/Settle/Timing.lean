/-
Outcomes and the order of ends.

Ends come in some order; each is put into the place of its call, and there are outcomes as soon as
no place is empty.  The places are then the ends as the calls stand, and nothing is left of the
order in which they came.

* **`settle_eq`** — outcomes are there exactly if every call has ended, and they are made of the
  ends as the calls stand;
* **`outcomes_eq_ok`**, **`outcomes_eq_error`** — what they are, and which of several stops counts;
* **`settle_timeless`** — waiting for calls, whatever their ends and whatever the order of these.
-/
import Mathlib.Data.List.Forall2
import PromptShelf.Settle

namespace PromptShelf.Settle

variable {α : Type}

/-- The outcome that a call leaves behind with its end.  A stop leaves none. -/
inductive Leaves : Ending α → Outcome α → Prop
  | returned (value : α) : Leaves (.returned value) (.returned value)
  | failed (error : Error) : Leaves (.failed error) (.failed error)

theorem Leaves.isOk_eq {e : Ending α} {o : Outcome α} (h : Leaves e o) :
    o.isOk = e.isReturned := by
  cases h <;> rfl

/-- The call was stopped from outside. -/
def IsStop (e : Ending α) : Prop := ∃ stop, e = .stopped stop

theorem exists_leaves {e : Ending α} (h : ¬ IsStop e) : ∃ o, Leaves e o := by
  cases e with
  | returned value => exact ⟨_, .returned value⟩
  | failed error => exact ⟨_, .failed error⟩
  | stopped stop => exact absurd ⟨stop, rfl⟩ h

/-! ### When there are outcomes -/

theorem mapM_id_of_none_mem {places : Places α} (h : none ∈ places) : places.mapM id = none := by
  induction places with
  | nil => exact absurd h List.not_mem_nil
  | cons p rest ih =>
    rw [List.mapM_cons]
    cases p with
    | none => rfl
    | some e =>
      have hrest : none ∈ rest := by simpa using h
      rw [ih hrest]
      rfl

theorem mapM_id_map_some (endings : List (Ending α)) :
    (endings.map some).mapM id = some endings := by
  induction endings with
  | nil => rfl
  | cons e rest ih =>
    rw [List.map_cons, List.mapM_cons, ih]
    rfl

/-- The place of a call stays empty until the call ends. -/
theorem none_mem_collect {endings : List (Ending α)} {order : List Nat} {i : Nat}
    (hi : i < endings.length) (hmissing : i ∉ order) : none ∈ collect endings order := by
  refine List.mem_of_getElem? (i := i) ?_
  rw [collect, getElem?_foldl_place _ _ _ List.length_replicate, if_neg fun h => hmissing h.1,
    List.getElem?_replicate, if_pos hi]

theorem settle_eq (endings : List (Ending α)) (order : List Nat) :
    settle endings order =
      if ∀ i < endings.length, i ∈ order then some (outcomes endings) else none := by
  rw [settle, settled?]
  split
  · next hall => rw [collect_of_forall_mem endings order hall, mapM_id_map_some, Option.map_some]
  · next hsome =>
    push Not at hsome
    obtain ⟨i, hi, hmissing⟩ := hsome
    rw [mapM_id_of_none_mem (none_mem_collect hi hmissing), Option.map_none]

/-- However many turns the calls take, each of them ends once. -/
theorem finishOrder_perm (turns : List Nat) :
    (finishOrder turns).Perm (List.range turns.length) :=
  List.mergeSort_perm _ _

/-! ### What they are -/

theorem outcomes_cons {e : Ending α} {o : Outcome α} (h : Leaves e o) (rest : List (Ending α)) :
    outcomes (e :: rest) = (outcomes rest).map (o :: ·) := by
  cases h <;> rfl

theorem outcomes_eq_ok {endings : List (Ending α)} (h : ∀ e ∈ endings, ¬ IsStop e) :
    ∃ outs, outcomes endings = .ok outs ∧ List.Forall₂ Leaves endings outs := by
  induction endings with
  | nil => exact ⟨[], rfl, .nil⟩
  | cons e rest ih =>
    obtain ⟨hfirst, hrest⟩ := List.forall_mem_cons.mp h
    obtain ⟨o, ho⟩ := exists_leaves hfirst
    obtain ⟨outs, houts, hleaves⟩ := ih hrest
    refine ⟨o :: outs, ?_, .cons ho hleaves⟩
    rw [outcomes_cons ho, houts]
    rfl

/-- The first stop counts, whatever comes behind it. -/
theorem outcomes_eq_error {front : List (Ending α)} (h : ∀ e ∈ front, ¬ IsStop e) (stop : Stop)
    (back : List (Ending α)) : outcomes (front ++ .stopped stop :: back) = .error stop := by
  induction front with
  | nil => rfl
  | cons e front ih =>
    obtain ⟨hfirst, hfront⟩ := List.forall_mem_cons.mp h
    obtain ⟨o, ho⟩ := exists_leaves hfirst
    rw [List.cons_append, outcomes_cons ho, ih hfront]
    rfl

/-- Whatever the ends of some calls and in whatever order they come, there is a result exactly if
every call has ended, and any two orders give the same one.  If no call was stopped it is one
outcome for each call, at the place of the call: the value that was returned, or the error that was
raised.  Otherwise it is the stop of the first stopped call, as the calls stand.  Calls that take
any numbers of turns end each once, so they come to such a result. -/
theorem settle_timeless (endings : List (Ending α)) :
    (∀ order, (settle endings order).isSome ↔ ∀ i < endings.length, i ∈ order) ∧
      (∀ order result, settle endings order = some result →
        (∀ order' result', settle endings order' = some result' → result' = result) ∧
        ((∀ e ∈ endings, ¬ IsStop e) → ∃ outs, result = .ok outs ∧
          List.Forall₂ (fun e o => Leaves e o ∧ o.isOk = e.isReturned) endings outs) ∧
        ∀ front stop back, endings = front ++ .stopped stop :: back →
          (∀ e ∈ front, ¬ IsStop e) → result = .error stop) ∧
      ∀ turns, turns.length = endings.length →
        (finishOrder turns).Perm (List.range endings.length) ∧
          (settle endings (finishOrder turns)).isSome := by
  have hsome : ∀ order, (settle endings order).isSome ↔ ∀ i < endings.length, i ∈ order := by
    intro order
    rw [settle_eq]
    split
    · next hall => simpa using hall
    · next hmissing => simpa using hmissing
  have hresult : ∀ order result, settle endings order = some result →
      outcomes endings = result := by
    intro order result h
    have hall := (hsome order).mp (by rw [h]; rfl)
    rw [settle_eq, if_pos hall] at h
    exact Option.some.inj h
  refine ⟨hsome, fun order result h => ⟨fun order' result' h' => ?_, fun hno => ?_, ?_⟩,
    fun turns hturns => ?_⟩
  · rw [← hresult order result h, ← hresult order' result' h']
  · obtain ⟨outs, houts, hleaves⟩ := outcomes_eq_ok hno
    refine ⟨outs, (hresult order result h).symm.trans houts, ?_⟩
    exact hleaves.imp fun e o ho => ⟨ho, ho.isOk_eq⟩
  · rintro front stop back rfl hno
    rw [← hresult order result h, outcomes_eq_error hno]
  · have hperm := finishOrder_perm turns
    rw [hturns] at hperm
    refine ⟨hperm, (hsome _).mpr fun i hi => ?_⟩
    exact hperm.mem_iff.mpr (List.mem_range.mpr hi)

theorem settle_timeless_two_stops :
    let endings : List (Ending Nat) :=
      [.returned 1, .stopped (.other "BaseStop" "x"), .failed .emptyPath, .stopped .cancelled]
    let calm : List (Ending Nat) := [.returned 1, .failed .emptyPath]
    settle endings [3, 2, 0] = none ∧
      settle endings [3, 2, 0, 1] = some (.error (.other "BaseStop" "x")) ∧
      settle calm [1, 0] = some (.ok [.returned 1, .failed .emptyPath]) := by
  intro endings calm
  have hno : ∀ e ∈ calm, ¬ IsStop e := by
    rintro e he ⟨stop, rfl⟩
    simp [calm] at he
  obtain ⟨hsome, hresult, -⟩ := settle_timeless endings
  obtain ⟨hsome', hresult', -⟩ := settle_timeless calm
  refine ⟨?_, ?_, ?_⟩
  · have hnone := (hsome [3, 2, 0]).not.mpr (by decide)
    simpa using hnone
  · obtain ⟨result, h⟩ := Option.isSome_iff_exists.mp ((hsome [3, 2, 0, 1]).mpr (by decide))
    obtain ⟨-, -, hstop⟩ := hresult _ _ h
    have hfirst := hstop [.returned 1] _ [.failed .emptyPath, .stopped .cancelled] rfl
      fun e he => hno e (List.mem_append_left [_] he)
    rw [h, hfirst]
  · obtain ⟨result, h⟩ := Option.isSome_iff_exists.mp ((hsome' [1, 0]).mpr (by decide))
    obtain ⟨-, hcalm, -⟩ := hresult' _ _ h
    obtain ⟨outs, rfl, hleaves⟩ := hcalm hno
    obtain ⟨_, _, ⟨⟨value⟩, -⟩, hrest, rfl⟩ := List.forall₂_cons_left_iff.mp hleaves
    obtain ⟨_, _, ⟨⟨error⟩, -⟩, hnil, rfl⟩ := List.forall₂_cons_left_iff.mp hrest
    obtain rfl := List.forall₂_nil_left_iff.mp hnil
    exact h

end PromptShelf.Settle
