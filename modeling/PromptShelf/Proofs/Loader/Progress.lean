/-
Nobody waits in vain.

From wherever a read is, four steps bring it to its end and one of its callers to an
answer: the reader is asked, it answers, the end is announced, and the caller is told.
The steps that the read has already taken change nothing.

* **`ending?_finish`** — after these steps the caller has the answer of the read.
-/
import PromptShelf.Proofs.Loader.Moves

namespace PromptShelf.Loader

variable {l : Loader} {s : State} {c i : Nat} {key path : String}

theorem ending?_eq_some_iff {ending : Ending String} :
    s.ending? c = some ending ↔ s.callers[c]? = some (.done ending) := by
  rw [State.ending?.eq_def]
  split
  · rename_i ending' hcaller
    rw [hcaller]
    simp
  · rename_i hno
    constructor
    · intro h
      exact absurd h (by simp)
    · intro h
      exact absurd h (hno ending)

theorem isSome_of_done {ending : Ending String} (h : s.callers[c]? = some (.done ending)) :
    (s.ending? c).isSome :=
  Option.isSome_iff_exists.mpr ⟨ending, ending?_eq_some_iff.mpr h⟩

theorem begin_of_queued (h : s.read? i = some ⟨key, path, .queued⟩) :
    (begin s i).read? i = some ⟨key, path, .running s.now⟩ ∧ (begin s i).callers = s.callers := by
  rw [begin.eq_def, h]
  have hstage := setStage_eq (s := s.logging (record Log.Severity.debug
    ("Loading template from disk: " ++ key))) h (.running s.now)
  constructor
  · show State.read? (State.setStage _ i (.running s.now)) i = _
    rw [hstage]
    exact (getElem?_set_of_some h _ i).trans (if_pos rfl)
  · rfl

theorem begin_of_ne_queued {stage : Stage} (h : s.read? i = some ⟨key, path, stage⟩)
    (hstage : stage ≠ .queued) : begin s i = s := by
  rw [begin.eq_def, h]
  cases stage with
  | queued => exact absurd rfl hstage
  | running | ended | announced => rfl

theorem complete_of_running {since : Binary64} (h : s.read? i = some ⟨key, path, .running since⟩)
    (r : ReadResult) :
    (complete s i (.result r)).read? i = some ⟨key, path, .ended (.result r)⟩ ∧
      (complete s i (.result r)).callers = s.callers := by
  rw [complete.eq_def, h]
  simp only [setStage_eq h, store]
  have hread := (getElem?_set_of_some h ⟨key, path, .ended (.result r)⟩ i).trans (if_pos rfl)
  split
  · exact ⟨hread, rfl⟩
  · exact ⟨hread, rfl⟩

theorem complete_stores {i : Nat} {key path : String} {since : Binary64}
    (hread : s.read? i = some ⟨key, path, .running since⟩) (r : ReadResult) :
    (complete s i (.result r)).inFlight = s.inFlight ∧
      (r.status = .ok → (complete s i (.result r)).cache = s.cache.put key (content r)) := by
  rw [complete, hread]
  simp only [store]
  constructor
  · split <;> rfl
  · intro hok
    rw [if_pos hok]
    rfl

theorem complete_of_answer? {stage : Stage} {answer : Answer}
    (h : s.read? i = some ⟨key, path, stage⟩) (hstage : stage.answer? = some answer)
    (answer' : Answer) : complete s i answer' = s := by
  rw [complete.eq_def, h]
  cases stage with
  | queued | running => exact absurd hstage (by simp [Stage.answer?])
  | ended | announced => rfl

theorem announce_of_ended {answer : Answer} (h : s.read? i = some ⟨key, path, .ended answer⟩) :
    (announce s i).read? i = some ⟨key, path, .announced answer⟩ ∧
      (announce s i).callers = s.callers := by
  rw [announce.eq_def, h]
  simp only [setStage_eq h]
  exact ⟨(getElem?_set_of_some h _ i).trans (if_pos rfl), trivial⟩

theorem announce_of_announced {answer : Answer}
    (h : s.read? i = some ⟨key, path, .announced answer⟩) : announce s i = s := by
  rw [announce.eq_def, h]

theorem ending?_deliver {answer : Answer} (hcaller : s.callers[c]? = some (.waiting i))
    (h : s.read? i = some ⟨key, path, .announced answer⟩) :
    (l.deliver s c).ending? c = some (l.outcome key answer) := by
  rw [ending?_eq_some_iff, deliver.eq_def, hcaller]
  simp only [h]
  exact (getElem?_set_of_some hcaller _ c).trans (if_pos rfl)

/-! ### From every stage to the end -/

private theorem ending?_of_answer {stage : Stage} {answer : Answer}
    (hcaller : s.callers[c]? = some (.waiting i)) (h : s.read? i = some ⟨key, path, stage⟩)
    (hstage : stage.answer? = some answer) :
    (l.deliver (announce s i) c).ending? c = some (l.outcome key answer) := by
  cases stage with
  | queued | running => exact absurd hstage (by simp [Stage.answer?])
  | ended answer' =>
    obtain rfl := Option.some.inj hstage
    obtain ⟨hread, hcallers⟩ := announce_of_ended h
    exact ending?_deliver (hcallers ▸ hcaller) hread
  | announced answer' =>
    obtain rfl := Option.some.inj hstage
    rw [announce_of_announced h]
    exact ending?_deliver hcaller h

private theorem ending?_of_running {since : Binary64} (hcaller : s.callers[c]? = some (.waiting i))
    (h : s.read? i = some ⟨key, path, .running since⟩) (r : ReadResult) :
    (l.deliver (announce (complete s i (.result r)) i) c).ending? c =
      some (l.outcome key (.result r)) := by
  obtain ⟨hread, hcallers⟩ := complete_of_running h r
  exact ending?_of_answer (hcallers ▸ hcaller) hread rfl

/-- A caller that waits for a read gets its answer once the read has come to its end. -/
theorem ending?_finish {stage : Stage} {r : ReadResult}
    (hcaller : s.callers[c]? = some (.waiting i)) (h : s.read? i = some ⟨key, path, stage⟩)
    (hanswer : ∀ answer, stage.answer? = some answer → answer = .result r) :
    (l.run s [.begin i, .complete i (.result r), .announce i, .deliver c]).ending? c =
      some (l.outcome key (.result r)) := by
  show (l.deliver (announce (complete (begin s i) i (.result r)) i) c).ending? c = _
  cases hstage : stage.answer? with
  | some answer =>
    obtain rfl := hanswer answer hstage
    -- The answer is there: asking the reader again and answering again do nothing.
    have hne : stage ≠ .queued := by
      rintro rfl
      exact absurd hstage (by simp [Stage.answer?])
    rw [begin_of_ne_queued h hne, complete_of_answer? h hstage]
    exact ending?_of_answer hcaller h hstage
  | none =>
    cases stage with
    | queued =>
      obtain ⟨hread, hcallers⟩ := begin_of_queued h
      exact ending?_of_running (hcallers ▸ hcaller) hread r
    | running since =>
      rw [begin_of_ne_queued h (by simp)]
      exact ending?_of_running hcaller h r
    | ended | announced => exact absurd hstage (by simp [Stage.answer?])

end PromptShelf.Loader
