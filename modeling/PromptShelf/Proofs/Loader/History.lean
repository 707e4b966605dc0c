/-
What has happened in a run.

A run is known by its steps.  `requested` are the paths that were asked for, one for each
caller, `tickets` the reads that the callers wait for, and `ReaderAnswers` says with which
result the reader has answered a read of a path.

What one step does to a read, to the cache and to a caller is said here once:

* **`read?_step`** — a read keeps its key and path, and its answer once that has come;
* **`get?_step`** — a text in the cache comes from a read of its key that ended well;
* **`callers_step`** — a caller waits until it is stopped or told what its read gave.
-/
import PromptShelf.Proofs.Loader.SingleFlight

namespace PromptShelf.Loader

/-- The paths that are asked for, in the order of the callers. -/
def requested (steps : List Step) : List String :=
  steps.filterMap fun
    | .call path => some path
    | _ => none

/-- The read that a call made in a state waits for, if it is not answered without one. -/
def ticket? (l : Loader) (s : State) (requested : String) : Option Nat :=
  match l.resolver.resolve requested with
  | .error _ => none
  | .ok path =>
    match s.cache.get? (l.resolver.key path) with
    | some _ => none
    | none => some ((s.inFlight.lookup (l.resolver.key path)).getD s.reads.length)

/-- The reads that callers wait for, in the order of the callers. -/
def tickets (l : Loader) (s : State) : List Step → List (Option Nat)
  | [] => []
  | x :: rest =>
    match x with
    | .call requested => l.ticket? s requested :: tickets l (l.step s x) rest
    | _ => tickets l (l.step s x) rest

/-- In the course of some steps the reader has been asked for the file at a path, as the
read `i`, and has answered with a result. -/
def ReaderAnswers (l : Loader) (s : State) (steps : List Step) (i : Nat) (path : String)
    (r : ReadResult) : Prop :=
  ∃ before after key since, steps = before ++ .complete i (.result r) :: after ∧
    (l.run s before).read? i = some ⟨key, path, .running since⟩

/-- The reader answers with results only. -/
def ResultsOnly (steps : List Step) : Prop :=
  ∀ i answer, Step.complete i answer ∈ steps → ∃ r, answer = .result r

variable {l : Loader} {s : State} {steps : List Step}

/-! ### Histories grow -/

theorem requested_append (steps more : List Step) :
    requested (steps ++ more) = requested steps ++ requested more :=
  List.filterMap_append

theorem tickets_append (l : Loader) (s : State) (steps more : List Step) :
    l.tickets s (steps ++ more) = l.tickets s steps ++ l.tickets (l.run s steps) more := by
  induction steps generalizing s with
  | nil => rfl
  | cons x rest ih =>
    have hrest := ih (l.step s x)
    cases x with
    | call path => exact congrArg (l.ticket? s path :: ·) hrest
    | _ => exact hrest

theorem length_tickets (l : Loader) (s : State) (steps : List Step) :
    (l.tickets s steps).length = (requested steps).length := by
  induction steps generalizing s with
  | nil => rfl
  | cons x rest ih =>
    have hrest := ih (l.step s x)
    cases x with
    | call path => exact congrArg (· + 1) hrest
    | _ => exact hrest

theorem requested_of_not_call {x : Step} (hx : ∀ path, x ≠ .call path) : requested [x] = [] := by
  cases x with
  | call path => exact absurd rfl (hx path)
  | _ => rfl

theorem tickets_of_not_call {x : Step} (hx : ∀ path, x ≠ .call path) : l.tickets s [x] = [] := by
  cases x with
  | call path => exact absurd rfl (hx path)
  | _ => rfl

theorem ReaderAnswers.append {i : Nat} {path : String} {r : ReadResult}
    (h : ReaderAnswers l s steps i path r) (more : List Step) :
    ReaderAnswers l s (steps ++ more) i path r := by
  obtain ⟨before, after, key, since, rfl, hread⟩ := h
  exact ⟨before, after ++ more, key, since, by simp, hread⟩

theorem readerAnswers_complete {i : Nat} {key path : String} {since : Binary64} {r : ReadResult}
    (hread : (l.run s steps).read? i = some ⟨key, path, .running since⟩) :
    ReaderAnswers l s (steps ++ [.complete i (.result r)]) i path r :=
  ⟨steps, [], key, since, rfl, hread⟩

/-! ### What a step does to a read -/

/-- A read keeps its key and path, and its answer once that has come. -/
theorem read?_step {i : Nat} {key path : String} {stage : Stage}
    (h : s.read? i = some ⟨key, path, stage⟩) (x : Step) :
    ∃ stage', (l.step s x).read? i = some ⟨key, path, stage'⟩ ∧
      (stage'.answer? = stage.answer? ∨
        ∃ since answer, stage = .running since ∧ x = .complete i answer ∧
          stage'.answer? = some answer) := by
  generalize ht : l.step s x = t
  have hmove := ht ▸ moves_step l s x
  -- A step that sets the stage of a read leaves all other reads as they are.
  have hset : ∀ {j : Nat} {key' path' : String} {old new : Stage},
      s.read? j = some ⟨key', path', old⟩ → t.reads = s.reads.set j ⟨key', path', new⟩ →
      (new.answer? = old.answer? ∨ ∃ since answer, old = .running since ∧
        x = .complete j answer ∧ new.answer? = some answer) →
      ∃ stage', t.read? i = some ⟨key, path, stage'⟩ ∧ (stage'.answer? = stage.answer? ∨
        ∃ since answer, stage = .running since ∧ x = .complete i answer ∧
          stage'.answer? = some answer) := by
    intro j key' path' old new hread hreads hanswer
    rw [State.read?, hreads, getElem?_set_of_some hread]
    by_cases hj : j = i
    · subst hj
      obtain ⟨rfl, rfl, rfl⟩ := Read.mk.inj (Option.some.inj (hread.symm.trans h))
      exact ⟨new, if_pos rfl, hanswer⟩
    · exact ⟨stage, by rw [if_neg hj]; exact h, .inl rfl⟩
  cases hmove with
  | refused | hit | joined | joinedLate | delivered | cancelled | cleared | advanced | idle =>
    exact ⟨stage, h, .inl rfl⟩
  | started =>
    obtain ⟨hlt, -⟩ := List.getElem?_eq_some_iff.mp h
    exact ⟨stage, (List.getElem?_append_left hlt).trans h, .inl rfl⟩
  | begun hread => exact hset hread rfl (.inl rfl)
  | stored hread => exact hset hread rfl (.inr ⟨_, _, rfl, rfl, rfl⟩)
  | failed hread => exact hset hread rfl (.inr ⟨_, _, rfl, rfl, rfl⟩)
  | broken hread => exact hset hread rfl (.inr ⟨_, _, rfl, rfl, rfl⟩)
  | announced hread => exact hset hread rfl (.inl rfl)

theorem read?_step_of_answer {i : Nat} {key path : String} {stage : Stage} {answer : Answer}
    (h : s.read? i = some ⟨key, path, stage⟩) (hanswer : stage.answer? = some answer) (x : Step) :
    ∃ stage', (l.step s x).read? i = some ⟨key, path, stage'⟩ ∧ stage'.answer? = some answer := by
  obtain ⟨stage', hread, hsame | ⟨_, _, rfl, -, -⟩⟩ := read?_step (l := l) h x
  · exact ⟨stage', hread, hsame.trans hanswer⟩
  · exact absurd hanswer (by simp [Stage.answer?])

/-- Nor does the announcement of a read go away. -/
theorem read?_step_of_announced {i : Nat} {key path : String} {answer : Answer}
    (h : s.read? i = some ⟨key, path, .announced answer⟩) (x : Step) :
    (l.step s x).read? i = some ⟨key, path, .announced answer⟩ := by
  generalize ht : l.step s x = t
  have hmove := ht ▸ moves_step l s x
  have hset : ∀ {j : Nat} {old new : Read}, s.read? j = some old → t.reads = s.reads.set j new →
      old.stage ≠ .announced answer → t.read? i = some ⟨key, path, .announced answer⟩ := by
    intro j old new hread hreads hstage
    have hj : j ≠ i := by
      rintro rfl
      obtain rfl := Option.some.inj (hread.symm.trans h)
      exact hstage rfl
    rw [State.read?, hreads, getElem?_set_of_some hread, if_neg hj]
    exact h
  cases hmove with
  | refused | hit | joined | joinedLate | delivered | cancelled | cleared | advanced | idle =>
    exact h
  | started =>
    obtain ⟨hlt, -⟩ := List.getElem?_eq_some_iff.mp h
    exact (List.getElem?_append_left hlt).trans h
  | begun hread => exact hset hread rfl (by simp)
  | stored hread | failed hread | broken hread => exact hset hread rfl (by simp)
  | announced hread => exact hset hread rfl (by simp)

theorem read?_run_of_announced {i : Nat} {key path : String} {answer : Answer}
    (h : s.read? i = some ⟨key, path, .announced answer⟩) (l : Loader) (steps : List Step) :
    (l.run s steps).read? i = some ⟨key, path, .announced answer⟩ := by
  induction steps generalizing s with
  | nil => exact h
  | cons x rest ih => exact ih (read?_step_of_announced h x)

theorem answer?_step {i : Nat} {answer : Answer} (h : s.answer? i = some answer) (x : Step) :
    (l.step s x).answer? i = some answer := by
  obtain ⟨⟨key, path, stage⟩, hread, hanswer⟩ := Option.bind_eq_some_iff.mp h
  obtain ⟨stage', hread', hanswer'⟩ := read?_step_of_answer (l := l) hread hanswer x
  rw [State.answer?, hread']
  exact hanswer'

theorem exists_call_of_read?_step {i : Nat} {r : Read} {x : Step} (h : s.read? i = none)
    (h' : (l.step s x).read? i = some r) :
    ∃ requested path, x = .call requested ∧ l.resolver.resolve requested = .ok path ∧
      r = ⟨l.resolver.key path, path, .queued⟩ := by
  generalize ht : l.step s x = t at h'
  have hmove := ht ▸ moves_step l s x
  have hset : ∀ {j : Nat} {r' : Read}, t.reads = s.reads.set j r' → False := by
    intro j r' hreads
    rw [State.read?, List.getElem?_eq_none_iff] at h
    rw [State.read?, hreads, List.getElem?_eq_none (by rw [List.length_set]; exact h)] at h'
    exact absurd h' (by simp)
  cases hmove with
  | refused | hit | joined | joinedLate | delivered | cancelled | cleared | advanced | idle =>
    exact absurd (h.symm.trans h') (by simp)
  | started hresolve =>
    refine ⟨_, _, rfl, hresolve, ?_⟩
    rw [State.read?, List.getElem?_eq_none_iff] at h
    rw [State.read?, List.getElem?_append_right h, List.getElem?_singleton] at h'
    split at h'
    · exact (Option.some.inj h').symm
    · exact absurd h' (by simp)
  | begun | stored | failed | broken | announced => exact (hset rfl).elim

/-- Reads are started by calls alone, so a read after another step was there before. -/
theorem read?_of_step {i : Nat} {key path : String} {stage' : Stage} {x : Step}
    (hx : ∀ requested, x ≠ .call requested)
    (h : (l.step s x).read? i = some ⟨key, path, stage'⟩) :
    ∃ stage, s.read? i = some ⟨key, path, stage⟩ ∧ (stage'.answer? = stage.answer? ∨
      ∃ since answer, stage = .running since ∧ x = .complete i answer ∧
        stage'.answer? = some answer) := by
  cases hold : s.read? i with
  | none =>
    obtain ⟨requested, path, rfl, -⟩ := exists_call_of_read?_step hold h
    exact absurd rfl (hx requested)
  | some old =>
    obtain ⟨key', path', stage⟩ := old
    obtain ⟨stage'', hread, hchange⟩ := read?_step (l := l) hold x
    obtain ⟨rfl, rfl, rfl⟩ := Read.mk.inj (Option.some.inj (hread.symm.trans h))
    exact ⟨stage, rfl, hchange⟩

/-! ### What a step does to the cache -/

/-- A text in the cache was there, or it comes from a read of its key that ends well. -/
theorem get?_step {key text : String} {x : Step}
    (h : (l.step s x).cache.get? key = some text) :
    s.cache.get? key = some text ∨ ∃ i path since r,
      s.read? i = some ⟨key, path, .running since⟩ ∧ x = .complete i (.result r) ∧
        r.status = .ok ∧ content r = text := by
  generalize ht : l.step s x = t at h
  have hmove := ht ▸ moves_step l s x
  cases hmove with
  | stored hread hok =>
    -- A write does not replace a text, so an old one wins over the text that was read.
    rename_i i key' path since r log
    rw [show Cache.get? _ key = (s.cache.put key' (content r)).get? key from rfl,
      Cache.get?_put] at h
    cases hold : s.cache.get? key with
    | some text' =>
      rw [hold, Option.some_or] at h
      exact .inl h
    | none =>
      rw [hold, Option.none_or] at h
      split at h
      · rename_i hkey
        subst hkey
        exact .inr ⟨i, path, since, r, hread, rfl, hok, Option.some.inj h⟩
      · exact absurd h (by simp)
  | cleared => exact absurd h (by simp [Cache.get?])
  | _ => exact .inl h

theorem get?_step_of_ne_clear {key text : String} {x : Step} (hx : x ≠ .clear)
    (h : s.cache.get? key = some text) : (l.step s x).cache.get? key = some text := by
  generalize ht : l.step s x = t
  have hmove := ht ▸ moves_step l s x
  cases hmove with
  | stored =>
    rw [show Cache.get? _ key = (s.cache.put _ _).get? key from rfl, Cache.get?_put, h,
      Option.some_or]
  | cleared => exact absurd rfl hx
  | _ => exact h

/-! ### What a step does to a caller -/

/-- A step leaves a caller as it is, stops it, or tells it the answer of the read it waits
for. -/
theorem callers_step {c : Nat} {caller : Caller} (h : s.callers[c]? = some caller) (l : Loader)
    (x : Step) :
    (l.step s x).callers[c]? = some caller ∨ ∃ i, caller = .waiting i ∧
      ((x = .cancel c ∧ (l.step s x).callers[c]? = some (.done (.stopped .cancelled))) ∨
        ∃ key path answer, s.read? i = some ⟨key, path, .announced answer⟩ ∧
          (l.step s x).callers[c]? = some (.done (l.outcome key answer))) := by
  obtain ⟨hlt, -⟩ := List.getElem?_eq_some_iff.mp h
  generalize ht : l.step s x = t
  have hmove := ht ▸ moves_step l s x
  cases hmove with
  | refused | hit | joined | joinedLate | started =>
    exact .inl ((List.getElem?_append_left hlt).trans h)
  | begun | stored | failed | broken | announced | cleared | advanced | idle => exact .inl h
  | @delivered d i key path answer hcaller hread =>
    have hset := getElem?_set_of_some hcaller (.done (l.outcome key answer)) c
    by_cases hd : d = c
    · subst hd
      obtain rfl := Option.some.inj (hcaller.symm.trans h)
      exact .inr ⟨i, rfl, .inr ⟨key, path, answer, hread, hset.trans (if_pos rfl)⟩⟩
    · exact .inl (hset.trans ((if_neg hd).trans h))
  | @cancelled d i hcaller =>
    have hset := getElem?_set_of_some hcaller (.done (.stopped .cancelled)) c
    by_cases hd : d = c
    · subst hd
      obtain rfl := Option.some.inj (hcaller.symm.trans h)
      exact .inr ⟨i, rfl, .inl ⟨rfl, hset.trans (if_pos rfl)⟩⟩
    · exact .inl (hset.trans ((if_neg hd).trans h))

theorem callers_run_of_done {c : Nat} {ending : Ending String}
    (h : s.callers[c]? = some (.done ending)) (l : Loader) (steps : List Step) :
    (l.run s steps).callers[c]? = some (.done ending) := by
  induction steps generalizing s with
  | nil => exact h
  | cons x rest ih =>
    rcases callers_step h l x with h' | ⟨i, hwaiting, -⟩
    · exact ih h'
    · exact absurd hwaiting (by simp)

/-! ### What the reader is asked -/

/-- The reader was asked for the path of every read that has begun. -/
def Asked (s : State) : Prop :=
  ∀ i r, s.read? i = some r → r.stage ≠ .queued → r.path ∈ s.requests

theorem requests_subset_step (l : Loader) (s : State) (x : Step) :
    s.requests ⊆ (l.step s x).requests := by
  generalize ht : l.step s x = t
  have hmove := ht ▸ moves_step l s x
  cases hmove with
  | begun => exact List.subset_append_left ..
  | _ => exact List.Subset.refl _

theorem requests_subset_run (l : Loader) (s : State) (steps : List Step) :
    s.requests ⊆ (l.run s steps).requests := by
  induction steps generalizing s with
  | nil => exact List.Subset.refl _
  | cons x rest ih => exact List.Subset.trans (requests_subset_step l s x) (ih (l.step s x))

theorem Asked.step (h : Asked s) (l : Loader) (x : Step) : Asked (l.step s x) := by
  have hsubset := requests_subset_step l s x
  generalize ht : l.step s x = t at hsubset
  have hmove := ht ▸ moves_step l s x
  -- A read whose stage is set is as good as the others once its path has been asked for.
  have hset : ∀ {j : Nat} {key path : String} {old new : Stage},
      s.read? j = some ⟨key, path, old⟩ → t.reads = s.reads.set j ⟨key, path, new⟩ →
      path ∈ t.requests → Asked t := by
    intro j key path old new hread hreads hpath i r hr hbegun
    rcases read?_of_set hread hreads hr with ⟨-, rfl⟩ | ⟨-, hsame⟩
    · exact hpath
    · exact hsubset (h i r hsame hbegun)
  cases hmove with
  | refused | hit | joined | joinedLate | delivered | cancelled | cleared | advanced | idle =>
    exact h
  | started =>
    intro i r hr hbegun
    rcases Nat.lt_or_ge i s.reads.length with hlt | hge
    · exact h i r ((List.getElem?_append_left hlt).symm.trans hr) hbegun
    · rw [State.read?, List.getElem?_append_right hge] at hr
      obtain rfl := List.mem_singleton.mp (List.mem_of_getElem? hr)
      exact absurd rfl hbegun
  | begun hread => exact hset hread rfl (by simp)
  | stored hread => exact hset hread rfl (h _ _ hread (by simp))
  | failed hread => exact hset hread rfl (h _ _ hread (by simp))
  | broken hread => exact hset hread rfl (h _ _ hread (by simp))
  | announced hread => exact hset hread rfl (h _ _ hread (by simp))

theorem asked_run (h : Asked s) (l : Loader) (steps : List Step) : Asked (l.run s steps) := by
  induction steps generalizing s with
  | nil => exact h
  | cons x rest ih => exact ih (h.step l x)

theorem ReaderAnswers.mem_requests {i : Nat} {path : String} {r : ReadResult}
    (h : ReaderAnswers l s steps i path r) (hs : Asked s) :
    path ∈ (l.run s steps).requests := by
  obtain ⟨before, after, key, since, rfl, hread⟩ := h
  rw [run_append]
  exact requests_subset_run l _ _ (asked_run hs l before i _ hread (by simp))

end PromptShelf.Loader
