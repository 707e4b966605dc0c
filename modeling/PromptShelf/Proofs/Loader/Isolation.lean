/-
Callers that stop waiting.

A read belongs to no caller: it goes on when the one that started it stops waiting, and when
all that joined it do.  `Interrupted` takes the steps of a run to the same steps with some
callers stopped on the way, and `SameBut` says that two states differ in nothing but callers
that were stopped in the second one.

* **`sameBut_run`** — a run and the same run with callers stopped stay the same but for these;
* **`unfilled_run`** — a key that is being read is not in the cache, so its text is stored
  when it comes;
* **`cancel_isolated`** — both together, at every moment of the two runs.
-/
import PromptShelf.Proofs.Loader.Progress
import PromptShelf.Proofs.Loader.SingleFlight

namespace PromptShelf.Loader

/-- The same steps with callers of a set stopped on the way. -/
inductive Interrupted (C : Nat → Prop) : List Step → List Step → Prop
  | nil : Interrupted C [] []
  | keep {steps interrupted : List Step} (x : Step) (h : Interrupted C steps interrupted) :
    Interrupted C (x :: steps) (x :: interrupted)
  | stop {steps interrupted : List Step} {c : Nat} (hc : C c)
      (h : Interrupted C steps interrupted) : Interrupted C steps (.cancel c :: interrupted)

/-- The states are the same, but some callers of a set were stopped in the second. -/
structure SameBut (C : Nat → Prop) (s t : State) : Prop where
  rest : t = { s with callers := t.callers }
  length : t.callers.length = s.callers.length
  callers : ∀ c, t.callers[c]? = s.callers[c]? ∨
    C c ∧ t.callers[c]? = some (.done (.stopped .cancelled))

/-- A key that is being read is not in the cache. -/
def Unfilled (s : State) : Prop :=
  ∀ i r, s.read? i = some r → r.stage.IsRunning → s.cache.get? r.key = none

variable {l : Loader} {s t : State} {C : Nat → Prop} {steps interrupted : List Step}

/-! ### What a step does to the callers -/

/-- The state with other callers. -/
def State.withCallers (s : State) (callers : List Caller) : State := { s with callers := callers }

@[simp] theorem State.withCallers_callers (s : State) (callers : List Caller) :
    (s.withCallers callers).callers = callers := rfl

@[simp] theorem State.read?_withCallers (s : State) (callers : List Caller) (i : Nat) :
    (s.withCallers callers).read? i = s.read? i := rfl

@[simp] theorem State.withCallers_withCallers (s : State) (callers callers' : List Caller) :
    (s.withCallers callers).withCallers callers' = s.withCallers callers' := rfl

/-- A caller after it may have been told the answer of its read, if this is announced. -/
def told (l : Loader) (s : State) : Caller → Caller
  | .waiting i =>
    match s.read? i with
    | some ⟨key, _, .announced answer⟩ => .done (l.outcome key answer)
    | _ => .waiting i
  | .done ending => .done ending

def stopped : Caller → Caller
  | .waiting _ => .done (.stopped .cancelled)
  | .done ending => .done ending

theorem modify_eq_self {α : Type} {xs : List α} {i : Nat} {f : α → α}
    (h : ∀ x, xs[i]? = some x → f x = x) : xs.modify i f = xs := by
  apply List.ext_getElem?
  intro j
  rw [List.getElem?_modify]
  by_cases hj : i = j
  · subst hj
    cases hx : xs[i]? with
    | none => rfl
    | some x => simp [h x hx]
  · cases xs[j]? <;> simp [hj]

theorem modify_eq_set {α : Type} {xs : List α} {i : Nat} {x : α} (h : xs[i]? = some x)
    (f : α → α) : xs.modify i f = xs.set i (f x) := by
  rw [List.modify_eq_set_getElem?, h]
  rfl

theorem deliver_eq (l : Loader) (s : State) (c : Nat) :
    l.deliver s c = s.withCallers (s.callers.modify c (l.told s)) := by
  rw [deliver.eq_def]
  split
  · rename_i i hcaller
    split
    · rename_i key path answer hread
      rw [modify_eq_set hcaller, told]
      simp only [hread]
      rfl
    · rename_i hother
      rw [modify_eq_self fun x hx => ?_]
      · rfl
      · obtain rfl := Option.some.inj (hcaller.symm.trans hx)
        rw [told.eq_def]
        dsimp only
        split
        · rename_i key path answer hread
          exact absurd hread (hother key path answer)
        · rfl
  · rename_i hdone
    rw [modify_eq_self fun x hx => ?_]
    · rfl
    · cases x with
      | waiting i => exact absurd hx (hdone i)
      | done ending => rfl

theorem cancel_eq (s : State) (c : Nat) :
    cancel s c = s.withCallers (s.callers.modify c stopped) := by
  rw [cancel.eq_def]
  split
  · rename_i i hcaller
    rw [modify_eq_set hcaller]
    rfl
  · rename_i hdone
    rw [modify_eq_self fun x hx => ?_]
    · rfl
    · cases x with
      | waiting i => exact absurd hx (hdone i)
      | done ending => rfl

/-- Who has called before does not matter to a call. -/
theorem call_withCallers (l : Loader) (s : State) (requested : String) :
    ∃ caller, ∀ callers, l.call (s.withCallers callers) requested =
      (l.call s requested).withCallers (callers ++ [caller]) := by
  simp only [call, State.withCallers]
  cases l.resolver.resolve requested with
  | error e => exact ⟨_, fun callers => rfl⟩
  | ok path =>
    dsimp only
    cases s.cache.get? (l.resolver.key path) with
    | some text => exact ⟨.done (.returned text), fun callers => rfl⟩
    | none =>
      dsimp only
      cases s.inFlight.lookup (l.resolver.key path) with
      | none => exact ⟨.waiting s.reads.length, fun callers => rfl⟩
      | some i =>
        simp only [join_eq]
        have hanswer : ∀ callers, State.answer? { s with callers := callers } i = s.answer? i :=
          fun _ => rfl
        simp only [hanswer]
        cases s.answer? i with
        | none => exact ⟨.waiting i, fun callers => rfl⟩
        | some answer =>
          exact ⟨.done (l.outcome (l.resolver.key path) answer), fun callers => rfl⟩

/-- Nor does it to what happens to a read, to a clear and to the clock. -/
theorem step_withCallers {x : Step} (hcall : ∀ requested, x ≠ .call requested)
    (hdeliver : ∀ c, x ≠ .deliver c) (hcancel : ∀ c, x ≠ .cancel c) (l : Loader) (s : State)
    (callers : List Caller) :
    l.step (s.withCallers callers) x = (l.step s x).withCallers callers := by
  cases x with
  | call requested => exact absurd rfl (hcall requested)
  | deliver c => exact absurd rfl (hdeliver c)
  | cancel c => exact absurd rfl (hcancel c)
  | clear => rfl
  | advance seconds => rfl
  | begin i =>
    simp only [step, begin, State.read?_withCallers]
    split <;> rfl
  | complete i answer =>
    simp only [step, complete, State.read?_withCallers]
    split
    · cases answer with
      | raised | stopped => rfl
      | result r =>
        simp only [store]
        split <;> rfl
    · rfl
  | announce i =>
    simp only [step, announce, State.read?_withCallers]
    split <;> rfl

/-! ### Runs with callers stopped -/

namespace SameBut

theorem refl (C : Nat → Prop) (s : State) : SameBut C s s := ⟨rfl, rfl, fun _ => .inl rfl⟩

/-- What leaves a caller that is through as it is may happen to the same caller of both. -/
theorem modify (h : SameBut C s t) (c : Nat) {f : Caller → Caller}
    (hf : ∀ ending, f (.done ending) = .done ending) :
    SameBut C (s.withCallers (s.callers.modify c f)) (t.withCallers (t.callers.modify c f)) := by
  refine ⟨?_, ?_, fun d => ?_⟩
  · conv_lhs => rw [h.rest]
    rfl
  · simp [h.length]
  · simp only [State.withCallers_callers, List.getElem?_modify]
    rcases h.callers d with heq | ⟨hd, hstopped⟩
    · exact .inl (by rw [heq])
    · refine .inr ⟨hd, ?_⟩
      rw [hstopped]
      by_cases hc : c = d
      · simp [hc, hf]
      · simp [hc]

theorem step (h : SameBut C s t) (l : Loader) (x : Step) :
    SameBut C (l.step s x) (l.step t x) := by
  -- A step that tells no caller anything keeps the callers of both states.
  have hother : (∀ requested, x ≠ .call requested) → (∀ c, x ≠ .deliver c) →
      (∀ c, x ≠ .cancel c) → SameBut C (l.step s x) (l.step t x) := by
    intro hcall hdeliver hcancel
    have hs : l.step s x = (l.step s x).withCallers s.callers :=
      step_withCallers hcall hdeliver hcancel l s s.callers
    have ht : l.step t x = (l.step s x).withCallers t.callers := by
      rw [h.rest]
      exact step_withCallers hcall hdeliver hcancel l s t.callers
    rw [ht, hs]
    exact ⟨rfl, h.length, h.callers⟩
  cases x with
  | call requested =>
    obtain ⟨caller, hcall⟩ := call_withCallers l s requested
    have hs : l.step s (.call requested) = (l.call s requested).withCallers (s.callers ++ [caller]) :=
      hcall s.callers
    have ht : l.step t (.call requested) =
        (l.call s requested).withCallers (t.callers ++ [caller]) := by
      rw [h.rest]
      exact hcall t.callers
    rw [hs, ht]
    refine ⟨rfl, by simp [h.length], fun c => ?_⟩
    simp only [State.withCallers_callers]
    -- The new caller has the same place in both states, behind all others.
    rcases Nat.lt_or_ge c s.callers.length with hlt | hge
    · rw [List.getElem?_append_left hlt, List.getElem?_append_left (by rw [h.length]; exact hlt)]
      exact h.callers c
    · rw [List.getElem?_append_right hge,
        List.getElem?_append_right (by rw [h.length]; exact hge), h.length]
      exact .inl rfl
  | deliver c =>
    show SameBut C (l.deliver s c) (l.deliver t c)
    have htold : l.told t = l.told s := by
      rw [h.rest]
      rfl
    rw [deliver_eq, deliver_eq, htold]
    exact h.modify c fun _ => rfl
  | cancel c =>
    show SameBut C (cancel s c) (cancel t c)
    rw [cancel_eq, cancel_eq]
    exact h.modify c fun _ => rfl
  | begin | complete | announce | clear | advance => exact hother (by simp) (by simp) (by simp)

/-- A caller of the second state is stopped. -/
theorem stop (h : SameBut C s t) {c : Nat} (hc : C c) (l : Loader) :
    SameBut C s (l.step t (.cancel c)) := by
  show SameBut C s (cancel t c)
  rw [cancel_eq]
  refine ⟨?_, ?_, fun d => ?_⟩
  · conv_lhs => rw [h.rest]
    rfl
  · simp [h.length]
  · simp only [State.withCallers_callers, List.getElem?_modify]
    by_cases hd : c = d
    · subst hd
      cases hcaller : t.callers[c]? with
      | none => exact .inl (by rw [← (h.callers c).resolve_right (by simp [hcaller]), hcaller]; rfl)
      | some caller =>
        cases caller with
        | waiting i => exact .inr ⟨hc, by simp [stopped]⟩
        | done ending =>
          have hsame := h.callers c
          rw [hcaller] at hsame
          simpa [stopped] using hsame
    · simpa [hd] using h.callers d

end SameBut

theorem sameBut_run (h : Interrupted C steps interrupted) (hst : SameBut C s t) :
    SameBut C (l.run s steps) (l.run t interrupted) := by
  induction h generalizing s t with
  | nil => exact hst
  | keep x _ ih => exact ih (hst.step l x)
  | stop hc _ ih => exact ih (hst.stop hc l)

namespace Interrupted

/-- Every moment of the interrupted run is a moment of the other. -/
theorem split (h : Interrupted C steps interrupted) {before after : List Step}
    (heq : interrupted = before ++ after) :
    ∃ before' after', steps = before' ++ after' ∧ Interrupted C before' before ∧
      Interrupted C after' after := by
  induction h generalizing before with
  | nil =>
    obtain ⟨rfl, rfl⟩ := List.append_eq_nil_iff.mp heq.symm
    exact ⟨[], [], rfl, .nil, .nil⟩
  | @keep steps interrupted x h ih =>
    cases before with
    | nil =>
      obtain rfl : x :: interrupted = after := heq
      exact ⟨[], x :: steps, rfl, .nil, h.keep x⟩
    | cons y before =>
      obtain ⟨rfl, hrest⟩ := List.cons.inj heq
      obtain ⟨before', after', rfl, hbefore, hafter⟩ := ih hrest
      exact ⟨x :: before', after', rfl, hbefore.keep x, hafter⟩
  | @stop steps interrupted c hc h ih =>
    cases before with
    | nil =>
      obtain rfl : .cancel c :: interrupted = after := heq
      exact ⟨[], steps, rfl, .nil, h.stop hc⟩
    | cons y before =>
      obtain ⟨rfl, hrest⟩ := List.cons.inj heq
      obtain ⟨before', after', rfl, hbefore, hafter⟩ := ih hrest
      exact ⟨before', after', rfl, hbefore.stop hc, hafter⟩

/-- And the other way round. -/
theorem split_left (h : Interrupted C steps interrupted) {before after : List Step}
    (heq : steps = before ++ after) :
    ∃ before' after', interrupted = before' ++ after' ∧ Interrupted C before before' ∧
      Interrupted C after after' := by
  induction h generalizing before with
  | nil =>
    obtain ⟨rfl, rfl⟩ := List.append_eq_nil_iff.mp heq.symm
    exact ⟨[], [], rfl, .nil, .nil⟩
  | @keep steps interrupted x h ih =>
    cases before with
    | nil =>
      obtain rfl : x :: steps = after := heq
      exact ⟨[], x :: interrupted, rfl, .nil, h.keep x⟩
    | cons y before =>
      obtain ⟨rfl, hrest⟩ := List.cons.inj heq
      obtain ⟨before', after', rfl, hbefore, hafter⟩ := ih hrest
      exact ⟨x :: before', after', rfl, hbefore.keep x, hafter⟩
  | @stop steps interrupted c hc h ih =>
    obtain ⟨before', after', rfl, hbefore, hafter⟩ := ih heq
    exact ⟨.cancel c :: before', after', rfl, hbefore.stop hc, hafter⟩

end Interrupted

/-! ### Reads go on without their callers -/

theorem unfilled_step (h : Unfilled s) (hflight : SingleFlight s) (l : Loader) (x : Step) :
    Unfilled (l.step s x) := by
  generalize ht : l.step s x = t
  have hmove := ht ▸ moves_step l s x
  intro i r hread hrunning
  cases hmove with
  | refused | hit | joined | joinedLate | delivered | cancelled | advanced | idle =>
    exact h i r hread hrunning
  | cleared => rfl
  | started _ hcache =>
    rcases Nat.lt_or_ge i s.reads.length with hlt | hge
    · exact h i r ((List.getElem?_append_left hlt).symm.trans hread) hrunning
    · rw [State.read?, List.getElem?_append_right hge] at hread
      obtain rfl := List.mem_singleton.mp (List.mem_of_getElem? hread)
      exact hcache
  | begun hold =>
    rcases read?_of_set hold rfl hread with ⟨rfl, rfl⟩ | ⟨-, hsame⟩
    · exact h _ ⟨_, _, .queued⟩ hold trivial
    · exact h i r hsame hrunning
  | failed hold | broken hold | announced hold =>
    rcases read?_of_set hold rfl hread with ⟨rfl, rfl⟩ | ⟨-, hsame⟩
    · exact hrunning.elim
    · exact h i r hsame hrunning
  | @stored j key path since result log hold =>
    rcases read?_of_set hold rfl hread with ⟨rfl, rfl⟩ | ⟨hne, hsame⟩
    · exact hrunning.elim
    · -- The read that ends is the only one of its key, so this one has another key.
      have hkey : r.key ≠ key := fun heq => hne (hflight.eq_of_mem
        ((hflight.mem_iff key j).mpr ⟨_, hold, rfl, Stage.isOpen_running since⟩)
        ((hflight.mem_iff key i).mpr ⟨r, hsame, heq, .inl hrunning⟩))
      rw [show Cache.get? _ r.key = (s.cache.put key (content result)).get? r.key from rfl,
        Cache.get?_put, h i r hsame hrunning, if_neg hkey]
      rfl

theorem unfilled_run (h : Unfilled s) (hflight : SingleFlight s) (l : Loader)
    (steps : List Step) : Unfilled (l.run s steps) := by
  induction steps generalizing s with
  | nil => exact h
  | cons x rest ih => exact ih (unfilled_step h hflight l x) (hflight.step l x)

theorem begin_of_isRunning {i : Nat} {key path : String} {stage : Stage}
    (hread : s.read? i = some ⟨key, path, stage⟩) (hrunning : stage.IsRunning) :
    ∃ since, (begin s i).read? i = some ⟨key, path, .running since⟩ ∧
      (begin s i).cache = s.cache ∧ (begin s i).inFlight = s.inFlight := by
  cases stage with
  | queued =>
    refine ⟨s.now, (begin_of_queued hread).1, ?_⟩
    rw [begin, hread]
    exact ⟨rfl, rfl⟩
  | running since =>
    rw [begin_of_ne_queued hread (by simp)]
    exact ⟨since, hread, rfl, rfl⟩
  | ended | announced => exact hrunning.elim

theorem announce_keeps (s : State) (i : Nat) :
    (announce s i).cache = s.cache ∧ (announce s i).inFlight ⊆ s.inFlight := by
  rw [announce.eq_def]
  split
  · exact ⟨rfl, (List.filter_sublist ..).subset⟩
  · exact ⟨rfl, List.Subset.refl _⟩

/-- A read that runs comes to its end with the reader's answer, whoever waits for it: the text
is stored, and the key leaves the flight. -/
theorem read_finishes (h : Unfilled s) (hflight : SingleFlight s) {i : Nat} {key path : String}
    {stage : Stage} (hread : s.read? i = some ⟨key, path, stage⟩) (hrunning : stage.IsRunning)
    (l : Loader) (r : ReadResult) :
    let t := l.run s [.begin i, .complete i (.result r), .announce i]
    t.read? i = some ⟨key, path, .announced (.result r)⟩ ∧ t.inFlight.lookup key = none ∧
      (r.status = .ok → t.cache.get? key = some (content r)) := by
  intro t
  have hflight' : SingleFlight t := singleFlight_run hflight l _
  obtain ⟨since, hbegun, hcache, hinFlight⟩ := begin_of_isRunning hread hrunning
  obtain ⟨hended, -⟩ := complete_of_running hbegun r
  obtain ⟨hannounced, -⟩ := announce_of_ended hended
  obtain ⟨hinFlight', hstored⟩ := complete_stores hbegun r
  obtain ⟨hkept, hsubset⟩ := announce_keeps (complete (begin s i) i (.result r)) i
  refine ⟨hannounced, ?_, fun hok => ?_⟩
  · rw [hinFlight', hinFlight] at hsubset
    cases hlookup : t.inFlight.lookup key with
    | none => rfl
    | some j =>
      -- What is in flight was so before, where this read was the only one of its key.
      obtain ⟨r', hr', hkey, hopen⟩ := hflight'.lookup_iff.mp hlookup
      have hj := hsubset ((hflight'.mem_iff key j).mpr ⟨r', hr', hkey, hopen⟩)
      obtain rfl := hflight.eq_of_mem hj ((hflight.mem_iff key i).mpr ⟨_, hread, rfl, .inl hrunning⟩)
      obtain rfl := Option.some.inj (hannounced.symm.trans hr')
      exact absurd hopen (Stage.not_isOpen_announced _)
  · show (announce (complete (begin s i) i (.result r)) i).cache.get? key = _
    rw [hkept, hstored hok, hcache, Cache.get?_put, h i _ hread hrunning, if_pos rfl]
    rfl

/-! ### Everybody stops waiting -/

theorem interrupted_cancels (cs : List Nat) :
    Interrupted (fun _ => True) [] (cs.map Step.cancel) := by
  induction cs with
  | nil => exact .nil
  | cons c rest ih => exact ih.stop trivial

theorem stopped_stopped (caller : Caller) : stopped (stopped caller) = stopped caller := by
  cases caller <;> rfl

theorem callers_run_cancels (l : Loader) (s : State) (cs : List Nat) (c : Nat) :
    (l.run s (cs.map Step.cancel)).callers[c]? =
      if c ∈ cs then s.callers[c]?.map stopped else s.callers[c]? := by
  induction cs generalizing s with
  | nil => rfl
  | cons d rest ih =>
    show (l.run (cancel s d) (rest.map Step.cancel)).callers[c]? = _
    rw [ih, cancel_eq]
    simp only [State.withCallers_callers, List.getElem?_modify, List.mem_cons]
    by_cases hd : d = c
    · subst hd
      cases s.callers[d]? <;> simp [stopped_stopped]
    · cases s.callers[c]? <;> simp [hd, Ne.symm hd]

theorem run_cancels_all (l : Loader) (s : State) :
    let t := l.run s ((List.range s.callers.length).map Step.cancel)
    SameBut (fun _ => True) s t ∧ ∀ c i : Nat, t.callers[c]? ≠ some (Caller.waiting i) := by
  refine ⟨sameBut_run (interrupted_cancels _) (.refl _ s), fun c i hwaiting => ?_⟩
  rw [callers_run_cancels] at hwaiting
  by_cases hc : c < s.callers.length
  · rw [if_pos (List.mem_range.mpr hc), List.getElem?_eq_getElem hc, Option.map_some] at hwaiting
    cases hcaller : s.callers[c] <;> simp [hcaller, stopped] at hwaiting
  · rw [if_neg (by simpa using hc), List.getElem?_eq_none (Nat.le_of_not_lt hc)] at hwaiting
    exact absurd hwaiting (by simp)

/-- Callers who stop waiting leave no trace.  Take any run and the same run with any callers of
a set stopped at any moments: at every moment of either there is one of the other at which the
states are the same, the requests to the reader, the cache, the flight and the metrics as well
as the answers of all other callers, and those of the set have the same answer or were stopped.
And when all callers stop waiting, a read that runs still comes to its end, its text is stored,
and its key leaves the flight. -/
theorem cancel_isolated (l : Loader) (cache : Cache) (now : Binary64) {C : Nat → Prop}
    {steps interrupted : List Step} (h : Interrupted C steps interrupted) :
    let s₀ := { State.initial now with cache := cache }
    (∀ before after, interrupted = before ++ after → ∃ before' after', steps = before' ++ after' ∧
        Interrupted C before' before ∧ Interrupted C after' after ∧
        SameBut C (l.run s₀ before') (l.run s₀ before)) ∧
      (∀ before after, steps = before ++ after → ∃ before' after', interrupted = before' ++ after' ∧
        Interrupted C before before' ∧ Interrupted C after after' ∧
        SameBut C (l.run s₀ before) (l.run s₀ before')) ∧
      let s := l.run s₀ interrupted
      let t := l.run s ((List.range s.callers.length).map .cancel)
      (∀ c i : Nat, t.callers[c]? ≠ some (Caller.waiting i)) ∧
        ∀ i key path stage, s.read? i = some ⟨key, path, stage⟩ → stage.IsRunning →
          ∀ r : ReadResult, let u := l.run t [.begin i, .complete i (.result r), .announce i]
            u.read? i = some ⟨key, path, .announced (.result r)⟩ ∧
              u.inFlight.lookup key = none ∧
              (r.status = .ok → u.cache.get? key = some (content r)) := by
  intro s₀
  refine ⟨fun before after heq => ?_, fun before after heq => ?_, ?_⟩
  · obtain ⟨before', after', hsteps, hbefore, hafter⟩ := h.split heq
    exact ⟨before', after', hsteps, hbefore, hafter, sameBut_run hbefore (.refl C s₀)⟩
  · obtain ⟨before', after', hsteps, hbefore, hafter⟩ := h.split_left heq
    exact ⟨before', after', hsteps, hbefore, hafter, sameBut_run hbefore (.refl C s₀)⟩
  · intro s t
    obtain ⟨hsame, hnobody⟩ := run_cancels_all l s
    refine ⟨hnobody, fun i key path stage hread hrunning r => ?_⟩
    have hflight₀ : SingleFlight s₀ := .initial cache now
    have hunfilled₀ : Unfilled s₀ := fun i r hread =>
      absurd hread (by simp [s₀, State.initial, State.read?])
    have hflight : SingleFlight t := singleFlight_run (singleFlight_run hflight₀ l _) l _
    have hunfilled : Unfilled t :=
      unfilled_run (unfilled_run hunfilled₀ hflight₀ l _) (singleFlight_run hflight₀ l _) l _
    have hread' : t.read? i = some ⟨key, path, stage⟩ := by
      rw [show t = { s with callers := t.callers } from hsame.rest]
      exact hread
    exact read_finishes hunfilled hflight hread' hrunning l r

theorem cancel_isolated_starter :
    let l : Loader := ⟨.make "/" "t" none, []⟩
    let s₀ := State.initial (.zero false)
    let start : List Step := [.call "a.md", .begin 0, .call "./a.md"]
    let finish : List Step := [.complete 0 (.result (.ofText "A")), .announce 0, .deliver 0,
      .deliver 1]
    Interrupted (· = 0) (start ++ finish) (start ++ .cancel 0 :: finish) ∧
      (l.run s₀ (start ++ finish)).ending? 0 = some (.returned "A") ∧
      (l.run s₀ (start ++ .cancel 0 :: finish)).ending? 1 = some (.returned "A") ∧
      (l.run s₀ (start ++ .cancel 0 :: finish)).cache.get? "a.md" = some "A" := by
  intro l s₀ start finish
  have hinterrupted : Interrupted (· = 0) (start ++ finish) (start ++ .cancel 0 :: finish) := by
    refine .keep _ (.keep _ (.keep _ (.stop rfl ?_)))
    exact .keep _ (.keep _ (.keep _ (.keep _ .nil)))
  have hfirst : l.resolver.resolve "a.md" = .ok "/t/a.md" := by cbv
  have hsecond : l.resolver.resolve "./a.md" = .ok "/t/a.md" := by cbv
  have hkey : l.resolver.key "/t/a.md" = "a.md" := by cbv
  obtain ⟨hcallers, hcache⟩ :
      (l.run s₀ (start ++ finish)).callers = [.done (.returned "A"), .done (.returned "A")] ∧
        (l.run s₀ (start ++ finish)).cache.get? "a.md" = some "A" := by
    simp [start, finish, s₀, run, step, call, hfirst, hsecond, hkey, State.initial, Loader.start,
      join, begin, complete, store, announce, deliver, outcome, content, ReadResult.ofText,
      State.setStage, Cache.get?, Cache.put, Cache.contains, State.read?, State.withCaller,
      State.counting, State.logging]
  obtain ⟨hmoments, -, -⟩ := cancel_isolated l {} (.zero false) hinterrupted
  obtain ⟨before, after, heq, -, hafter, hsame⟩ :=
    hmoments (start ++ .cancel 0 :: finish) [] (List.append_nil _).symm
  -- Nothing comes after the end of the interrupted run, so nothing does in the other.
  cases hafter
  rw [List.append_nil] at heq
  rw [← heq] at hsame
  have hsame : SameBut (· = 0) (l.run s₀ (start ++ finish))
      (l.run s₀ (start ++ .cancel 0 :: finish)) := hsame
  -- Nothing of the two states is needed but what is known of them by now.
  generalize l.run s₀ (start ++ finish) = s at hsame hcallers hcache ⊢
  generalize l.run s₀ (start ++ .cancel 0 :: finish) = t at hsame ⊢
  have hother := (hsame.callers 1).resolve_right fun h => absurd h.1 (by decide)
  refine ⟨hinterrupted, ?_, ?_, ?_⟩
  · rw [ending?_eq_some_iff, hcallers]
    rfl
  · rw [ending?_eq_some_iff, hother, hcallers]
    rfl
  · rw [hsame.rest]
    exact hcache

end PromptShelf.Loader
