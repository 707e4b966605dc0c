/-
Calls that come after a read.

Between the end of a read and its announcement the key is still in flight, and a call that
comes then is given the answer of that read at once, be it a failure or a text that was
cleared in the meantime.  Once the end is announced this is over: a call whose key is not
in the cache starts a read of its own.

* **`ending_source`** — where an answer comes from: the cache as the call found it, or a
  read that was not announced at that time;
* **`answered_of_get?`** — what is in the cache after it was cleared was read to the end
  after that;
* **`fresh_calls`** — so neither failures nor cleared texts outlive the announcement.
-/
import PromptShelf.Proofs.Loader.History
import PromptShelf.Proofs.Loader.Progress

namespace PromptShelf.Loader

/-- The read `i` is one of a key, and the reader has answered it. -/
def Answered (s : State) (i : Nat) (key : String) (answer : Answer) : Prop :=
  ∃ path stage, s.read? i = some ⟨key, path, stage⟩ ∧ stage.answer? = some answer

variable {l : Loader} {s : State}

/-! ### Reads keep their answers, callers their endings -/

theorem Answered.run {i : Nat} {key : String} {answer : Answer} (h : Answered s i key answer)
    (l : Loader) (steps : List Step) : Answered (l.run s steps) i key answer := by
  induction steps generalizing s with
  | nil => exact h
  | cons x rest ih =>
    obtain ⟨path, stage, hread, hanswer⟩ := h
    obtain ⟨stage', hread', hanswer'⟩ := read?_step_of_answer (l := l) hread hanswer x
    exact ih ⟨path, stage', hread', hanswer'⟩

theorem Answered.answer? {i : Nat} {key : String} {answer : Answer}
    (h : Answered s i key answer) : s.answer? i = some answer := by
  obtain ⟨path, stage, hread, hanswer⟩ := h
  rw [State.answer?, hread]
  exact hanswer

theorem answer?_eq_none_of_run {i : Nat} {steps : List Step}
    (h : (l.run s steps).answer? i = none) : s.answer? i = none := by
  cases hanswer : s.answer? i with
  | none => rfl
  | some answer =>
    obtain ⟨⟨key, path, stage⟩, hread, hstage⟩ := Option.bind_eq_some_iff.mp hanswer
    have hanswered : Answered s i key answer := ⟨path, stage, hread, hstage⟩
    rw [(hanswered.run l steps).answer?] at h
    exact absurd h (by simp)

theorem ending_of_done {c : Nat} {ending ending' : Ending String}
    (h : s.callers[c]? = some (.done ending')) {steps : List Step}
    (hending : (l.run s steps).ending? c = some ending) : ending = ending' := by
  have heq := (ending?_eq_some_iff.mp hending).symm.trans (callers_run_of_done h l steps)
  exact Caller.done.inj (Option.some.inj heq)

/-- A caller that waits for a read still waits after some steps, or was stopped by one of them, or
was told what the read gave. -/
theorem caller_of_waiting {c i : Nat} {key path : String} {stage : Stage}
    (h : s.callers[c]? = some (.waiting i)) (hread : s.read? i = some ⟨key, path, stage⟩)
    (l : Loader) (steps : List Step) :
    (l.run s steps).callers[c]? = some (.waiting i) ∨
      (Step.cancel c ∈ steps ∧
        (l.run s steps).callers[c]? = some (.done (.stopped .cancelled))) ∨
      ∃ answer, Answered (l.run s steps) i key answer ∧
        (l.run s steps).callers[c]? = some (.done (l.outcome key answer)) := by
  induction steps generalizing s stage with
  | nil => exact .inl h
  | cons x rest ih =>
    rcases callers_step h l x with h' | ⟨j, hj, ⟨rfl, hstop⟩ | ⟨_, _, answer, hannounced, htold⟩⟩
    · obtain ⟨stage', hread', -⟩ := read?_step (l := l) hread x
      rcases ih h' hread' with hwaiting | ⟨hcancel, hstop⟩ | htold
      · exact .inl hwaiting
      · exact .inr (.inl ⟨List.mem_cons_of_mem _ hcancel, hstop⟩)
      · exact .inr (.inr htold)
    · exact .inr (.inl ⟨List.mem_cons_self, callers_run_of_done hstop l rest⟩)
    · obtain rfl := Caller.waiting.inj hj
      obtain ⟨rfl, rfl, rfl⟩ := Read.mk.inj (Option.some.inj (hread.symm.trans hannounced))
      have hanswered : Answered s i key answer := ⟨path, _, hread, rfl⟩
      exact .inr (.inr ⟨answer, hanswered.run l (x :: rest), callers_run_of_done htold l rest⟩)

/-- A caller that waits for a read is told what that read gave, or that it was stopped. -/
theorem ending_of_waiting {c i : Nat} {key path : String} {stage : Stage}
    {ending : Ending String} {steps : List Step}
    (hending : (l.run s steps).ending? c = some ending) (h : s.callers[c]? = some (.waiting i))
    (hread : s.read? i = some ⟨key, path, stage⟩) :
    ending = .stopped .cancelled ∨
      ∃ answer, Answered (l.run s steps) i key answer ∧ ending = l.outcome key answer := by
  rw [ending?_eq_some_iff] at hending
  rcases caller_of_waiting h hread l steps with hwaiting | ⟨-, hstop⟩ | ⟨answer, hanswered, htold⟩
  · exact absurd (hending.symm.trans hwaiting) (by simp)
  · exact .inl (Caller.done.inj (Option.some.inj (hending.symm.trans hstop)))
  · exact .inr ⟨answer, hanswered, Caller.done.inj (Option.some.inj (hending.symm.trans htold))⟩

/-! ### Where answers come from -/

/-- A call whose path is resolved is stopped, or given the text the cache had, or told the
answer of a read whose end was not announced when the call was made. -/
theorem ending_source (hflight : SingleFlight s) {requested path : String}
    (hresolve : l.resolver.resolve requested = .ok path) {after : List Step}
    {ending : Ending String}
    (hending : (l.run s (.call requested :: after)).ending? s.callers.length = some ending) :
    ending = .stopped .cancelled ∨
      (∃ text, s.cache.get? (l.resolver.key path) = some text ∧ ending = .returned text) ∨
      ∃ i answer, Answered (l.run s (.call requested :: after)) i (l.resolver.key path) answer ∧
        ending = l.outcome (l.resolver.key path) answer ∧
        ∀ r, s.read? i = some r → r.stage.IsOpen := by
  generalize ht : l.step s (.call requested) = t
  have hrun : l.run s (.call requested :: after) = l.run t after := by rw [← ht]; rfl
  rw [hrun] at hending ⊢
  have hmove := ht ▸ moves_step l s (.call requested)
  have hlast : ∀ caller : Caller, (s.callers ++ [caller])[s.callers.length]? = some caller :=
    fun caller => List.getElem?_concat_length ..
  -- A read in flight is one of this key, and open.
  have hopen : ∀ {key : String} {i : Nat}, s.inFlight.lookup key = some i →
      ∃ path stage, s.read? i = some ⟨key, path, stage⟩ ∧
        ∀ r, s.read? i = some r → r.stage.IsOpen := by
    intro key i hlookup
    obtain ⟨⟨_, path, stage⟩, hread, rfl, hstage⟩ := hflight.lookup_iff.mp hlookup
    refine ⟨path, stage, hread, fun r hr => ?_⟩
    obtain rfl := Option.some.inj (hread.symm.trans hr)
    exact hstage
  cases hmove with
  | refused hrefuse => exact absurd (hrefuse.symm.trans hresolve) (by simp)
  | hit hpath hcache =>
    obtain rfl := Except.ok.inj (hpath.symm.trans hresolve)
    exact .inr (.inl ⟨_, hcache, ending_of_done (hlast _) hending⟩)
  | joined hpath hcache hlookup =>
    obtain rfl := Except.ok.inj (hpath.symm.trans hresolve)
    obtain ⟨path, stage, hread, hstage⟩ := hopen hlookup
    rcases ending_of_waiting hending (hlast _) hread with hstop | ⟨answer, hanswered, heq⟩
    · exact .inl hstop
    · exact .inr (.inr ⟨_, answer, hanswered, heq, hstage⟩)
  | @joinedLate _ _ _ answer _ hpath hcache hlookup hanswer =>
    obtain rfl := Except.ok.inj (hpath.symm.trans hresolve)
    obtain ⟨path, stage, hread, hstage⟩ := hopen hlookup
    rw [State.answer?, hread] at hanswer
    have hanswered : Answered s _ _ answer := ⟨path, stage, hread, hanswer⟩
    refine .inr (.inr ⟨_, answer, ?_, ending_of_done (hlast _) hending, hstage⟩)
    rw [← hrun]
    exact hanswered.run l _
  | started hpath hcache =>
    obtain rfl := Except.ok.inj (hpath.symm.trans hresolve)
    have hnew : ∀ r : Read, (s.reads ++ [r])[s.reads.length]? = some r :=
      fun r => List.getElem?_concat_length ..
    rcases ending_of_waiting hending (hlast _) (hnew _) with hstop | ⟨answer, hanswered, heq⟩
    · exact .inl hstop
    · refine .inr (.inr ⟨_, answer, hanswered, heq, fun r hr => ?_⟩)
      -- There was no read of this number yet.
      rw [State.read?, List.getElem?_eq_none (Nat.le_refl _)] at hr
      exact absurd hr (by simp)
  | idle hcall => exact absurd rfl (hcall requested)

/-- A text that is in the cache some steps after this was empty comes from a read that
ended in the course of these steps. -/
theorem answered_of_get? (hempty : s.cache = {}) {key text : String} {steps : List Step}
    (h : (l.run s steps).cache.get? key = some text) :
    ∃ i r, Answered (l.run s steps) i key (.result r) ∧ r.status = .ok ∧ content r = text ∧
      s.answer? i = none := by
  induction steps using List.reverseRecOn with
  | nil =>
    rw [run_nil, hempty] at h
    exact absurd h (by simp [Cache.get?])
  | append_singleton steps x ih =>
    rw [run_append_singleton] at h
    rcases get?_step h with hold | ⟨i, path, since, r, hread, rfl, hok, htext⟩
    · obtain ⟨i, r, hanswered, hrest⟩ := ih hold
      refine ⟨i, r, ?_, hrest⟩
      rw [run_append]
      exact hanswered.run l [x]
    · -- The read still runs just before its text is stored.
      have hrunning : (l.run s steps).answer? i = none := by
        rw [State.answer?, hread]
        rfl
      refine ⟨i, r, ?_, hok, htext, answer?_eq_none_of_run hrunning⟩
      rw [run_append_singleton]
      exact ⟨path, _, (complete_of_running hread r).1, rfl⟩

theorem started_of_not_open (hflight : SingleFlight s) {requested path : String}
    (hresolve : l.resolver.resolve requested = .ok path)
    (hcache : s.cache.get? (l.resolver.key path) = none)
    (hnone : ∀ i r, s.read? i = some r → r.key = l.resolver.key path → ¬ r.stage.IsOpen) :
    l.step s (.call requested) = start s (l.resolver.key path) path := by
  have hlookup : s.inFlight.lookup (l.resolver.key path) = none := by
    cases hlookup : s.inFlight.lookup (l.resolver.key path) with
    | none => rfl
    | some i =>
      obtain ⟨r, hread, hkey, hstage⟩ := hflight.lookup_iff.mp hlookup
      exact absurd hstage (hnone i r hread hkey)
  show l.call s requested = _
  rw [call]
  simp only [hresolve, hcache, hlookup]

theorem joinedLate_of_lookup {requested path : String} {i : Nat} {answer : Answer}
    (hresolve : l.resolver.resolve requested = .ok path)
    (hcache : s.cache.get? (l.resolver.key path) = none)
    (hlookup : s.inFlight.lookup (l.resolver.key path) = some i)
    (hanswer : s.answer? i = some answer) :
    (l.step s (.call requested)).reads = s.reads ∧
      (l.step s (.call requested)).ending? s.callers.length =
        some (l.outcome (l.resolver.key path) answer) := by
  have hcall : l.step s (.call requested) = l.join s (l.resolver.key path) i := by
    show l.call s requested = _
    rw [call]
    simp only [hresolve, hcache, hlookup]
  rw [hcall, join_eq]
  simp only [hanswer]
  exact ⟨rfl, ending?_eq_some_iff.mpr (List.getElem?_concat_length ..)⟩

theorem exists_of_outcome_eq_returned {key text : String} {answer : Answer}
    (h : l.outcome key answer = .returned text) :
    ∃ r, answer = .result r ∧ r.status = .ok ∧ content r = text := by
  cases answer with
  | raised e => exact absurd h (by simp [outcome])
  | stopped stop => exact absurd h (by simp [outcome])
  | result r =>
    rw [outcome] at h
    cases hstatus : r.status with
    | ok =>
      simp only [hstatus, Ending.returned.injEq] at h
      exact ⟨r, rfl, hstatus, h⟩
    | notFound | permissionDenied | failed =>
      rw [hstatus] at h
      exact absurd h (by simp)

/-- An open read that had its answer before some steps is still to be announced. -/
theorem answer?_eq_none_or_isEnded {i : Nat} {steps : List Step}
    (hopen : ∀ r, (l.run s steps).read? i = some r → r.stage.IsOpen) :
    s.answer? i = none ∨ ∃ r, (l.run s steps).read? i = some r ∧ r.stage.IsEnded := by
  cases hanswer : (l.run s steps).answer? i with
  | none => exact .inl (answer?_eq_none_of_run hanswer)
  | some answer =>
    obtain ⟨r, hread, hstage⟩ := Option.bind_eq_some_iff.mp hanswer
    refine .inr ⟨r, hread, (hopen r hread).resolve_left fun hrunning => ?_⟩
    cases hr : r.stage with
    | queued | running => exact absurd hstage (by simp [hr, Stage.answer?])
    | ended | announced => exact absurd hrunning (by simp [hr, Stage.IsRunning])

/-- In every state that can be reached, a call whose key is not in the cache and has no read
that runs or waits to be announced starts a read and waits for it.  A call fails only
through a read that was not announced when the call was made.  And after a clear, a call is
given a text only if its read had not ended when the cache was cleared, or was still to be
announced when the call was made. -/
theorem fresh_calls (l : Loader) (cache : Cache) (now : Binary64) (before : List Step)
    (requested path : String) (hresolve : l.resolver.resolve requested = .ok path) :
    let s₀ := { State.initial now with cache := cache }
    let s := l.run s₀ before
    let key := l.resolver.key path
    (s.cache.get? key = none →
        (∀ i r, s.read? i = some r → r.key = key → ¬ r.stage.IsRunning ∧ ¬ r.stage.IsEnded) →
        let t := l.step s (.call requested)
        t.reads = s.reads ++ [⟨key, path, .queued⟩] ∧
          t.callers = s.callers ++ [.waiting s.reads.length]) ∧
      ∀ after : List Step, let t := l.run s (.call requested :: after)
        (∀ e, t.ending? s.callers.length = some (.failed e) →
          ∃ i answer, Answered t i key answer ∧ l.outcome key answer = .failed e ∧
            ∀ r, s.read? i = some r → r.stage.IsRunning ∨ r.stage.IsEnded) ∧
        ∀ (earlier later : List Step) (text : String), before = earlier ++ .clear :: later →
          t.ending? s.callers.length = some (.returned text) →
          ∃ i r, Answered t i key (.result r) ∧ r.status = .ok ∧ content r = text ∧
            ((l.run s₀ earlier).answer? i = none ∨
              ∃ r', s.read? i = some r' ∧ r'.stage.IsEnded) := by
  intro s₀ s key
  have hflight : SingleFlight s := singleFlight_run (.initial cache now) l before
  refine ⟨fun hcache hnone => ?_, fun after => ⟨fun e hending => ?_, ?_⟩⟩
  · have hstart := started_of_not_open hflight hresolve hcache fun i r hread hkey hopen =>
      hopen.elim (hnone i r hread hkey).1 (hnone i r hread hkey).2
    rw [hstart]
    exact ⟨rfl, rfl⟩
  · rcases ending_source hflight hresolve hending with
      hstop | ⟨text, -, htext⟩ | ⟨i, answer, hanswered, houtcome, hopen⟩
    · exact absurd hstop (by simp)
    · exact absurd htext (by simp)
    · exact ⟨i, answer, hanswered, houtcome.symm, hopen⟩
  · intro earlier later text hbefore hending
    have hs : s = l.run (l.step (l.run s₀ earlier) .clear) later := by
      show l.run s₀ before = _
      rw [hbefore, run_append]
      rfl
    rcases ending_source hflight hresolve hending with
      hstop | ⟨text', hcache, htext⟩ | ⟨i, answer, hanswered, houtcome, hopen⟩
    · exact absurd hstop (by simp)
    · -- The text was in the cache, which was empty after the clear.
      obtain rfl := Ending.returned.inj htext
      rw [hs] at hcache
      obtain ⟨i, r, hanswered, hok, hcontent, hnew⟩ := answered_of_get? rfl hcache
      rw [← hs] at hanswered
      exact ⟨i, r, hanswered.run l _, hok, hcontent, .inl hnew⟩
    · -- The call waited for a read, or was told at once what this gave.
      obtain ⟨r, rfl, hok, hcontent⟩ := exists_of_outcome_eq_returned houtcome.symm
      refine ⟨i, r, hanswered, hok, hcontent, ?_⟩
      rw [hs] at hopen ⊢
      exact answer?_eq_none_or_isEnded (s := l.step (l.run s₀ earlier) .clear) hopen

theorem fresh_calls_cleared :
    let l : Loader := ⟨.make "/" "t" none, []⟩
    let earlier : List Step := [.call "a.md", .begin 0, .complete 0 (.result (.ofText "A")),
      .announce 0, .deliver 0]
    let s := l.run (.initial (.zero false)) (earlier ++ [.clear])
    let t := l.run s (.call "a.md" :: [.begin 1, .complete 1 (.result (.ofText "B")),
      .announce 1, .deliver 1])
    (l.step s (.call "a.md")).reads = s.reads ++ [⟨"a.md", "/t/a.md", .queued⟩] ∧
      t.ending? 1 = some (.returned "B") ∧
      ∃ i r, Answered t i "a.md" (.result r) ∧ content r = "B" ∧
        (l.run (.initial (.zero false)) earlier).answer? i = none := by
  intro l earlier s t
  have hresolve : l.resolver.resolve "a.md" = .ok "/t/a.md" := by cbv
  have hkey : l.resolver.key "/t/a.md" = "a.md" := by cbv
  have hs : s.cache.get? "a.md" = none ∧ s.callers.length = 1 ∧
      s.reads = [⟨"a.md", "/t/a.md", .announced (.result (.ofText "A"))⟩] := by
    simp [s, earlier, run, step, call, hresolve, hkey, State.initial, start, begin, complete,
      store, clear, announce, deliver, State.setStage, Cache.get?, Cache.put, Cache.contains,
      State.read?, State.withCaller, State.counting, State.logging, ReadResult.ofText, content]
  have ht : t.ending? 1 = some (.returned "B") := by
    simp [t, s, earlier, run, step, call, hresolve, hkey, State.initial, start, begin, complete,
      store, clear, announce, deliver, State.setStage, Cache.get?, Cache.put, Cache.contains,
      State.read?, State.withCaller, State.counting, State.logging, ReadResult.ofText, content,
      outcome, State.ending?]
  obtain ⟨hcache, hcallers, hreads⟩ := hs
  have hannounced : ∀ i r, s.read? i = some r → ¬ r.stage.IsRunning ∧ ¬ r.stage.IsEnded := by
    intro i r hread
    rw [State.read?, hreads] at hread
    obtain rfl := List.mem_singleton.mp (List.mem_of_getElem? hread)
    exact ⟨id, id⟩
  obtain ⟨hstart, hrest⟩ :=
    fresh_calls l {} (.zero false) (earlier ++ [.clear]) "a.md" "/t/a.md" hresolve
  rw [hkey] at hstart hrest
  obtain ⟨i, r, hanswered, -, hcontent, hnew⟩ :=
    (hrest _).2 earlier [] "B" rfl (hcallers ▸ ht)
  refine ⟨(hstart hcache fun i r hread _ => hannounced i r hread).1, ht, i, r, hanswered,
    hcontent, hnew.resolve_right ?_⟩
  rintro ⟨r', hread, hended⟩
  exact (hannounced i r' hread).2 hended

/-- A call does not always start a read when its key is neither in the cache nor being read:
it joins one that has failed, or was cleared after it ended, as long as this is not
announced.  And a clear does not keep a read that runs from filling the cache again. -/
theorem call_joins_ended_read :
    let l : Loader := ⟨.make "/" "t" none, []⟩
    let begun : List Step := [.call "a.md", .begin 0]
    let failed := l.run (.initial (.zero false))
      (begun ++ [.complete 0 (.result (.ofFault (.file .missing)))])
    let cleared := l.run (.initial (.zero false))
      (begun ++ [.complete 0 (.result (.ofText "A")), .clear])
    let refilled := l.run (.initial (.zero false))
      (begun ++ [.clear, .complete 0 (.result (.ofText "A")), .announce 0])
    (failed.cache.get? "a.md" = none ∧
        (∀ i r, failed.read? i = some r → ¬ r.stage.IsRunning) ∧
        (l.step failed (.call "a.md")).reads = failed.reads ∧
        (l.step failed (.call "a.md")).ending? 1 = some (.failed (.notFound "a.md" "t/"))) ∧
      (cleared.cache.get? "a.md" = none ∧
        (∀ i r, cleared.read? i = some r → ¬ r.stage.IsRunning) ∧
        (l.step cleared (.call "a.md")).reads = cleared.reads ∧
        (l.step cleared (.call "a.md")).ending? 1 = some (.returned "A")) ∧
      (∀ i r, refilled.read? i = some r → ¬ r.stage.IsOpen) ∧
      (l.step refilled (.call "a.md")).ending? 1 = some (.returned "A") := by
  intro l begun failed cleared refilled
  have hresolve : l.resolver.resolve "a.md" = .ok "/t/a.md" := by cbv
  have hkey : l.resolver.key "/t/a.md" = "a.md" := by cbv
  have hhint : l.resolver.hint = "t/" := by cbv
  have hjoins : ∀ (s : State) (answer : Answer), s.cache = {} → s.inFlight = [("a.md", 0)] →
      s.callers.length = 1 → s.reads = [⟨"a.md", "/t/a.md", .ended answer⟩] →
      s.cache.get? "a.md" = none ∧ (∀ i r, s.read? i = some r → ¬ r.stage.IsRunning) ∧
        (l.step s (.call "a.md")).reads = s.reads ∧
        (l.step s (.call "a.md")).ending? 1 = some (l.outcome "a.md" answer) := by
    intro s answer hcache hflight hcallers hreads
    have hlookup : s.inFlight.lookup "a.md" = some 0 := by rw [hflight]; rfl
    have hanswer : s.answer? 0 = some answer := by rw [State.answer?, State.read?, hreads]; rfl
    obtain ⟨hsame, hending⟩ := joinedLate_of_lookup hresolve (by rw [hcache]; rfl)
      (hkey ▸ hlookup) hanswer
    refine ⟨by rw [hcache]; rfl, fun i r hread => ?_, hsame, ?_⟩
    · rw [State.read?, hreads] at hread
      obtain rfl := List.mem_singleton.mp (List.mem_of_getElem? hread)
      exact id
    · rw [hcallers, hkey] at hending
      exact hending
  have hfailed : failed.cache = {} ∧ failed.inFlight = [("a.md", 0)] ∧
      failed.callers.length = 1 ∧
      failed.reads = [⟨"a.md", "/t/a.md", .ended (.result (.ofFault (.file .missing)))⟩] := by
    simp [failed, begun, run, step, call, hresolve, hkey, State.initial, start, begin, complete,
      store, State.setStage, Cache.get?, State.read?, State.withCaller, State.counting,
      State.logging, ReadResult.ofFault, ReadResult.statusOf]
  have hcleared : cleared.cache = {} ∧ cleared.inFlight = [("a.md", 0)] ∧
      cleared.callers.length = 1 ∧
      cleared.reads = [⟨"a.md", "/t/a.md", .ended (.result (.ofText "A"))⟩] := by
    simp [cleared, begun, run, step, call, hresolve, hkey, State.initial, start, begin, complete,
      store, clear, State.setStage, Cache.get?, State.read?, State.withCaller, State.counting,
      State.logging, ReadResult.ofText]
  have hrefilled : refilled.cache.get? "a.md" = some "A" ∧ refilled.callers.length = 1 ∧
      refilled.reads = [⟨"a.md", "/t/a.md", .announced (.result (.ofText "A"))⟩] := by
    simp [refilled, begun, run, step, call, hresolve, hkey, State.initial, start, begin, complete,
      store, clear, announce, State.setStage, Cache.get?, Cache.put, Cache.contains, State.read?,
      State.withCaller, State.counting, State.logging, ReadResult.ofText, content]
  have hmissing : l.outcome "a.md" (.result (.ofFault (.file .missing))) =
      .failed (.notFound "a.md" "t/") := by
    rw [← hhint]
    rfl
  clear_value l failed cleared refilled
  obtain ⟨hnone, hidle, hsame, hending⟩ :=
    hjoins failed _ hfailed.1 hfailed.2.1 hfailed.2.2.1 hfailed.2.2.2
  obtain ⟨hcache, hcallers, hreads⟩ := hrefilled
  refine ⟨⟨hnone, hidle, hsame, hending.trans (congrArg some hmissing)⟩,
    hjoins cleared _ hcleared.1 hcleared.2.1 hcleared.2.2.1 hcleared.2.2.2, fun i r hread => ?_, ?_⟩
  · rw [State.read?, hreads] at hread
    obtain rfl := List.mem_singleton.mp (List.mem_of_getElem? hread)
    exact Stage.not_isOpen_announced _
  · show (l.call refilled "a.md").ending? 1 = _
    rw [call]
    simp only [hresolve, hkey, hcache]
    rw [ending?_eq_some_iff, ← hcallers]
    exact List.getElem?_concat_length ..

end PromptShelf.Loader
