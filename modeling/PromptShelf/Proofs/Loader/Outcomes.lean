/-
Where the answers of callers come from.

`Accounted` says how a caller can stand: refused, answered from a text that an earlier
read has left in the cache, waiting for its read, stopped, or answered as that read was.
`Traced` says that all callers of a run stand like this, and that the reads and the cache
belong to the paths their keys were made from; this is where different paths must have
different keys.

* **`traced_run`** — every run is traced, in whatever order its steps come;
* **`load_outcomes`** — so callers get what a read of their own path gave.
-/
import PromptShelf.Proofs.Loader.History
import PromptShelf.Proofs.Loader.Progress
import PromptShelf.Proofs.Path.Keys

namespace PromptShelf.Loader

/-- How the caller `c`, who asked for a path and was given a ticket, can stand. -/
inductive Accounted (l : Loader) (s : State) (steps : List Step) (c : Nat)
    (requested : String) : Option Nat → Caller → Prop
  | refused {e : Error} (hresolve : l.resolver.resolve requested = .error e) :
    Accounted l s steps c requested none (.done (.failed e))
  | hit {path : String} {i : Nat} {r : ReadResult}
      (hresolve : l.resolver.resolve requested = .ok path)
      (hanswers : ReaderAnswers l s steps i path r) (hok : r.status = .ok) :
    Accounted l s steps c requested none (.done (.returned (content r)))
  | waiting {path : String} {stage : Stage} {i : Nat}
      (hresolve : l.resolver.resolve requested = .ok path)
      (hread : (l.run s steps).read? i = some ⟨l.resolver.key path, path, stage⟩) :
    Accounted l s steps c requested (some i) (.waiting i)
  | cancelled {i : Nat} (hcancel : Step.cancel c ∈ steps) :
    Accounted l s steps c requested (some i) (.done (.stopped .cancelled))
  | answered {path : String} {stage : Stage} {i : Nat} {answer : Answer}
      (hresolve : l.resolver.resolve requested = .ok path)
      (hread : (l.run s steps).read? i = some ⟨l.resolver.key path, path, stage⟩)
      (hanswer : stage.answer? = some answer) :
    Accounted l s steps c requested (some i) (.done (l.outcome (l.resolver.key path) answer))

/-- The reads, the cache and the callers after some steps can all be traced back. -/
structure Traced (l : Loader) (s : State) (steps : List Step) : Prop where
  flight : SingleFlight (l.run s steps)
  reads : ∀ i r, (l.run s steps).read? i = some r →
    (∃ requested, l.resolver.resolve requested = .ok r.path) ∧ r.key = l.resolver.key r.path ∧
      ∀ answer, r.stage.answer? = some answer →
        ∃ result, answer = .result result ∧ ReaderAnswers l s steps i r.path result
  cache : ∀ key text, (l.run s steps).cache.get? key = some text →
    ∃ requested path i r, l.resolver.resolve requested = .ok path ∧ l.resolver.key path = key ∧
      ReaderAnswers l s steps i path r ∧ r.status = .ok ∧ content r = text
  length_callers : (l.run s steps).callers.length = (requested steps).length
  callers : ∀ c path ticket caller, (requested steps)[c]? = some path →
    (l.tickets s steps)[c]? = some ticket → (l.run s steps).callers[c]? = some caller →
    Accounted l s steps c path ticket caller

/-- The callers are all accounted for after one more step that is no call. -/
def KeepsCallers (l : Loader) (s : State) (steps : List Step) (x : Step) : Prop :=
  (l.run s (steps ++ [x])).callers.length = (l.run s steps).callers.length ∧
    ∀ c path ticket caller, (requested steps)[c]? = some path →
      (l.tickets s steps)[c]? = some ticket →
      (l.run s (steps ++ [x])).callers[c]? = some caller →
      Accounted l s (steps ++ [x]) c path ticket caller

/-- Different paths have different keys. -/
def KeysDiffer (l : Loader) : Prop :=
  ∀ requested requested' path path', l.resolver.resolve requested = .ok path →
    l.resolver.resolve requested' = .ok path' → l.resolver.key path = l.resolver.key path' →
    path = path'

variable {l : Loader} {s : State} {steps : List Step}

/-- What a caller stands for does not change with what happens to others. -/
theorem Accounted.append_singleton {c : Nat} {path : String} {ticket : Option Nat}
    {caller : Caller} (h : Accounted l s steps c path ticket caller) (x : Step) :
    Accounted l s (steps ++ [x]) c path ticket caller := by
  cases h with
  | refused hresolve => exact .refused hresolve
  | hit hresolve hanswers hok => exact .hit hresolve (hanswers.append [x]) hok
  | waiting hresolve hread =>
    obtain ⟨stage', hread', -⟩ := read?_step (l := l) hread x
    exact .waiting hresolve (by rw [run_append_singleton]; exact hread')
  | cancelled hcancel => exact .cancelled (List.mem_append_left _ hcancel)
  | answered hresolve hread hanswer =>
    obtain ⟨stage', hread', hanswer'⟩ := read?_step_of_answer (l := l) hread hanswer x
    exact .answered hresolve (by rw [run_append_singleton]; exact hread') hanswer'

namespace Traced

theorem read_of_lookup (h : Traced l s steps) (hkeys : l.KeysDiffer) {path requested : String}
    {i : Nat} (hresolve : l.resolver.resolve requested = .ok path)
    (hflight : (l.run s steps).inFlight.lookup (l.resolver.key path) = some i) :
    ∃ stage, (l.run s steps).read? i = some ⟨l.resolver.key path, path, stage⟩ := by
  obtain ⟨⟨key, path', stage⟩, hread, rfl, -⟩ := h.flight.lookup_iff.mp hflight
  obtain ⟨⟨requested', hresolve'⟩, hkey, -⟩ := h.reads i _ hread
  obtain rfl := hkeys _ _ _ _ hresolve hresolve' hkey
  exact ⟨stage, hread⟩

theorem call (h : Traced l s steps) (hkeys : l.KeysDiffer) (path : String) :
    ∃ caller, (l.run s (steps ++ [.call path])).callers =
        (l.run s steps).callers ++ [caller] ∧
      ∀ c, Accounted l s (steps ++ [.call path]) c path
        (l.ticket? (l.run s steps) path) caller := by
  have hrun := run_append_singleton l s steps (.call path)
  generalize ht : l.step (l.run s steps) (.call path) = t at hrun
  have hmove := ht ▸ moves_step l (l.run s steps) (.call path)
  have hticket := ticket?.eq_def l (l.run s steps) path
  cases hmove with
  | refused hresolve =>
    simp only [hresolve] at hticket
    refine ⟨_, by rw [hrun], fun c => ?_⟩
    rw [hticket]
    exact .refused hresolve
  | hit hresolve hcache =>
    simp only [hresolve, hcache] at hticket
    -- The text was read from some path with this key, and so from this path.
    obtain ⟨_, path', i, r, hresolve', hkey, hanswers, hok, rfl⟩ := h.cache _ _ hcache
    obtain rfl := hkeys _ _ _ _ hresolve' hresolve hkey
    refine ⟨_, by rw [hrun], fun c => ?_⟩
    rw [hticket]
    exact .hit hresolve (hanswers.append _) hok
  | joined hresolve hcache hflight =>
    -- The read in flight for this key is a read of this path.
    simp only [hresolve, hcache, hflight, Option.getD_some] at hticket
    obtain ⟨stage, hread⟩ := h.read_of_lookup hkeys hresolve hflight
    refine ⟨_, by rw [hrun], fun c => ?_⟩
    rw [hticket]
    exact .waiting hresolve (by rw [hrun]; exact hread)
  | joinedLate hresolve hcache hflight hanswer =>
    simp only [hresolve, hcache, hflight, Option.getD_some] at hticket
    obtain ⟨stage, hread⟩ := h.read_of_lookup hkeys hresolve hflight
    rw [State.answer?, hread] at hanswer
    refine ⟨_, by rw [hrun], fun c => ?_⟩
    rw [hticket]
    exact .answered hresolve (by rw [hrun]; exact hread) hanswer
  | started hresolve hcache hflight =>
    simp only [hresolve, hcache, hflight, Option.getD_none] at hticket
    refine ⟨_, by rw [hrun], fun c => ?_⟩
    rw [hticket]
    exact .waiting hresolve (by rw [hrun]; exact List.getElem?_concat_length ..)
  | idle hcall => exact absurd rfl (hcall path)

theorem keepsCallers_of_eq (h : Traced l s steps) {x : Step}
    (hcallers : (l.run s (steps ++ [x])).callers = (l.run s steps).callers) :
    KeepsCallers l s steps x := by
  rw [KeepsCallers, hcallers]
  exact ⟨rfl, fun c path ticket caller hpath hticket hcaller =>
    (h.callers c path ticket caller hpath hticket hcaller).append_singleton x⟩

/-- What happens to one waiting caller does not touch the others. -/
theorem keepsCallers_of_set (h : Traced l s steps) {x : Step} {d i : Nat} {new : Caller}
    (hwaiting : (l.run s steps).callers[d]? = some (.waiting i))
    (hcallers : (l.run s (steps ++ [x])).callers = (l.run s steps).callers.set d new)
    (hnew : ∀ path ticket, Accounted l s steps d path ticket (.waiting i) →
      Accounted l s (steps ++ [x]) d path ticket new) : KeepsCallers l s steps x := by
  rw [KeepsCallers, hcallers]
  refine ⟨List.length_set .., fun c path ticket caller hpath hticket hcaller => ?_⟩
  rw [getElem?_set_of_some hwaiting] at hcaller
  by_cases hd : d = c
  · subst hd
    rw [if_pos rfl] at hcaller
    obtain rfl := Option.some.inj hcaller
    exact hnew path ticket (h.callers d path ticket _ hpath hticket hwaiting)
  · rw [if_neg hd] at hcaller
    exact (h.callers c path ticket caller hpath hticket hcaller).append_singleton x

theorem keepsCallers (h : Traced l s steps) {x : Step} (hx : ∀ path, x ≠ .call path) :
    KeepsCallers l s steps x := by
  have hrun := run_append_singleton l s steps x
  generalize ht : l.step (l.run s steps) x = t at hrun
  have hmove := ht ▸ moves_step l (l.run s steps) x
  -- Only an answer or a stop changes a caller, and only the one it is for.
  cases hmove with
  | refused | hit | joined | joinedLate | started => exact absurd rfl (hx _)
  | begun | stored | failed | broken | announced | cleared | advanced | idle =>
    exact h.keepsCallers_of_eq (by rw [hrun])
  | @delivered d i key path answer hwaiting hread =>
    refine h.keepsCallers_of_set hwaiting (by rw [hrun]) fun path' ticket hold => ?_
    cases hold with
    | waiting hresolve hread' =>
      obtain ⟨rfl, rfl, rfl⟩ := Read.mk.inj (Option.some.inj (hread.symm.trans hread'))
      obtain ⟨stage', hread'', hanswer⟩ := read?_step_of_answer (l := l) hread rfl (.deliver d)
      exact .answered hresolve (by rw [run_append_singleton]; exact hread'') hanswer
  | @cancelled d i hwaiting =>
    refine h.keepsCallers_of_set hwaiting (by rw [hrun]) fun path' ticket hold => ?_
    cases hold with
    | waiting => exact .cancelled (by simp)

/-! ### One more step -/

theorem reads_append (h : Traced l s steps) {x : Step}
    (hresult : ∀ i answer, x = .complete i answer → ∃ r, answer = .result r) (i : Nat) (r : Read)
    (hread : (l.run s (steps ++ [x])).read? i = some r) :
    (∃ requested, l.resolver.resolve requested = .ok r.path) ∧ r.key = l.resolver.key r.path ∧
      ∀ answer, r.stage.answer? = some answer →
        ∃ result, answer = .result result ∧ ReaderAnswers l s (steps ++ [x]) i r.path result := by
  rw [run_append_singleton] at hread
  cases hold : (l.run s steps).read? i with
  | none =>
    obtain ⟨requested, path, -, hresolve, rfl⟩ := exists_call_of_read?_step hold hread
    exact ⟨⟨requested, hresolve⟩, rfl, fun answer hanswer => absurd hanswer (by simp [Stage.answer?])⟩
  | some old =>
    obtain ⟨key, path, stage⟩ := old
    obtain ⟨stage', hread', hchange⟩ := read?_step (l := l) hold x
    obtain rfl := Option.some.inj (hread'.symm.trans hread)
    obtain ⟨hresolve, hkey, hanswers⟩ := h.reads i _ hold
    refine ⟨hresolve, hkey, fun answer hanswer => ?_⟩
    -- Either the answer was there before, or this step is the reader's answer.
    rcases hchange with hsame | ⟨since, answer', rfl, rfl, hnew⟩
    · obtain ⟨r, rfl, hr⟩ := hanswers answer (hsame ▸ hanswer)
      exact ⟨r, rfl, hr.append [x]⟩
    · obtain rfl := Option.some.inj (hnew.symm.trans hanswer)
      obtain ⟨r, rfl⟩ := hresult i _ rfl
      exact ⟨r, rfl, readerAnswers_complete hold⟩

theorem cache_append (h : Traced l s steps) (x : Step) (key text : String)
    (hcache : (l.run s (steps ++ [x])).cache.get? key = some text) :
    ∃ requested path i r, l.resolver.resolve requested = .ok path ∧ l.resolver.key path = key ∧
      ReaderAnswers l s (steps ++ [x]) i path r ∧ r.status = .ok ∧ content r = text := by
  rw [run_append_singleton] at hcache
  rcases get?_step hcache with hold | ⟨i, path, since, r, hread, rfl, hok, htext⟩
  · obtain ⟨requested, path, i, r, hresolve, hkey, hanswers, hok, htext⟩ := h.cache key text hold
    exact ⟨requested, path, i, r, hresolve, hkey, hanswers.append [x], hok, htext⟩
  · obtain ⟨⟨requested, hresolve⟩, hkey, -⟩ := h.reads i _ hread
    exact ⟨requested, path, i, r, hresolve, hkey.symm, readerAnswers_complete hread, hok, htext⟩

/-- With a call there is one caller more, and those before it stay as they are. -/
theorem callers_append_call (h : Traced l s steps) (hkeys : l.KeysDiffer) (new : String) :
    (l.run s (steps ++ [.call new])).callers.length = (requested (steps ++ [.call new])).length ∧
      ∀ c path ticket caller, (requested (steps ++ [.call new]))[c]? = some path →
        (l.tickets s (steps ++ [.call new]))[c]? = some ticket →
        (l.run s (steps ++ [.call new])).callers[c]? = some caller →
        Accounted l s (steps ++ [.call new]) c path ticket caller := by
  obtain ⟨newCaller, hcallers, haccounted⟩ := h.call hkeys new
  rw [hcallers, requested_append, tickets_append]
  constructor
  · rw [List.length_append, List.length_append, h.length_callers]
    rfl
  · intro c path ticket caller hpath hticket hcaller
    -- The caller is one of those before, or the new one at the end.
    rcases Nat.lt_or_ge c (requested steps).length with hlt | hge
    · rw [List.getElem?_append_left hlt] at hpath
      rw [List.getElem?_append_left (by rw [length_tickets]; exact hlt)] at hticket
      rw [List.getElem?_append_left (by rw [h.length_callers]; exact hlt)] at hcaller
      exact (h.callers c path ticket caller hpath hticket hcaller).append_singleton _
    · rw [List.getElem?_append_right hge] at hpath
      rw [List.getElem?_append_right (by rw [length_tickets]; exact hge)] at hticket
      rw [List.getElem?_append_right (by rw [h.length_callers]; exact hge)] at hcaller
      obtain rfl : path = new := List.mem_singleton.mp (List.mem_of_getElem? hpath)
      obtain rfl := List.mem_singleton.mp (List.mem_of_getElem? hticket)
      obtain rfl := List.mem_singleton.mp (List.mem_of_getElem? hcaller)
      exact haccounted c

theorem append_singleton (h : Traced l s steps) (hkeys : l.KeysDiffer) {x : Step}
    (hresult : ∀ i answer, x = .complete i answer → ∃ r, answer = .result r) :
    Traced l s (steps ++ [x]) := by
  have hflight : SingleFlight (l.run s (steps ++ [x])) := by
    rw [run_append_singleton]
    exact h.flight.step l x
  have hreads := h.reads_append hresult
  by_cases hcall : ∃ path, x = .call path
  · obtain ⟨path, rfl⟩ := hcall
    obtain ⟨hlength, hcallers⟩ := h.callers_append_call hkeys path
    exact ⟨hflight, hreads, h.cache_append _, hlength, hcallers⟩
  · have hother : ∀ path, x ≠ .call path := fun path hx => hcall ⟨path, hx⟩
    obtain ⟨hlength, hcallers⟩ := h.keepsCallers hother
    refine ⟨hflight, hreads, h.cache_append x, ?_, ?_⟩
    · rw [hlength, h.length_callers, requested_append, requested_of_not_call hother,
        List.append_nil]
    · rw [requested_append, requested_of_not_call hother, List.append_nil, tickets_append,
        tickets_of_not_call hother, List.append_nil]
      exact hcallers

end Traced

theorem traced_run (hkeys : l.KeysDiffer) (now : Binary64) (hresults : ResultsOnly steps) :
    Traced l (.initial now) steps := by
  -- Steps are added at the end, since what is traced is the history up to them.
  induction steps using List.reverseRecOn with
  | nil =>
    refine ⟨.initial {} now, ?_, ?_, rfl, ?_⟩
    · intro i r hread
      exact absurd hread (by simp [run_nil, State.initial, State.read?])
    · intro key text hcache
      exact absurd hcache (by simp [run_nil, State.initial, Cache.get?])
    · intro c path ticket caller hpath
      exact absurd hpath (by simp [requested])
  | append_singleton steps x ih =>
    refine (ih fun i answer hmem => ?_).append_singleton hkeys fun i answer hx => ?_
    · exact hresults i answer (List.mem_append_left _ hmem)
    · exact hresults i answer (by rw [hx]; simp)

theorem keysDiffer_of_make {directory root : String} {extensions : Option (List String)}
    (hl : l.resolver = .make directory root extensions)
    (hdirectory : Path.isAbsolute directory.toList = true) : l.KeysDiffer := by
  intro requested requested' path path' hresolve hresolve' hkey
  rw [hl] at hresolve hresolve' hkey
  exact Resolver.key_injective hdirectory hresolve hresolve' hkey

/-! ### What callers get -/

/-- What a call gets without a cache: its path is resolved and read. -/
def direct (l : Loader) (reader : String → ReadResult) (requested : String) : Ending String :=
  match l.resolver.resolve requested with
  | .error e => .failed e
  | .ok path => l.outcome (l.resolver.key path) (.result (reader path))

theorem direct_of_resolve {requested path : String}
    (h : l.resolver.resolve requested = .ok path) (reader : String → ReadResult) :
    l.direct reader requested = l.outcome (l.resolver.key path) (.result (reader path)) := by
  rw [direct, h]

theorem outcome_of_ok {key : String} {r : ReadResult} (h : r.status = .ok) :
    l.outcome key (.result r) = .returned (content r) := by
  rw [outcome]
  simp only [h]

theorem outcome_cases (l : Loader) (key : String) (r : ReadResult) :
    (r.status = .ok ∧ l.outcome key (.result r) = .returned (content r)) ∨
      (r.status = .notFound ∧
        l.outcome key (.result r) = .failed (.notFound key l.resolver.hint)) ∨
      (r.status ≠ .ok ∧ r.status ≠ .notFound ∧
        l.outcome key (.result r) = .failed (.unreadable key r.fault)) := by
  rw [outcome]
  cases hstatus : r.status <;> simp

namespace Traced

/-- An answered caller was refused, stopped, or has the outcome of a read of its path. -/
theorem ending_cases (h : Traced l s steps) {c : Nat} {path : String} {ending : Ending String}
    (hpath : (requested steps)[c]? = some path)
    (hending : (l.run s steps).ending? c = some ending) :
    (∃ e, l.resolver.resolve path = .error e ∧ ending = .failed e) ∨
      (Step.cancel c ∈ steps ∧ ending = .stopped .cancelled) ∨
      ∃ resolved i r, l.resolver.resolve path = .ok resolved ∧
        ReaderAnswers l s steps i resolved r ∧
        ending = l.outcome (l.resolver.key resolved) (.result r) := by
  have hlength : c < (l.tickets s steps).length := by
    rw [length_tickets]
    exact (List.getElem?_eq_some_iff.mp hpath).1
  have haccounted := h.callers c path _ _ hpath (List.getElem?_eq_getElem hlength)
    (ending?_eq_some_iff.mp hending)
  generalize (l.tickets s steps)[c] = ticket at haccounted
  cases haccounted with
  | refused hresolve => exact .inl ⟨_, hresolve, rfl⟩
  | hit hresolve hanswers hok =>
    exact .inr (.inr ⟨_, _, _, hresolve, hanswers, (outcome_of_ok hok).symm⟩)
  | cancelled hcancel => exact .inr (.inl ⟨hcancel, rfl⟩)
  | answered hresolve hread hanswer =>
    obtain ⟨-, -, hresult⟩ := h.reads _ _ hread
    obtain ⟨r, rfl, hanswers⟩ := hresult _ hanswer
    exact .inr (.inr ⟨_, _, _, hresolve, hanswers, rfl⟩)

theorem ending_of_ticket (h : Traced l s steps) {c i : Nat} {ending : Ending String}
    (hticket : (l.tickets s steps)[c]? = some (some i))
    (hending : (l.run s steps).ending? c = some ending) (hstop : ending ≠ .stopped .cancelled) :
    ∃ key path stage answer, (l.run s steps).read? i = some ⟨key, path, stage⟩ ∧
      stage.answer? = some answer ∧ ending = l.outcome key answer := by
  have hlength : c < (requested steps).length := by
    rw [← length_tickets l s]
    exact (List.getElem?_eq_some_iff.mp hticket).1
  have haccounted := h.callers c _ _ _ (List.getElem?_eq_getElem hlength) hticket
    (ending?_eq_some_iff.mp hending)
  cases haccounted with
  | cancelled => exact absurd rfl hstop
  | answered _ hread hanswer => exact ⟨_, _, _, _, hread, hanswer, rfl⟩

/-- With a reader that always gives the same for a path, a caller gets what reading gives. -/
theorem ending_eq_direct (h : Traced l s steps) {reader : String → ReadResult}
    (hreader : ∀ i path r, ReaderAnswers l s steps i path r → r = reader path) {c : Nat}
    {path : String} {ending : Ending String} (hpath : (requested steps)[c]? = some path)
    (hending : (l.run s steps).ending? c = some ending) (hstop : ending ≠ .stopped .cancelled) :
    ending = l.direct reader path := by
  rcases h.ending_cases hpath hending with
    ⟨e, hresolve, rfl⟩ | ⟨-, rfl⟩ | ⟨resolved, i, r, hresolve, hanswers, rfl⟩
  · rw [direct, hresolve]
  · exact absurd rfl hstop
  · rw [direct_of_resolve hresolve, hreader i resolved r hanswers]

theorem ending?_of_waiting (h : Traced l s steps) {reader : String → ReadResult}
    (hreader : ∀ i path r, ReaderAnswers l s steps i path r → r = reader path) {c i : Nat}
    {path : String} (hpath : (requested steps)[c]? = some path)
    (hcaller : (l.run s steps).callers[c]? = some (.waiting i)) :
    ∃ resolved, l.resolver.resolve path = .ok resolved ∧
      (l.run (l.run s steps) [.begin i, .complete i (.result (reader resolved)), .announce i,
        .deliver c]).ending? c = some (l.direct reader path) := by
  have hlength : c < (l.tickets s steps).length := by
    rw [length_tickets]
    exact (List.getElem?_eq_some_iff.mp hpath).1
  have haccounted := h.callers c path _ _ hpath (List.getElem?_eq_getElem hlength) hcaller
  generalize (l.tickets s steps)[c] = ticket at haccounted
  cases haccounted with
  | @waiting resolved stage _ hresolve hread =>
    refine ⟨resolved, hresolve, ?_⟩
    rw [direct_of_resolve hresolve]
    refine ending?_finish hcaller hread fun answer hanswer => ?_
    obtain ⟨-, -, hresult⟩ := h.reads _ _ hread
    obtain ⟨r, rfl, hanswers⟩ := hresult answer hanswer
    rw [hreader i resolved r hanswers]

end Traced

theorem get?_run_of_not_clear {key text : String} (hclear : Step.clear ∉ steps)
    (h : s.cache.get? key = some text) : (l.run s steps).cache.get? key = some text := by
  induction steps using List.reverseRecOn with
  | nil => exact h
  | append_singleton steps x ih =>
    rw [run_append_singleton]
    refine get?_step_of_ne_clear ?_ (ih fun hmem => hclear (List.mem_append_left _ hmem))
    rintro rfl
    exact hclear (by simp)

/-- What a caller who asked for a path was told comes from a read of that path, from the
path itself, or from the caller. -/
def Explained (l : Loader) (s : State) (steps : List Step) (c : Nat) (requested : String) :
    Ending String → Prop
  | .returned text =>
    ∃ path i r, l.resolver.resolve requested = .ok path ∧ ReaderAnswers l s steps i path r ∧
      r.status = .ok ∧ r.content.getD "" = text
  | .failed e =>
    (∃ denial, e = .accessDenied requested denial ∧ l.resolver.resolve requested = .error e) ∨
      ∃ path i r, l.resolver.resolve requested = .ok path ∧ ReaderAnswers l s steps i path r ∧
        ((r.status = .notFound ∧ e = .notFound (l.resolver.key path) l.resolver.hint) ∨
          (r.status ≠ .ok ∧ r.status ≠ .notFound ∧
            e = .unreadable (l.resolver.key path) r.fault))
  | .stopped stop => stop = .cancelled ∧ Step.cancel c ∈ steps

theorem Traced.explained (h : Traced l s steps) {c : Nat} {path : String}
    {ending : Ending String} (hpath : (requested steps)[c]? = some path)
    (hending : (l.run s steps).ending? c = some ending) :
    Explained l s steps c path ending := by
  rcases h.ending_cases hpath hending with
    ⟨e, hresolve, rfl⟩ | ⟨hcancel, rfl⟩ | ⟨resolved, i, r, hresolve, hanswers, rfl⟩
  · obtain ⟨denial, rfl⟩ := Resolver.eq_accessDenied_of_resolve hresolve
    exact .inl ⟨denial, rfl, hresolve⟩
  · exact ⟨rfl, hcancel⟩
  · rcases outcome_cases l (l.resolver.key resolved) r with
      ⟨hok, houtcome⟩ | ⟨hnot, houtcome⟩ | ⟨hok, hnot, houtcome⟩
    · rw [houtcome]
      exact ⟨resolved, i, r, hresolve, hanswers, hok, rfl⟩
    · rw [houtcome]
      exact .inr ⟨resolved, i, r, hresolve, hanswers, .inl ⟨hnot, rfl⟩⟩
    · rw [houtcome]
      exact .inr ⟨resolved, i, r, hresolve, hanswers, .inr ⟨hok, hnot, rfl⟩⟩

/-- Whatever the order of calls, answers, announcements, stops and clears: callers are told
what a read of their own path gave, for which the reader was asked, those who share a read
are told the same, and a text stays in the cache until that is cleared.  With a reader that
always gives the same for a path, callers are told what they would be told without a cache,
and those who still wait need only wait for their read. -/
theorem load_outcomes (l : Loader) (directory root : String) (extensions : Option (List String))
    (hl : l.resolver = .make directory root extensions)
    (hdirectory : Path.isAbsolute directory.toList = true) (now : Binary64) (steps : List Step)
    (hresults : ResultsOnly steps) :
    let s₀ := State.initial now
    let s := l.run s₀ steps
    s.callers.length = (requested steps).length ∧
      (∀ c path ending, (requested steps)[c]? = some path → s.ending? c = some ending →
        Explained l s₀ steps c path ending) ∧
      (∀ i path r, ReaderAnswers l s₀ steps i path r → path ∈ s.requests) ∧
      (∀ c c' i ending ending', (l.tickets s₀ steps)[c]? = some (some i) →
        (l.tickets s₀ steps)[c']? = some (some i) → s.ending? c = some ending →
        s.ending? c' = some ending' → ending ≠ .stopped .cancelled →
        ending' ≠ .stopped .cancelled → ending = ending') ∧
      (∀ before after key text, steps = before ++ after → Step.clear ∉ after →
        (l.run s₀ before).cache.get? key = some text → s.cache.get? key = some text) ∧
      ∀ reader : String → ReadResult,
        (∀ i path r, ReaderAnswers l s₀ steps i path r → r = reader path) →
        ∀ c path, (requested steps)[c]? = some path →
          (∀ ending, s.ending? c = some ending → ending ≠ .stopped .cancelled →
            ending = l.direct reader path) ∧
          ∀ i, s.callers[c]? = some (.waiting i) →
            ∃ resolved, l.resolver.resolve path = .ok resolved ∧
              (l.run s [.begin i, .complete i (.result (reader resolved)), .announce i,
                .deliver c]).ending? c = some (l.direct reader path) := by
  intro s₀ s
  have h : Traced l s₀ steps := traced_run (keysDiffer_of_make hl hdirectory) now hresults
  have hasked : Asked s₀ := fun i r hread => absurd hread (by simp [s₀, State.initial, State.read?])
  refine ⟨h.length_callers, ?_, ?_, ?_, ?_, ?_⟩
  · intro c path ending hpath hending
    exact h.explained hpath hending
  · intro i path r hanswers
    exact hanswers.mem_requests hasked
  · intro c c' i ending ending' hticket hticket' hending hending' hstop hstop'
    -- Both endings are the outcome of one answer, that of the read they share.
    obtain ⟨key, path, stage, answer, hread, hanswer, rfl⟩ :=
      h.ending_of_ticket hticket hending hstop
    obtain ⟨key', path', stage', answer', hread', hanswer', rfl⟩ :=
      h.ending_of_ticket hticket' hending' hstop'
    obtain ⟨rfl, rfl, rfl⟩ := Read.mk.inj (Option.some.inj (hread.symm.trans hread'))
    rw [Option.some.inj (hanswer.symm.trans hanswer')]
  · intro before after key text hsteps hclear hcache
    show (l.run s₀ steps).cache.get? key = some text
    rw [hsteps, run_append]
    exact get?_run_of_not_clear hclear hcache
  · intro reader hreader c path hpath
    constructor
    · intro ending hending hstop
      exact h.ending_eq_direct hreader hpath hending hstop
    · intro i hcaller
      exact h.ending?_of_waiting hreader hpath hcaller

theorem load_outcomes_alias :
    let l : Loader := ⟨.make "/" "t" none, []⟩
    let s₀ := State.initial (.zero false)
    let steps : List Step := [.call "a.md", .call "./a.md", .clear, .cancel 0] ++
      [.begin 0, .complete 0 (.result (.ofText "A")), .announce 0, .deliver 1]
    ResultsOnly steps ∧ (l.run s₀ steps).ending? 1 = some (.returned "A") ∧
      ∃ path i r, l.resolver.resolve "./a.md" = .ok path ∧ ReaderAnswers l s₀ steps i path r ∧
        r.status = .ok ∧ r.content.getD "" = "A" := by
  intro l s₀ steps
  have hresults : ResultsOnly steps := by
    intro i answer hmem
    simp only [steps, List.mem_append, List.mem_cons, reduceCtorEq, Step.complete.injEq,
      List.not_mem_nil, false_or, or_false] at hmem
    exact ⟨_, hmem.2⟩
  have hending : (l.run s₀ steps).ending? 1 = some (.returned "A") := by
    have hfirst : l.resolver.resolve "a.md" = .ok "/t/a.md" := by cbv
    have hsecond : l.resolver.resolve "./a.md" = .ok "/t/a.md" := by cbv
    have hkey : l.resolver.key "/t/a.md" = "a.md" := by cbv
    obtain ⟨hcaller, hread⟩ :
        (l.run s₀ [.call "a.md", .call "./a.md", .clear, .cancel 0]).callers[1]? =
            some (.waiting 0) ∧
          (l.run s₀ [.call "a.md", .call "./a.md", .clear, .cancel 0]).read? 0 =
            some ⟨"a.md", "/t/a.md", .queued⟩ := by
      simp [run, step, call, hfirst, hsecond, hkey, s₀, State.initial, start, join, cancel, clear,
        Cache.get?, State.read?, State.withCaller, State.counting, State.logging]
    rw [run_append]
    exact ending?_finish hcaller hread fun answer hanswer =>
      absurd hanswer (by simp [Stage.answer?])
  obtain ⟨-, hexplained, -⟩ :=
    load_outcomes l "/" "t" none rfl (by decide) (.zero false) steps hresults
  exact ⟨hresults, hending, hexplained 1 "./a.md" _ rfl hending⟩

end PromptShelf.Loader
