/-
Several templates asked for at once.

A preload calls for all paths before anything else happens.  After the calls (`Launched`) there
is one new read for each key that was not in the cache, all of them queued, and each caller is
answered or waits for the read of its key.  While these reads go on, in whatever order
(`Underway`), a new read can only get the reader's answer for its path, the cache is what it was
and the texts of the new reads that ended well, and a caller can only be told what the read of
its path gave.

* **`launched_startPreload`** — what the calls of a preload do, one after the other;
* **`Underway.works`** — what stays true whatever the order of the work is;
* **`Underway.ending_eq`** — so every caller is told what it would be told alone;
* **`Underway.exists_works`** — and none of them has to wait for ever.
-/
import PromptShelf.Loader.Preload
import PromptShelf.Proofs.Loader.Outcomes
import PromptShelf.Proofs.Loader.Requests
import PromptShelf.Proofs.Loader.Settling

namespace PromptShelf.Loader

/-- Nothing is in flight, and no end is left to be announced. -/
structure Idle (s : State) : Prop where
  flight : s.inFlight = []
  announced : Announced s

/-- What a caller is told who asks for a path in a state where nothing is in flight. -/
def found (l : Loader) (reader : String → ReadResult) (s : State) (requested : String) :
    Ending String :=
  match l.resolver.resolve requested with
  | .error e => .failed e
  | .ok path =>
    match s.cache.get? (l.resolver.key path) with
    | some text => .returned text
    | none => l.outcome (l.resolver.key path) (.result (reader path))

/-- The read is one of those paths that a state does not have in its cache. -/
structure Fresh (l : Loader) (s : State) (paths : List String) (r : Read) : Prop where
  key : r.key = l.resolver.key r.path
  uncached : s.cache.get? r.key = none
  asked : ∃ p ∈ paths, l.resolver.resolve p = .ok r.path

/-- How a caller who asked for a path in the state `s` can stand in the state `t`. -/
inductive Stands (l : Loader) (reader : String → ReadResult) (s t : State) (requested : String) :
    Caller → Prop
  | refused {e : Error} (hresolve : l.resolver.resolve requested = .error e) :
    Stands l reader s t requested (.done (.failed e))
  | hit {path text : String} (hresolve : l.resolver.resolve requested = .ok path)
      (hcache : s.cache.get? (l.resolver.key path) = some text) :
    Stands l reader s t requested (.done (.returned text))
  | waiting {path : String} {stage : Stage} {i : Nat}
      (hresolve : l.resolver.resolve requested = .ok path)
      (hcache : s.cache.get? (l.resolver.key path) = none) (hnew : s.reads.length ≤ i)
      (hread : t.read? i = some ⟨l.resolver.key path, path, stage⟩) :
    Stands l reader s t requested (.waiting i)
  | answered {path : String} {stage : Stage} {i : Nat}
      (hresolve : l.resolver.resolve requested = .ok path)
      (hcache : s.cache.get? (l.resolver.key path) = none) (hnew : s.reads.length ≤ i)
      (hread : t.read? i = some ⟨l.resolver.key path, path, stage⟩)
      (hanswer : stage.answer? = some (.result (reader path))) :
    Stands l reader s t requested
      (.done (l.outcome (l.resolver.key path) (.result (reader path))))

/-- Behind the callers of `s` there is one for each of some paths. -/
def Attended (l : Loader) (reader : String → ReadResult) (s : State) (paths : List String)
    (t : State) : Prop :=
  ∀ (j : Nat) (p : String), paths[j]? = some p →
    ∃ caller, t.callers[s.callers.length + j]? = some caller ∧ Stands l reader s t p caller

/-- The state after a call for each of some paths. -/
structure Launched (l : Loader) (reader : String → ReadResult) (s : State) (paths : List String)
    (t : State) : Prop where
  flight : SingleFlight t
  cache : t.cache = s.cache
  reads : ∃ new, t.reads = s.reads ++ new ∧ ∀ r ∈ new, Fresh l s paths r ∧ r.stage = .queued
  length : t.callers.length = s.callers.length + paths.length
  callers : Attended l reader s paths t

variable {l : Loader} {reader : String → ReadResult} {s t u : State} {paths : List String}

theorem found_of_error {p : String} {e : Error} (h : l.resolver.resolve p = .error e) :
    l.found reader s p = .failed e := by
  rw [found, h]

theorem found_of_cached {p path text : String} (h : l.resolver.resolve p = .ok path)
    (hcache : s.cache.get? (l.resolver.key path) = some text) :
    l.found reader s p = .returned text := by
  simp only [found, h, hcache]

theorem found_of_read {p path : String} (h : l.resolver.resolve p = .ok path)
    (hcache : s.cache.get? (l.resolver.key path) = none) :
    l.found reader s p = l.outcome (l.resolver.key path) (.result (reader path)) := by
  simp only [found, h, hcache]

theorem Fresh.mono {paths' : List String} {r : Read} (h : Fresh l s paths r)
    (hsubset : paths ⊆ paths') : Fresh l s paths' r := by
  obtain ⟨p, hp, hresolve⟩ := h.asked
  exact ⟨h.key, h.uncached, p, hsubset hp, hresolve⟩

/-- How a caller stands does not change with what happens to others. -/
theorem Stands.step {p : String} {caller : Caller} (h : Stands l reader s t p caller)
    (x : Step) : Stands l reader s (l.step t x) p caller := by
  cases h with
  | refused hresolve => exact .refused hresolve
  | hit hresolve hcache => exact .hit hresolve hcache
  | waiting hresolve hcache hnew hread =>
    obtain ⟨stage', hread', -⟩ := read?_step (l := l) hread x
    exact .waiting hresolve hcache hnew hread'
  | answered hresolve hcache hnew hread hanswer =>
    obtain ⟨stage', hread', hanswer'⟩ := read?_step_of_answer (l := l) hread hanswer x
    exact .answered hresolve hcache hnew hread' hanswer'

theorem Idle.singleFlight (h : Idle s) : SingleFlight s := by
  constructor
  · rw [h.flight]
    exact List.nodup_nil
  · intro key i
    rw [h.flight]
    refine ⟨fun hmem => absurd hmem List.not_mem_nil, ?_⟩
    rintro ⟨⟨key', path, stage⟩, hread, -, hopen⟩
    obtain ⟨answer, rfl⟩ : ∃ answer, stage = .announced answer := h.announced i _ hread
    exact absurd hopen (Stage.not_isOpen_announced answer)

/-- A state that can be reached is idle when nothing is in flight. -/
theorem SingleFlight.idle (h : SingleFlight s) (hflight : s.inFlight = []) : Idle s := by
  refine ⟨hflight, fun i r hread => ?_⟩
  have hclosed : ¬ r.stage.IsOpen := by
    intro hopen
    have hmem := (h.mem_iff r.key i).mpr ⟨r, hread, rfl, hopen⟩
    rw [hflight] at hmem
    exact absurd hmem List.not_mem_nil
  cases hstage : r.stage with
  | queued => exact absurd (hstage ▸ Stage.isOpen_queued) hclosed
  | running since => exact absurd (hstage ▸ Stage.isOpen_running since) hclosed
  | ended answer => exact absurd (hstage ▸ Stage.isOpen_ended answer) hclosed
  | announced answer => exact ⟨answer, rfl⟩

/-! ### The calls -/

theorem Attended.call (h : Attended l reader s paths t)
    (hlength : t.callers.length = s.callers.length + paths.length) (p : String) (caller : Caller)
    (hcallers : (l.step t (.call p)).callers = t.callers ++ [caller])
    (hnew : Stands l reader s (l.step t (.call p)) p caller) :
    Attended l reader s (paths ++ [p]) (l.step t (.call p)) := by
  intro j p' hp'
  rw [hcallers]
  -- The path is one of those before, or the new one at the end.
  rcases Nat.lt_or_ge j paths.length with hlt | hge
  · rw [List.getElem?_append_left hlt] at hp'
    obtain ⟨caller', hcaller', hstands⟩ := h j p' hp'
    have hbound : s.callers.length + j < t.callers.length := by omega
    exact ⟨caller', (List.getElem?_append_left hbound).trans hcaller', hstands.step _⟩
  · rw [List.getElem?_append_right hge] at hp'
    obtain ⟨hj, -⟩ := List.getElem?_eq_some_iff.mp hp'
    obtain rfl : p' = p := List.mem_singleton.mp (List.mem_of_getElem? hp')
    have hlast : s.callers.length + j = t.callers.length := by
      simp only [List.length_singleton] at hj
      omega
    rw [hlast]
    exact ⟨caller, List.getElem?_concat_length .., hnew⟩

namespace Launched

/-- A read in flight is a new one, of the path that has its key, and still queued. -/
theorem read_of_lookup (h : Launched l reader s paths t) (hs : Idle s) (hkeys : l.KeysDiffer)
    {p path : String} {i : Nat} (hresolve : l.resolver.resolve p = .ok path)
    (hlookup : t.inFlight.lookup (l.resolver.key path) = some i) :
    s.reads.length ≤ i ∧ t.read? i = some ⟨l.resolver.key path, path, .queued⟩ := by
  obtain ⟨new, hreads, hnew⟩ := h.reads
  obtain ⟨⟨key, path', stage⟩, hread, rfl, hopen⟩ := h.flight.lookup_iff.mp hlookup
  rcases Nat.lt_or_ge i s.reads.length with hlt | hge
  · have hold : s.read? i = some ⟨l.resolver.key path, path', stage⟩ := by
      rw [State.read?, ← List.getElem?_append_left hlt, ← hreads]
      exact hread
    obtain ⟨answer, rfl⟩ : ∃ answer, stage = .announced answer := hs.announced i _ hold
    exact absurd hopen (Stage.not_isOpen_announced answer)
  · have hmem : (⟨l.resolver.key path, path', stage⟩ : Read) ∈ new := by
      rw [State.read?, hreads, List.getElem?_append_right hge] at hread
      exact List.mem_of_getElem? hread
    obtain ⟨hfresh, hqueued⟩ := hnew _ hmem
    obtain rfl : stage = .queued := hqueued
    obtain ⟨p', -, hresolve'⟩ := hfresh.asked
    obtain rfl := hkeys _ _ _ _ hresolve hresolve' hfresh.key
    exact ⟨hge, hread⟩

theorem call (h : Launched l reader s paths t) (hs : Idle s) (hkeys : l.KeysDiffer) (p : String) :
    Launched l reader s (paths ++ [p]) (l.step t (.call p)) := by
  have hflight := h.flight.step l (.call p)
  obtain ⟨new, hreads, hnew⟩ := h.reads
  have hmore : ∀ r ∈ new, Fresh l s (paths ++ [p]) r ∧ r.stage = .queued := fun r hr =>
    ⟨(hnew r hr).1.mono (List.subset_append_left ..), (hnew r hr).2⟩
  have hattended := h.callers.call h.length p
  have hlength : ∀ caller : Caller,
      (t.callers ++ [caller]).length = s.callers.length + (paths ++ [p]).length := by
    intro caller
    simp only [List.length_append, List.length_singleton, h.length]
    omega
  generalize hu : l.step t (.call p) = u at hflight hattended
  have hmove := hu ▸ moves_step l t (.call p)
  cases hmove with
  | refused hresolve =>
    exact ⟨hflight, h.cache, ⟨new, hreads, hmore⟩, hlength _, hattended _ rfl (.refused hresolve)⟩
  | hit hresolve hcache =>
    have hcached := h.cache ▸ hcache
    exact ⟨hflight, h.cache, ⟨new, hreads, hmore⟩, hlength _, hattended _ rfl (.hit hresolve hcached)⟩
  | joined hresolve hcache hlookup =>
    have huncached := h.cache ▸ hcache
    obtain ⟨hge, hread⟩ := h.read_of_lookup hs hkeys hresolve hlookup
    exact ⟨hflight, h.cache, ⟨new, hreads, hmore⟩, hlength _,
      hattended _ rfl (.waiting hresolve huncached hge hread)⟩
  | joinedLate hresolve hcache hlookup hanswer =>
    obtain ⟨-, hread⟩ := h.read_of_lookup hs hkeys hresolve hlookup
    rw [State.answer?, hread] at hanswer
    exact absurd hanswer (by simp [Stage.answer?])
  | @started _ path hresolve hcache hlookup =>
    have huncached := h.cache ▸ hcache
    have hge : s.reads.length ≤ t.reads.length := by
      rw [hreads, List.length_append]
      exact Nat.le_add_right ..
    refine ⟨hflight, h.cache, ⟨new ++ [⟨l.resolver.key path, path, .queued⟩], ?_, ?_⟩,
      hlength _, hattended _ rfl (.waiting hresolve huncached hge (List.getElem?_concat_length ..))⟩
    · show t.reads ++ _ = _
      rw [hreads, List.append_assoc]
    · intro r hr
      rcases List.mem_append.mp hr with hmem | hlast
      · exact hmore r hmem
      · obtain rfl := List.mem_singleton.mp hlast
        exact ⟨⟨rfl, huncached, p, by simp, hresolve⟩, rfl⟩
  | idle hcall => exact absurd rfl (hcall p)

end Launched

/-- Before the first call nothing is new. -/
theorem Idle.launched (hs : Idle s) (l : Loader) (reader : String → ReadResult)
    (hcache : t.cache = s.cache) (hflight : t.inFlight = s.inFlight) (hreads : t.reads = s.reads)
    (hcallers : t.callers = s.callers) : Launched l reader s [] t := by
  have hsingle : SingleFlight t := by
    constructor
    · rw [hflight]
      exact hs.singleFlight.nodup
    · intro key i
      rw [hflight, State.read?, hreads]
      exact hs.singleFlight.mem_iff key i
  refine ⟨hsingle, hcache, ⟨[], ?_, ?_⟩, ?_, ?_⟩
  · rw [hreads, List.append_nil]
  · exact fun r hr => absurd hr List.not_mem_nil
  · rw [hcallers]
    rfl
  · exact fun j p hp => absurd hp (by simp)

/-- A preload has called for all its paths before any of the reads begins. -/
theorem launched_startPreload (hs : Idle s) (hkeys : l.KeysDiffer) (paths : List String) :
    Launched l reader s paths (l.startPreload s paths) := by
  rw [startPreload]
  generalize preloadStarted paths.length = started
  induction paths using List.reverseRecOn with
  | nil => exact hs.launched l reader rfl rfl rfl rfl
  | append_singleton paths p ih =>
    rw [List.foldl_append, List.foldl_cons, List.foldl_nil]
    exact ih.call hs hkeys p

/-! ### The work -/

/-- A new read of a key has ended well with a text. -/
def Filled (reader : String → ReadResult) (s t : State) (key text : String) : Prop :=
  ∃ i path stage, s.reads.length ≤ i ∧ t.read? i = some ⟨key, path, stage⟩ ∧
    stage.answer? = some (.result (reader path)) ∧ (reader path).status = .ok ∧
    content (reader path) = text

/-- The state while the reads for some paths go on. -/
structure Underway (l : Loader) (reader : String → ReadResult) (s : State) (paths : List String)
    (t : State) : Prop where
  earlier : ∀ i r, s.read? i = some r → t.read? i = some r
  new : ∀ i r, s.reads.length ≤ i → t.read? i = some r → Fresh l s paths r ∧
    ∀ answer, r.stage.answer? = some answer → answer = .result (reader r.path)
  unique : ∀ i j r r', s.reads.length ≤ i → s.reads.length ≤ j → t.read? i = some r →
    t.read? j = some r' → r.key = r'.key → i = j
  cache : ∀ key text, t.cache.get? key = some text ↔
    s.cache.get? key = some text ∨ Filled reader s t key text
  callers : Attended l reader s paths t

theorem Launched.underway (h : Launched l reader s paths t) : Underway l reader s paths t := by
  obtain ⟨new, hreads, hnew⟩ := h.reads
  have hmem : ∀ i r, s.reads.length ≤ i → t.read? i = some r → r ∈ new := by
    intro i r hge hread
    rw [State.read?, hreads, List.getElem?_append_right hge] at hread
    exact List.mem_of_getElem? hread
  have hqueued : ∀ i r, s.reads.length ≤ i → t.read? i = some r → r.stage = .queued :=
    fun i r hge hread => (hnew r (hmem i r hge hread)).2
  refine ⟨?_, ?_, ?_, ?_, h.callers⟩
  · intro i r hread
    obtain ⟨hlt, -⟩ := List.getElem?_eq_some_iff.mp hread
    rw [State.read?, hreads, List.getElem?_append_left hlt]
    exact hread
  · intro i r hge hread
    refine ⟨(hnew r (hmem i r hge hread)).1, fun answer hanswer => ?_⟩
    rw [hqueued i r hge hread] at hanswer
    exact absurd hanswer (by simp [Stage.answer?])
  · intro i j r r' hi hj hread hread' hkey
    have hopen : ∀ k r, s.reads.length ≤ k → t.read? k = some r → r.stage.IsOpen := by
      intro k r hk hr
      rw [hqueued k r hk hr]
      exact Stage.isOpen_queued
    exact h.flight.eq_of_mem ((h.flight.mem_iff r.key i).mpr ⟨r, hread, rfl, hopen i r hi hread⟩)
      ((h.flight.mem_iff r.key j).mpr ⟨r', hread', hkey.symm, hopen j r' hj hread'⟩)
  · intro key text
    rw [h.cache]
    refine ⟨.inl, ?_⟩
    rintro (hcached | ⟨i, path, stage, hge, hread, hanswer, -⟩)
    · exact hcached
    · obtain rfl : stage = .queued := hqueued i _ hge hread
      exact absurd hanswer (by simp [Stage.answer?])

/-- Before the work begins no read is running. -/
theorem Launched.halted (h : Launched l reader s paths t) (hs : Idle s) : Halted t := by
  obtain ⟨new, hreads, hnew⟩ := h.reads
  intro i r hread
  rw [State.read?, hreads] at hread
  rcases Nat.lt_or_ge i s.reads.length with hlt | hge
  · rw [List.getElem?_append_left hlt] at hread
    obtain ⟨answer, hannounced⟩ := hs.announced i r hread
    rw [hannounced]
    exact .inr rfl
  · rw [List.getElem?_append_right hge] at hread
    exact .inl (hnew r (List.mem_of_getElem? hread)).2

/-- Settling is one order of the work, and it leaves no caller of a preload waiting. -/
theorem Launched.settle (h : Launched l reader s paths t) (hs : Idle s) :
    Works l reader t (l.settle (answering reader) t) ∧ ∀ j < paths.length,
      ((l.settle (answering reader) t).ending? (s.callers.length + j)).isSome := by
  obtain ⟨hworks, htold⟩ := (h.halted hs).settle l reader
  refine ⟨hworks, fun j hj => ?_⟩
  obtain ⟨caller, hcaller, hstands⟩ := h.callers j _ (List.getElem?_eq_getElem hj)
  cases hstands with
  | refused | hit | answered => exact hworks.isSome_ending? (isSome_of_done hcaller)
  | waiting _ _ _ hread => exact htold _ _ hcaller (Option.isSome_iff_exists.mpr ⟨_, hread⟩)

theorem Filled.step {key text : String} (h : Filled reader s t key text) (x : Step) :
    Filled reader s (l.step t x) key text := by
  obtain ⟨i, path, stage, hge, hread, hanswer, hok, htext⟩ := h
  obtain ⟨stage', hread', hanswer'⟩ := read?_step_of_answer (l := l) hread hanswer x
  exact ⟨i, path, stage', hge, hread', hanswer', hok, htext⟩

namespace Underway

variable {x : Step}

theorem new_of_running (h : Underway l reader s paths t) (hs : Idle s) {i : Nat}
    {key path : String} {since : Binary64} (hread : t.read? i = some ⟨key, path, .running since⟩) :
    s.reads.length ≤ i := by
  rcases Nat.lt_or_ge i s.reads.length with hlt | hge
  · have hold := h.earlier i _ (List.getElem?_eq_getElem hlt)
    obtain ⟨answer, hstage⟩ := hs.announced i _ (List.getElem?_eq_getElem hlt)
    rw [← Option.some.inj (hread.symm.trans hold)] at hstage
    exact absurd hstage (by simp)
  · exact hge

/-- The text of a key that is being read is not in the cache yet. -/
theorem unfilled_of_running (h : Underway l reader s paths t) {i : Nat} {key path : String}
    {since : Binary64} (hge : s.reads.length ≤ i)
    (hread : t.read? i = some ⟨key, path, .running since⟩) : t.cache.get? key = none := by
  cases hcache : t.cache.get? key with
  | none => rfl
  | some text =>
    rcases (h.cache key text).mp hcache with hcached | ⟨j, path', stage, hj, hread', hanswer, -⟩
    · have huncached := (h.new i _ hge hread).1.uncached
      exact absurd (huncached.symm.trans hcached) (by simp)
    · obtain rfl := h.unique i j _ _ hge hj hread hread' rfl
      obtain ⟨-, -, rfl⟩ := Read.mk.inj (Option.some.inj (hread.symm.trans hread'))
      exact absurd hanswer (by simp [Stage.answer?])

theorem cache_step (h : Underway l reader s paths t) (hs : Idle s) (hx : Permitted reader t x)
    (key text : String) : (l.step t x).cache.get? key = some text ↔
      s.cache.get? key = some text ∨ Filled reader s (l.step t x) key text := by
  constructor
  · intro hcache
    rcases get?_step hcache with hold | ⟨i, path, since, r, hread, rfl, hok, rfl⟩
    · exact ((h.cache key text).mp hold).imp_right fun hfilled => hfilled.step x
    · obtain rfl := Answer.result.inj (hx.answer_eq hread)
      exact .inr ⟨i, path, _, h.new_of_running hs hread, (complete_of_running hread _).1, rfl,
        hok, rfl⟩
  · rintro (hcached | ⟨i, path, stage', hge, hread', hanswer', hok, rfl⟩)
    · exact get?_step_of_ne_clear hx.not_clear ((h.cache key text).mpr (.inl hcached))
    · obtain ⟨stage, hread, hsame | ⟨since, answer, rfl, rfl, -⟩⟩ :=
        read?_of_step hx.not_call hread'
      · have hfilled : Filled reader s t key _ :=
          ⟨i, path, stage, hge, hread, hsame ▸ hanswer', hok, rfl⟩
        exact get?_step_of_ne_clear hx.not_clear ((h.cache key _).mpr (.inr hfilled))
      · -- The read ends with this step, and only now its text comes into the cache.
        obtain rfl := hx.answer_eq hread
        have hstored := (complete_stores hread (reader path)).2 hok
        show (complete t i (.result (reader path))).cache.get? key = _
        rw [hstored, Cache.get?_put, h.unfilled_of_running hge hread, if_pos rfl]
        rfl

theorem callers_step (h : Underway l reader s paths t) (hx : Permitted reader t x) :
    Attended l reader s paths (l.step t x) := by
  intro j p hp
  obtain ⟨caller, hcaller, hstands⟩ := h.callers j p hp
  rcases Loader.callers_step hcaller l x with
    hsame | ⟨i, rfl, ⟨rfl, -⟩ | ⟨key, path, answer, hannounced, htold⟩⟩
  · exact ⟨caller, hsame, hstands.step x⟩
  · exact absurd rfl (hx.not_cancel _)
  · -- The caller is told the answer of the read it waits for.
    refine ⟨_, htold, ?_⟩
    cases hstands with
    | waiting hresolve hcache hnew hread =>
      obtain ⟨rfl, rfl, rfl⟩ := Read.mk.inj (Option.some.inj (hannounced.symm.trans hread))
      have hresult : answer = .result (reader path) := (h.new i _ hnew hread).2 answer rfl
      obtain ⟨stage', hread', hanswer'⟩ := read?_step_of_answer (l := l) hread rfl x
      rw [hresult]
      exact .answered hresolve hcache hnew hread' (hanswer'.trans (congrArg some hresult))

theorem step (h : Underway l reader s paths t) (hs : Idle s) (hx : Permitted reader t x) :
    Underway l reader s paths (l.step t x) := by
  refine ⟨?_, ?_, ?_, h.cache_step hs hx, h.callers_step hx⟩
  · intro i r hread
    obtain ⟨key, path, stage⟩ := r
    obtain ⟨answer, rfl⟩ : ∃ answer, stage = .announced answer := hs.announced i _ hread
    exact read?_step_of_announced (h.earlier i _ hread) x
  · rintro i ⟨key, path, stage'⟩ hge hread'
    obtain ⟨stage, hread, hchange⟩ := read?_of_step hx.not_call hread'
    obtain ⟨hfresh, hanswers⟩ := h.new i _ hge hread
    refine ⟨⟨hfresh.key, hfresh.uncached, hfresh.asked⟩, fun answer hanswer => ?_⟩
    rcases hchange with hsame | ⟨since, answer', rfl, rfl, hnew⟩
    · exact hanswers answer (hsame ▸ hanswer)
    · obtain rfl := Option.some.inj (hnew.symm.trans hanswer)
      have hresult := hx.answer_eq hread
      exact hresult
  · rintro i j ⟨key, path, stage⟩ ⟨key', path', stage'⟩ hi hj hread hread' hkey
    obtain ⟨_, hold, -⟩ := read?_of_step hx.not_call hread
    obtain ⟨_, hold', -⟩ := read?_of_step hx.not_call hread'
    exact h.unique i j _ _ hi hj hold hold' hkey

theorem works (h : Underway l reader s paths t) (hs : Idle s) (hworks : Works l reader t u) :
    Underway l reader s paths u := by
  induction hworks with
  | refl => exact h
  | step _ hx ih => exact ih.step hs hx

/-- A caller that has been told anything was told what it would be told alone. -/
theorem ending_eq (h : Underway l reader s paths t) {j : Nat} {p : String}
    (hp : paths[j]? = some p) {ending : Ending String}
    (hending : t.ending? (s.callers.length + j) = some ending) :
    ending = l.found reader s p := by
  obtain ⟨caller, hcaller, hstands⟩ := h.callers j p hp
  obtain rfl := Option.some.inj (hcaller.symm.trans (ending?_eq_some_iff.mp hending))
  cases hstands with
  | refused hresolve => exact (found_of_error hresolve).symm
  | hit hresolve hcache => exact (found_of_cached hresolve hcache).symm
  | answered hresolve hcache => exact (found_of_read hresolve hcache).symm

/-- One caller more can be told its answer. -/
theorem exists_works_one (h : Underway l reader s paths t) {j : Nat} {p : String}
    (hp : paths[j]? = some p) :
    ∃ u, Works l reader t u ∧ (u.ending? (s.callers.length + j)).isSome := by
  obtain ⟨caller, hcaller, hstands⟩ := h.callers j p hp
  cases hstands with
  | refused | hit | answered => exact ⟨t, .refl, isSome_of_done hcaller⟩
  | @waiting path stage i hresolve hcache hnew hread =>
    have hanswers := (h.new i _ hnew hread).2
    refine ⟨l.run t [.begin i, .complete i (.result (reader path)), .announce i,
      .deliver (s.callers.length + j)], ?_,
      Option.isSome_iff_exists.mpr ⟨_, ending?_finish hcaller hread hanswers⟩⟩
    have hbegin : Works l reader t (begin t i) := Works.refl.step (x := .begin i) trivial
    have hpermitted : Permitted reader (begin t i) (.complete i (.result (reader path))) := by
      intro r hr
      obtain ⟨r', hr', -, hpath⟩ := hbegin.exists_read? hread
      obtain rfl := Option.some.inj (hr.symm.trans hr')
      rw [hpath]
    exact ((hbegin.step hpermitted).step (x := .announce i) trivial).step
      (x := .deliver (s.callers.length + j)) trivial

/-- Whatever has happened so far, all callers can be told their answers. -/
theorem exists_works (h : Underway l reader s paths t) (hs : Idle s) :
    ∃ u, Works l reader t u ∧
      ∀ j < paths.length, (u.ending? (s.callers.length + j)).isSome := by
  -- The callers are told one after the other, and those who were told stay so.
  have hfirst : ∀ n ≤ paths.length, ∃ u, Works l reader t u ∧
      ∀ j < n, (u.ending? (s.callers.length + j)).isSome := by
    intro n
    induction n with
    | zero => exact fun _ => ⟨t, .refl, fun j hj => absurd hj (Nat.not_lt_zero j)⟩
    | succ n ih =>
      intro hn
      obtain ⟨u, hworks, htold⟩ := ih (Nat.le_of_lt hn)
      obtain ⟨v, hmore, hlast⟩ :=
        (h.works hs hworks).exists_works_one (List.getElem?_eq_getElem (Nat.lt_of_succ_le hn))
      refine ⟨v, hworks.trans hmore, fun j hj => ?_⟩
      rcases Nat.lt_succ_iff_lt_or_eq.mp hj with hlt | rfl
      · exact hmore.isSome_ending? (htold j hlt)
      · exact hlast
  exact hfirst paths.length (Nat.le_refl _)

/-! ### When all have been told -/

variable (h : Underway l reader s paths t)
  (htold : ∀ j < paths.length, (t.ending? (s.callers.length + j)).isSome)

include h htold

/-- A path whose key was not in the cache has been read to the end. -/
theorem exists_answer {p path : String} (hp : p ∈ paths)
    (hresolve : l.resolver.resolve p = .ok path)
    (hcache : s.cache.get? (l.resolver.key path) = none) :
    ∃ i stage, s.reads.length ≤ i ∧ t.read? i = some ⟨l.resolver.key path, path, stage⟩ ∧
      stage.answer? = some (.result (reader path)) := by
  obtain ⟨j, hj⟩ := List.getElem?_of_mem hp
  obtain ⟨hlt, -⟩ := List.getElem?_eq_some_iff.mp hj
  obtain ⟨ending, hending⟩ := Option.isSome_iff_exists.mp (htold j hlt)
  obtain ⟨caller, hcaller, hstands⟩ := h.callers j p hj
  obtain rfl := Option.some.inj (hcaller.symm.trans (ending?_eq_some_iff.mp hending))
  cases hstands with
  | refused hrefuse => exact absurd (hrefuse.symm.trans hresolve) (by simp)
  | hit hpath hcached =>
    obtain rfl := Except.ok.inj (hpath.symm.trans hresolve)
    exact absurd (hcached.symm.trans hcache) (by simp)
  | answered hpath _ hnew hread hanswer =>
    obtain rfl := Except.ok.inj (hpath.symm.trans hresolve)
    exact ⟨_, _, hnew, hread, hanswer⟩

/-- The cache is what it was, and the texts of the paths that were read well. -/
theorem get?_eq_some_iff (key text : String) : t.cache.get? key = some text ↔
    s.cache.get? key = some text ∨ s.cache.get? key = none ∧ ∃ p ∈ paths, ∃ path,
      l.resolver.resolve p = .ok path ∧ l.resolver.key path = key ∧
        (reader path).status = .ok ∧ content (reader path) = text := by
  rw [h.cache]
  refine or_congr_right ⟨?_, ?_⟩
  · rintro ⟨i, path, stage, hnew, hread, -, hok, htext⟩
    obtain ⟨hfresh, -⟩ := h.new i _ hnew hread
    obtain ⟨p, hp, hresolve⟩ := hfresh.asked
    exact ⟨hfresh.uncached, p, hp, path, hresolve, hfresh.key.symm, hok, htext⟩
  · rintro ⟨hcache, p, hp, path, hresolve, rfl, hok, htext⟩
    obtain ⟨i, stage, hnew, hread, hanswer⟩ := h.exists_answer htold hp hresolve hcache
    exact ⟨i, path, stage, hnew, hread, hanswer, hok, htext⟩

/-- The reader was asked once for each path whose key was not in the cache. -/
theorem exists_requests (hs : Idle s) {r : Log.Record} {steps : List Step}
    (hrun : t = l.run (s.logging r) steps) :
    ∃ asked, t.requests = s.requests ++ asked ∧ (asked.map l.resolver.key).Nodup ∧
      ∀ path, path ∈ asked ↔ ∃ p ∈ paths, l.resolver.resolve p = .ok path ∧
        s.cache.get? (l.resolver.key path) = none := by
  obtain ⟨begun, hnodup, hmem, hrequests⟩ := requests_run l (s.logging r) steps
  rw [← hrun] at hmem hrequests
  have hbefore : ∀ i, HasBegun (s.logging r) i ↔ i < s.reads.length := by
    intro i
    constructor
    · rintro ⟨_, hread, -⟩
      exact (List.getElem?_eq_some_iff.mp hread).1
    · intro hlt
      obtain ⟨answer, hannounced⟩ := hs.announced i _ (List.getElem?_eq_getElem hlt)
      exact ⟨_, List.getElem?_eq_getElem hlt, by rw [hannounced]; simp⟩
  have hnew : ∀ i ∈ begun, s.reads.length ≤ i := fun i hi =>
    Nat.le_of_not_lt fun hlt => ((hmem i).mp hi).2 ((hbefore i).mpr hlt)
  refine ⟨pathsOf t begun, hrequests, ?_, fun path => ?_⟩
  · rw [pathsOf, List.map_filterMap, List.Nodup, List.pairwise_filterMap]
    refine hnodup.imp_of_mem fun {i j} hi hj hne key hkey key' hkey' heq => hne ?_
    obtain ⟨pi, hpi, rfl⟩ := Option.map_eq_some_iff.mp hkey
    obtain ⟨pj, hpj, rfl⟩ := Option.map_eq_some_iff.mp hkey'
    obtain ⟨ri, hri, rfl⟩ := Option.map_eq_some_iff.mp hpi
    obtain ⟨rj, hrj, rfl⟩ := Option.map_eq_some_iff.mp hpj
    have hki := (h.new i ri (hnew i hi) hri).1.key
    have hkj := (h.new j rj (hnew j hj) hrj).1.key
    exact h.unique i j ri rj (hnew i hi) (hnew j hj) hri hrj (hki.trans (heq.trans hkj.symm))
  · constructor
    · intro hpath
      obtain ⟨i, hi, hread⟩ := List.mem_filterMap.mp hpath
      obtain ⟨ri, hri, rfl⟩ := Option.map_eq_some_iff.mp hread
      obtain ⟨hfresh, -⟩ := h.new i ri (hnew i hi) hri
      obtain ⟨p, hp, hresolve⟩ := hfresh.asked
      exact ⟨p, hp, hresolve, hfresh.key ▸ hfresh.uncached⟩
    · rintro ⟨p, hp, hresolve, hcache⟩
      obtain ⟨i, stage, hge, hread, hanswer⟩ := h.exists_answer htold hp hresolve hcache
      have hstage : stage ≠ .queued := by
        rintro rfl
        exact absurd hanswer (by simp [Stage.answer?])
      have hi : i ∈ begun := (hmem i).mpr ⟨⟨_, hread, hstage⟩, fun hold =>
        absurd ((hbefore i).mp hold) (Nat.not_lt_of_le hge)⟩
      exact List.mem_filterMap.mpr ⟨i, hi, by rw [hread]; rfl⟩

end Underway

theorem load_snd (l : Loader) (reader : String → ReadResult) (s : State) (p : String) :
    (l.load (fun path => .result (reader path)) s p).2 =
      ((l.settle (answering reader) (l.step s (.call p))).ending? s.callers.length).getD
        (.stopped .cancelled) := by
  simp only [load, answering_eq]

/-- One who asks alone is told what is found. -/
theorem load_eq_found (hs : Idle s) (hkeys : l.KeysDiffer) (p : String) :
    (l.load (fun path => .result (reader path)) s p).2 = l.found reader s p := by
  have hlaunched : Launched l reader s [p] (l.step s (.call p)) :=
    (hs.launched l reader rfl rfl rfl rfl).call hs hkeys p
  obtain ⟨hworks, htold⟩ := hlaunched.settle hs
  have hunderway := hlaunched.underway.works hs hworks
  rw [load_snd]
  generalize l.settle (answering reader) (l.step s (.call p)) = u at hworks htold hunderway ⊢
  obtain ⟨ending, hending⟩ := Option.isSome_iff_exists.mp (htold 0 Nat.one_pos)
  have hfound := hunderway.ending_eq (j := 0) rfl hending
  rw [Nat.add_zero] at hending
  rw [hending, Option.getD_some, hfound]

end PromptShelf.Loader
