/-
Every call and every read is counted.

The metrics of a loader are balanced against what has happened: lookups against the calls
whose path was resolved, misses against the reads that were started, errors and times
against the reads that have ended, and the size told last against the cache.  `Balanced`
says all of this about one state.  Each step changes both sides alike, so it holds in every
state on the way and not only when nothing is left to run.

* **`countReads_set`** — what a step on one read does to the number of reads of a kind;
* **`balanced_run`** — every state that can be reached is balanced;
* **`metrics_account`** — so the metrics can be read off the calls and the reads.
-/
import PromptShelf.Proofs.Loader.History
import PromptShelf.Proofs.Metrics.Window

namespace PromptShelf

instance : (stage : Stage) → Decidable stage.IsRunning
  | .queued => .isTrue trivial
  | .running _ => .isTrue trivial
  | .ended _ => .isFalse id
  | .announced _ => .isFalse id

/-- How a read ended, if it ended with a result. -/
def Stage.status? : Stage → Option ReadStatus
  | .ended (.result r) => some r.status
  | .announced (.result r) => some r.status
  | _ => none

theorem Stage.status?_announced (answer : Answer) :
    Stage.status? (.announced answer) = Stage.status? (.ended answer) := by
  cases answer <;> rfl

namespace Loader

/-- How many reads are at a stage of some kind. -/
def State.countReads (s : State) (p : Stage → Bool) : Nat := s.reads.countP fun r => p r.stage

/-- Reads that were started and have not ended. -/
def State.running (s : State) : Nat := s.countReads fun stage => stage.IsRunning

def State.finished (s : State) : Nat := s.countReads fun stage => stage.status?.isSome

def State.succeeded (s : State) : Nat := s.countReads fun stage => stage.status? == some .ok

def State.failed (s : State) : Nat :=
  s.countReads fun stage => stage.status?.any fun status => status ≠ .ok

/-- The calls whose path was resolved. -/
def resolved (l : Loader) (steps : List Step) : Nat :=
  (requested steps).countP fun path => (l.resolver.resolve path).isOk

/-- The metrics of a state say what has happened in the steps that led to it. -/
structure Balanced (l : Loader) (steps : List Step) (s : State) : Prop where
  lookups : s.metrics.lookups = l.resolved steps
  misses : s.metrics.misses = s.reads.length
  reads : s.reads.length = s.running + s.finished
  finished : s.finished = s.succeeded + s.failed
  errors : s.metrics.errors = s.failed
  samples : s.metrics.samples.length = min s.finished Metrics.maxSamples
  cacheSize : s.metrics.cacheSize = s.cache.size

variable {l : Loader} {s t : State} {steps : List Step}

/-! ### Counting reads -/

theorem countReads_start {key path : String}
    (ht : t.reads = s.reads ++ [⟨key, path, .queued⟩]) (p : Stage → Bool) :
    t.countReads p = s.countReads p + (p .queued).toNat := by
  rw [State.countReads, ht, List.countP_append, List.countP_singleton, State.countReads]
  cases p .queued <;> rfl

theorem countReads_set {i : Nat} {key path : String} {old new : Stage}
    (hread : s.read? i = some ⟨key, path, old⟩)
    (ht : t.reads = s.reads.set i ⟨key, path, new⟩) (p : Stage → Bool) :
    t.countReads p + (p old).toNat = s.countReads p + (p new).toNat := by
  obtain ⟨hlt, hget⟩ := List.getElem?_eq_some_iff.mp hread
  have hpos : p old = true → 0 < s.reads.countP fun r => p r.stage := fun hold =>
    List.countP_pos_iff.mpr ⟨_, List.mem_of_getElem? hread, hold⟩
  rw [State.countReads, ht, List.countP_set hlt, hget, State.countReads]
  cases hold : p old with
  | false => cases p new <;> simp
  | true =>
    have := hpos hold
    cases p new <;> simp <;> omega

/-- A read that begins, or whose end is announced, still counts as what it was. -/
theorem countReads_set_of_eq {i : Nat} {key path : String} {old new : Stage}
    (hread : s.read? i = some ⟨key, path, old⟩)
    (ht : t.reads = s.reads.set i ⟨key, path, new⟩) {p : Stage → Bool} (hp : p new = p old) :
    t.countReads p = s.countReads p := by
  have hcount := countReads_set hread ht p
  rw [hp] at hcount
  omega

theorem resolved_append_of_not_call {x : Step} (hx : ∀ path, x ≠ .call path) :
    l.resolved (steps ++ [x]) = l.resolved steps := by
  rw [resolved, requested_append, requested_of_not_call hx, List.append_nil, resolved]

theorem resolved_append_call (l : Loader) (steps : List Step) (path : String) :
    l.resolved (steps ++ [.call path]) =
      l.resolved steps + (l.resolver.resolve path).isOk.toNat := by
  rw [resolved, requested_append, show requested [.call path] = [path] from rfl,
    List.countP_append, List.countP_singleton, resolved]
  cases (l.resolver.resolve path).isOk <;> rfl

/-! ### Every step keeps the balance -/

namespace Balanced

theorem initial (l : Loader) (now : Binary64) : Balanced l [] (.initial now) :=
  ⟨rfl, rfl, rfl, rfl, rfl, rfl, rfl⟩

/-- A step that starts no read and ends none. -/
theorem of_reads (h : Balanced l steps s) {x : Step} (hlength : t.reads.length = s.reads.length)
    (hcount : ∀ p : Stage → Bool, (∀ answer, p (.announced answer) = p (.ended answer)) →
      (∀ since, p (.running since) = p .queued) → t.countReads p = s.countReads p)
    (hlookups : t.metrics.lookups = l.resolved (steps ++ [x]))
    (hmetrics : t.metrics.misses = s.metrics.misses ∧ t.metrics.errors = s.metrics.errors ∧
      t.metrics.samples = s.metrics.samples)
    (hsize : t.metrics.cacheSize = t.cache.size) : Balanced l (steps ++ [x]) t := by
  have hrunning : t.running = s.running := hcount _ (fun _ => rfl) fun _ => rfl
  have hfinished : t.finished = s.finished :=
    hcount _ (fun answer => by rw [Stage.status?_announced]) fun _ => rfl
  have hsucceeded : t.succeeded = s.succeeded :=
    hcount _ (fun answer => by rw [Stage.status?_announced]) fun _ => rfl
  have hfailed : t.failed = s.failed :=
    hcount _ (fun answer => by rw [Stage.status?_announced]) fun _ => rfl
  obtain ⟨hmisses, herrors, hsamples⟩ := hmetrics
  refine ⟨hlookups, ?_, ?_, ?_, ?_, ?_, hsize⟩
  · rw [hmisses, hlength, h.misses]
  · rw [hlength, hrunning, hfinished, h.reads]
  · rw [hfinished, hsucceeded, hfailed, h.finished]
  · rw [herrors, hfailed, h.errors]
  · rw [hsamples, hfinished, h.samples]

theorem lookups_call (h : Balanced l steps s) {path resolved : String}
    (hresolve : l.resolver.resolve path = .ok resolved) :
    s.metrics.lookups + 1 = l.resolved (steps ++ [.call path]) := by
  rw [resolved_append_call, hresolve, h.lookups]
  rfl

theorem lookups_of_not_call (h : Balanced l steps s) {x : Step} (hx : ∀ path, x ≠ .call path) :
    s.metrics.lookups = l.resolved (steps ++ [x]) := by
  rw [resolved_append_of_not_call hx, h.lookups]

theorem started (h : Balanced l steps s) {path resolved key : String}
    (hresolve : l.resolver.resolve path = .ok resolved)
    (hreads : t.reads = s.reads ++ [⟨key, resolved, .queued⟩]) (hcache : t.cache = s.cache)
    (hmetrics : t.metrics = s.metrics.apply .miss) : Balanced l (steps ++ [.call path]) t := by
  have hrunning : t.running = s.running + 1 := countReads_start hreads _
  have hfinished : t.finished = s.finished := countReads_start hreads _
  have hsucceeded : t.succeeded = s.succeeded := countReads_start hreads _
  have hfailed : t.failed = s.failed := countReads_start hreads _
  have hlength : t.reads.length = s.reads.length + 1 := by rw [hreads, List.length_append]; rfl
  constructor
  · rw [hmetrics, Metrics.lookups_miss, h.lookups_call hresolve]
  · rw [hmetrics, hlength, ← h.misses]
    rfl
  · rw [hlength, hrunning, hfinished, h.reads]
    omega
  · rw [hfinished, hsucceeded, hfailed, h.finished]
  · rw [hmetrics, hfailed]
    exact h.errors
  · rw [hmetrics, hfinished]
    exact h.samples
  · rw [hmetrics, hcache]
    exact h.cacheSize

/-- A read ends with a result: its time is kept, and it fills the cache or is an error. -/
theorem ended (h : Balanced l steps s) {x : Step} (hx : ∀ path, x ≠ .call path) {i : Nat}
    {key path : String} {since milliseconds : Binary64} {r : ReadResult}
    (hread : s.read? i = some ⟨key, path, .running since⟩)
    (hreads : t.reads = s.reads.set i ⟨key, path, .ended (.result r)⟩)
    (hmetrics : t.metrics = (s.metrics.apply (.load milliseconds)).apply
      (if r.status = .ok then .cacheSize t.cache.size else .error))
    (hcache : r.status ≠ .ok → t.cache = s.cache) : Balanced l (steps ++ [x]) t := by
  have hlength : t.reads.length = s.reads.length := by rw [hreads, List.length_set]
  have hrunning : t.running + 1 = s.running + 0 := countReads_set hread hreads _
  have hfinished : t.finished + 0 = s.finished + 1 := countReads_set hread hreads _
  have hsucceeded : t.succeeded + 0 = s.succeeded + (some r.status == some .ok).toNat :=
    countReads_set hread hreads _
  have hfailed : t.failed + 0 = s.failed + (decide (r.status ≠ .ok)).toNat :=
    countReads_set hread hreads _
  have hreads' := h.reads
  have hfinished' := h.finished
  obtain ⟨hlookups, hmisses, hsamples⟩ : t.metrics.lookups = s.metrics.lookups ∧
      t.metrics.misses = s.metrics.misses ∧
      t.metrics.samples = Metrics.record s.metrics.samples milliseconds := by
    rw [hmetrics]
    split <;> simp only [Metrics.apply, Metrics.lookups, and_self]
  have hlast : t.metrics.errors = t.failed ∧ t.metrics.cacheSize = t.cache.size ∧
      t.finished = t.succeeded + t.failed := by
    by_cases hok : r.status = .ok
    · rw [if_pos hok] at hmetrics
      simp only [hok, beq_self_eq_true, Bool.toNat_true, ne_eq, not_true_eq_false, decide_false,
        Bool.toNat_false] at hsucceeded hfailed
      simp only [hmetrics, Metrics.apply, h.errors, true_and]
      omega
    · rw [if_neg hok] at hmetrics
      simp only [Option.some_beq_some, beq_false_of_ne hok, Bool.toNat_false, ne_eq, hok,
        not_false_eq_true, decide_true, Bool.toNat_true] at hsucceeded hfailed
      simp only [hmetrics, Metrics.apply, h.errors, hcache hok, h.cacheSize, true_and]
      omega
  obtain ⟨herrors, hsize, hfinished''⟩ := hlast
  constructor
  · rw [hlookups, h.lookups_of_not_call hx]
  · rw [hmisses, hlength, h.misses]
  · omega
  · exact hfinished''
  · exact herrors
  · rw [hsamples, Metrics.length_record, h.samples]
    omega
  · exact hsize

theorem step (h : Balanced l steps s) {x : Step}
    (hresult : ∀ i answer, x = .complete i answer → ∃ r, answer = .result r) :
    Balanced l (steps ++ [x]) (l.step s x) := by
  generalize ht : l.step s x = t
  have hmove := ht ▸ moves_step l s x
  cases hmove with
  | refused hresolve =>
    refine h.of_reads rfl (fun _ _ _ => rfl) ?_ ⟨rfl, rfl, rfl⟩ h.cacheSize
    rw [resolved_append_call, hresolve]
    exact h.lookups
  | hit hresolve =>
    exact h.of_reads rfl (fun _ _ _ => rfl)
      ((Metrics.lookups_hit _).trans (h.lookups_call hresolve)) ⟨rfl, rfl, rfl⟩ h.cacheSize
  | joined hresolve | joinedLate hresolve =>
    exact h.of_reads rfl (fun _ _ _ => rfl)
      ((Metrics.lookups_coalesced _).trans (h.lookups_call hresolve)) ⟨rfl, rfl, rfl⟩ h.cacheSize
  | started hresolve => exact h.started hresolve rfl rfl rfl
  | begun hread =>
    exact h.of_reads (List.length_set ..)
      (fun p _ hbegin => countReads_set_of_eq hread rfl (hbegin _))
      (h.lookups_of_not_call (by simp)) ⟨rfl, rfl, rfl⟩ h.cacheSize
  | stored hread hok =>
    exact h.ended (by simp) hread rfl (by rw [if_pos hok]) (absurd hok)
  | failed hread hfail =>
    exact h.ended (by simp) hread rfl (by rw [if_neg hfail]) fun _ => rfl
  | broken _ hanswer =>
    obtain ⟨r, rfl⟩ := hresult _ _ rfl
    exact absurd rfl (hanswer r)
  | announced hread =>
    exact h.of_reads (List.length_set ..)
      (fun p hannounce _ => countReads_set_of_eq hread rfl (hannounce _))
      (h.lookups_of_not_call (by simp)) ⟨rfl, rfl, rfl⟩ h.cacheSize
  | delivered | cancelled | advanced =>
    exact h.of_reads rfl (fun _ _ _ => rfl) (h.lookups_of_not_call (by simp)) ⟨rfl, rfl, rfl⟩
      h.cacheSize
  | idle hcall =>
    exact h.of_reads rfl (fun _ _ _ => rfl) (h.lookups_of_not_call hcall) ⟨rfl, rfl, rfl⟩
      h.cacheSize
  | cleared =>
    -- The cache is empty, and the metrics were told so.
    exact h.of_reads rfl (fun _ _ _ => rfl) (h.lookups_of_not_call (by simp)) ⟨rfl, rfl, rfl⟩ rfl

end Balanced

theorem balanced_run (l : Loader) (now : Binary64) (hresults : ResultsOnly steps) :
    Balanced l steps (l.run (.initial now) steps) := by
  induction steps using List.reverseRecOn with
  | nil => exact .initial l now
  | append_singleton steps x ih =>
    rw [run_append_singleton]
    refine (ih fun i answer hmem => ?_).step fun i answer hx => ?_
    · exact hresults i answer (List.mem_append_left _ hmem)
    · exact hresults i answer (by rw [hx]; simp)

/-- With a reader that answers with results only, the metrics account for every call and
every read in every state that can be reached: each call whose path is resolved is a hit, a
miss or joins a read; each miss is a read, which runs, or has ended well, or is an error;
a time is kept of each read that has ended, as far as there is room; and the size is that of
the cache. -/
theorem metrics_account (l : Loader) (now : Binary64) (steps : List Step)
    (hresults : ResultsOnly steps) :
    let s := l.run (.initial now) steps
    s.metrics.hits + s.metrics.misses + s.metrics.coalesced =
        (requested steps).countP (fun path => (l.resolver.resolve path).isOk) ∧
      s.metrics.misses = s.reads.length ∧
      s.metrics.misses = s.running + s.succeeded + s.metrics.errors ∧
      s.metrics.errors = s.failed ∧
      s.metrics.samples.length = min s.finished 1000 ∧
      s.finished = s.succeeded + s.failed ∧
      s.metrics.cacheSize = s.cache.size := by
  intro s
  have h : Balanced l steps s := balanced_run l now hresults
  have hreads := h.reads
  have hfinished := h.finished
  refine ⟨h.lookups, h.misses, ?_, h.errors, h.samples, h.finished, h.cacheSize⟩
  rw [h.misses, h.errors]
  omega

theorem metrics_account_clear :
    let l : Loader := ⟨.make "/" "t" none, []⟩
    let steps : List Step := [.call "a.md", .begin 0, .call "./a.md", .cancel 1, .clear,
      .complete 0 (.result (.ofText "A")), .call "a.md", .announce 0, .clear, .call "../a.md",
      .call "b.md", .begin 1, .complete 1 (.result (.ofFault (.file .missing)))]
    let s := l.run (.initial (.zero false)) steps
    ResultsOnly steps ∧ s.metrics.hits + s.metrics.misses + s.metrics.coalesced = 4 ∧
      s.metrics.misses = s.running + s.succeeded + s.metrics.errors := by
  intro l steps
  have hresults : ResultsOnly steps := by
    intro i answer hmem
    simp only [steps, List.mem_cons, reduceCtorEq, Step.complete.injEq, List.not_mem_nil,
      false_or, or_false] at hmem
    rcases hmem with ⟨-, rfl⟩ | ⟨-, rfl⟩
    · exact ⟨_, rfl⟩
    · exact ⟨_, rfl⟩
  have hfirst : l.resolver.resolve "a.md" = .ok "/t/a.md" := by cbv
  have halias : l.resolver.resolve "./a.md" = .ok "/t/a.md" := by cbv
  have hother : l.resolver.resolve "b.md" = .ok "/t/b.md" := by cbv
  have hrefused : l.resolver.resolve "../a.md" = .error (.accessDenied "../a.md" .parentSegment) := by
    cbv
  have hcalls : (requested steps).countP (fun path => (l.resolver.resolve path).isOk) = 4 := by
    show List.countP _ ["a.md", "./a.md", "a.md", "../a.md", "b.md"] = 4
    simp [hfirst, halias, hother, hrefused, Except.toBool]
  have haccount := metrics_account l (.zero false) steps hresults
  -- Nothing of the state is needed but what the theorem says of it.
  generalize l.run (.initial (.zero false)) steps = s at haccount ⊢
  obtain ⟨hlookups, -, hmisses, -⟩ := haccount
  exact ⟨hresults, hlookups.trans hcalls, hmisses⟩

end Loader

end PromptShelf
