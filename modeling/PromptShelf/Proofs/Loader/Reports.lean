/-
What a preload reports.

A report is a fold over the paths and what became of them: it counts those that were loaded, and
keeps the label of each that was not under its path.  Since what becomes of a path is found from
the path and the state before the preload (`found`), the report depends neither on the order in
which the reads end nor, but for the order of the failures, on that of the paths.

* **`ofOutcomes_spec`** — counts and failures of a report, whatever became of the paths;
* **`Underway.exists_report`** — what a preload has done when all its callers have been told;
* **`preload_outcomes`** — in whatever order the reads end, a preload ends with such a report.
-/
import Mathlib.Data.List.Perm.Basic
import PromptShelf.Proofs.Loader.Preloading

namespace PromptShelf

namespace Settle

/-- The ending that leaves an outcome behind. -/
def Outcome.ending {α : Type} : Outcome α → Ending α
  | .returned a => .returned a
  | .failed e => .failed e

theorem outcomes_map_ending {α : Type} (os : List (Outcome α)) :
    outcomes (os.map Outcome.ending) = .ok os := by
  induction os with
  | nil => rfl
  | cons o rest ih =>
    cases o with
    | returned a =>
      show (outcomes (rest.map Outcome.ending)).map (.returned a :: ·) = _
      rw [ih]
      rfl
    | failed e =>
      show (outcomes (rest.map Outcome.ending)).map (.failed e :: ·) = _
      rw [ih]
      rfl

end Settle

namespace PreloadReport

/-! ### Counting and collecting -/

theorem keys_putFailure (failures : List (String × String)) (path label : String) :
    (putFailure failures path label).map Prod.fst =
      if path ∈ failures.map Prod.fst then failures.map Prod.fst
      else failures.map Prod.fst ++ [path] := by
  induction failures with
  | nil => simp [putFailure]
  | cons f rest ih =>
    obtain ⟨p, l⟩ := f
    rw [putFailure]
    by_cases hp : p = path
    · simp [hp]
    · rw [if_neg hp, List.map_cons, ih]
      by_cases hmem : path ∈ rest.map Prod.fst
      · simp [hmem]
      · simp [hmem, Ne.symm hp]

theorem nodup_putFailure {failures : List (String × String)}
    (h : (failures.map Prod.fst).Nodup) (path label : String) :
    ((putFailure failures path label).map Prod.fst).Nodup := by
  rw [keys_putFailure]
  split
  · exact h
  · rename_i hnot
    rw [List.nodup_append]
    refine ⟨h, List.nodup_singleton path, fun p hp q hq heq => ?_⟩
    obtain rfl := List.mem_singleton.mp hq
    exact hnot (heq ▸ hp)

/-- A label takes the place of another one under its path, and the others stay. -/
theorem mem_putFailure {failures : List (String × String)} (h : (failures.map Prod.fst).Nodup)
    (path label : String) (f : String × String) :
    f ∈ putFailure failures path label ↔ f = (path, label) ∨ f.1 ≠ path ∧ f ∈ failures := by
  induction failures with
  | nil => simp [putFailure]
  | cons g rest ih =>
    obtain ⟨p, l⟩ := g
    obtain ⟨hnot, hrest⟩ := List.nodup_cons.mp h
    rw [putFailure]
    by_cases hp : p = path
    · subst hp
      rw [if_pos rfl, List.mem_cons, List.mem_cons]
      -- No failure behind this one has its path.
      have hother : ∀ f ∈ rest, f.1 ≠ p := fun f hf heq =>
        hnot (List.mem_map.mpr ⟨f, hf, heq⟩)
      constructor
      · rintro (rfl | hf)
        · exact .inl rfl
        · exact .inr ⟨hother f hf, .inr hf⟩
      · rintro (rfl | ⟨hne, rfl | hf⟩)
        · exact .inl rfl
        · exact absurd rfl hne
        · exact .inr hf
    · rw [if_neg hp, List.mem_cons, List.mem_cons, ih hrest]
      constructor
      · rintro (rfl | rfl | ⟨hne, hf⟩)
        · exact .inr ⟨hp, .inl rfl⟩
        · exact .inl rfl
        · exact .inr ⟨hne, .inr hf⟩
      · rintro (rfl | ⟨hne, rfl | hf⟩)
        · exact .inr (.inl rfl)
        · exact .inl rfl
        · exact .inr (.inr ⟨hne, hf⟩)

/-- The report on some paths, when the same becomes of a path wherever it stands. -/
def on (became : String → Settle.Outcome String) (count : Nat) (paths : List String) :
    PreloadReport :=
  paths.foldl (fun r p => r.add p (became p)) { total := count }

theorem ofOutcomes_map (became : String → Settle.Outcome String) (paths : List String) :
    ofOutcomes paths (paths.map became) = on became paths.length paths := by
  rw [ofOutcomes, on]
  generalize ({ total := paths.length } : PreloadReport) = r
  induction paths generalizing r with
  | nil => rfl
  | cons p rest ih => exact ih (r.add p (became p))

/-- What a report says, if the same becomes of a path wherever it stands. -/
structure Tells (became : String → Settle.Outcome String) (count : Nat) (paths : List String)
    (r : PreloadReport) : Prop where
  total : r.total = count
  succeeded : r.succeeded = paths.countP fun p => (became p).isOk
  sum : r.succeeded + r.failed = paths.length
  nodup : (r.failures.map Prod.fst).Nodup
  mem_iff : ∀ p label, (p, label) ∈ r.failures ↔
    p ∈ paths ∧ ∃ e, became p = .failed e ∧ label = e.label

theorem Tells.add {became : String → Settle.Outcome String} {count : Nat} {paths : List String}
    {r : PreloadReport} (h : Tells became count paths r) (p : String) :
    Tells became count (paths ++ [p]) (r.add p (became p)) := by
  have hcount : (paths ++ [p]).countP (fun p => (became p).isOk) =
      r.succeeded + if (became p).isOk then 1 else 0 := by
    rw [List.countP_append, List.countP_singleton, ← h.succeeded]
  have hsum := h.sum
  cases hp : became p with
  | returned text =>
    refine ⟨h.total, ?_, ?_, h.nodup, fun q label => ?_⟩
    · rw [hcount, hp]
      rfl
    · show r.succeeded + 1 + r.failed = _
      rw [List.length_append, List.length_singleton]
      omega
    · show (q, label) ∈ r.failures ↔ _
      rw [h.mem_iff, List.mem_append, List.mem_singleton]
      constructor
      · rintro ⟨hq, he⟩
        exact ⟨.inl hq, he⟩
      · rintro ⟨hq | rfl, e, he, hlabel⟩
        · exact ⟨hq, e, he, hlabel⟩
        · exact absurd (hp.symm.trans he) (by simp)
  | failed e =>
    refine ⟨h.total, ?_, ?_, nodup_putFailure h.nodup p e.label, fun q label => ?_⟩
    · rw [hcount, hp]
      rfl
    · show r.succeeded + (r.failed + 1) = _
      rw [List.length_append, List.length_singleton]
      omega
    · show (q, label) ∈ putFailure r.failures p e.label ↔ _
      rw [mem_putFailure h.nodup, h.mem_iff, List.mem_append, List.mem_singleton, Prod.mk.injEq]
      constructor
      · rintro (⟨rfl, rfl⟩ | ⟨-, hq, he⟩)
        · exact ⟨.inr rfl, e, hp, rfl⟩
        · exact ⟨.inl hq, he⟩
      · rintro ⟨hq, e', he', hlabel⟩
        by_cases heq : q = p
        · subst heq
          obtain rfl := Settle.Outcome.failed.inj (hp.symm.trans he')
          exact .inl ⟨rfl, hlabel⟩
        · exact .inr ⟨heq, hq.resolve_right heq, e', he', hlabel⟩

theorem ofOutcomes_spec (became : String → Settle.Outcome String) (paths : List String) :
    Tells became paths.length paths (ofOutcomes paths (paths.map became)) := by
  rw [ofOutcomes_map]
  generalize paths.length = count
  induction paths using List.reverseRecOn with
  | nil => exact ⟨rfl, rfl, rfl, List.nodup_nil, by simp [on]⟩
  | append_singleton paths p ih =>
    rw [on, List.foldl_append, List.foldl_cons, List.foldl_nil]
    exact ih.add p

end PreloadReport

namespace Loader

/-- The path is accepted, and its key is in the cache or is read well. -/
def loads (l : Loader) (reader : String → ReadResult) (s : State) (requested : String) : Bool :=
  match l.resolver.resolve requested with
  | .error _ => false
  | .ok path => (s.cache.get? (l.resolver.key path)).isSome || (reader path).isOk

/-- The callers of a preload, in the order of its paths. -/
def preloaders (s : State) (paths : List String) : List Nat :=
  (List.range paths.length).map (s.callers.length + ·)

/-- A report on some paths that were preloaded in the state `s`, and the state `t` after it. -/
structure Reported (l : Loader) (reader : String → ReadResult) (s : State) (paths : List String)
    (report : PreloadReport) (t : State) : Prop where
  total : report.total = paths.length
  sum : report.succeeded + report.failed = report.total
  succeeded : report.succeeded = paths.countP (l.loads reader s)
  nodup : (report.failures.map Prod.fst).Nodup
  failed : ∀ p, p ∈ report.failures.map Prod.fst ↔ p ∈ paths ∧ l.loads reader s p = false
  failures : ∀ p code, (p, code) ∈ report.failures ↔ p ∈ paths ∧
    ∃ e, (l.load (fun path => .result (reader path)) s p).2 = .failed e ∧ e.code? = some code
  cache : ∀ key text, t.cache.get? key = some text ↔
    s.cache.get? key = some text ∨ s.cache.get? key = none ∧ ∃ p ∈ paths, ∃ path,
      l.resolver.resolve p = .ok path ∧ l.resolver.key path = key ∧
        (reader path).status = .ok ∧ content (reader path) = text
  requests : ∃ asked, t.requests = s.requests ++ asked ∧ (asked.map l.resolver.key).Nodup ∧
    ∀ path, path ∈ asked ↔ ∃ p ∈ paths, l.resolver.resolve p = .ok path ∧
      s.cache.get? (l.resolver.key path) = none

variable {l : Loader} {reader : String → ReadResult} {s t : State} {paths : List String}

/-! ### What becomes of a path -/

/-- What is found for a path leaves an outcome behind, and an error that has a code. -/
theorem exists_found (l : Loader) (reader : String → ReadResult) (s : State) (p : String) :
    ∃ o : Settle.Outcome String, l.found reader s p = o.ending ∧ o.isOk = l.loads reader s p ∧
      ∀ e, o = .failed e → e.code? = some e.label := by
  have hcoded : ∀ e e' : Error, e.code? = some e.label →
      Settle.Outcome.failed (α := String) e = .failed e' → e'.code? = some e'.label := by
    intro e e' hcode heq
    obtain rfl := Settle.Outcome.failed.inj heq
    exact hcode
  rw [loads]
  cases hresolve : l.resolver.resolve p with
  | error e =>
    obtain ⟨denial, rfl⟩ := Resolver.eq_accessDenied_of_resolve hresolve
    exact ⟨.failed _, found_of_error hresolve, rfl, fun e => hcoded _ e rfl⟩
  | ok path =>
    dsimp only
    cases hcache : s.cache.get? (l.resolver.key path) with
    | some text =>
      exact ⟨.returned text, found_of_cached hresolve hcache, rfl, fun e he => absurd he (by simp)⟩
    | none =>
      rw [Option.isSome_none, Bool.false_or, ReadResult.isOk, found_of_read hresolve hcache]
      rcases outcome_cases l (l.resolver.key path) (reader path) with
        ⟨hok, houtcome⟩ | ⟨hnot, houtcome⟩ | ⟨hok, hnot, houtcome⟩
      · exact ⟨.returned _, houtcome, by rw [hok]; rfl, fun e he => absurd he (by simp)⟩
      · exact ⟨.failed _, houtcome, by rw [hnot]; rfl, fun e => hcoded _ e rfl⟩
      · exact ⟨.failed _, houtcome, (beq_eq_false_iff_ne.mpr hok).symm, fun e => hcoded _ e rfl⟩

theorem endings?_eq_some_iff (s : State) (cs : List Nat) (endings : List (Ending String)) :
    endings? s cs = some endings ↔ cs.map s.ending? = endings.map some := by
  induction cs generalizing endings with
  | nil => cases endings <;> simp [endings?]
  | cons c rest ih =>
    rw [endings?, List.mapM_cons, List.map_cons]
    cases s.ending? c with
    | none => cases endings <;> simp
    | some ending =>
      cases endings with
      | nil => cases h : rest.mapM s.ending? <;> simp
      | cons ending' more =>
        rw [List.map_cons, List.cons_eq_cons, ← ih, endings?]
        cases h : rest.mapM s.ending? <;> simp

/-! ### The end of a preload -/

theorem preloaders_map (s t : State) (paths : List String) :
    (preloaders s paths).map t.ending? =
      (List.range paths.length).map fun j => t.ending? (s.callers.length + j) := by
  rw [preloaders, List.map_map]
  rfl

theorem told_of_endings? {endings : List (Ending String)}
    (hendings : endings? t (preloaders s paths) = some endings) :
    ∀ j < paths.length, (t.ending? (s.callers.length + j)).isSome := by
  rw [endings?_eq_some_iff, preloaders_map] at hendings
  intro j hj
  have hone := congrArg (·[j]?) hendings
  simp only [List.getElem?_map, List.getElem?_range hj, Option.map_some] at hone
  cases hending : t.ending? (s.callers.length + j) with
  | some ending => rfl
  | none =>
    rw [hending] at hone
    cases hget : endings[j]? <;> simp [hget] at hone

namespace Underway

variable (h : Underway l reader s paths t)

include h

/-- Once all callers are told, what they were told is what is found for the paths. -/
theorem endings?_eq (htold : ∀ j < paths.length, (t.ending? (s.callers.length + j)).isSome) :
    endings? t (preloaders s paths) = some (paths.map (l.found reader s)) := by
  rw [endings?_eq_some_iff, preloaders_map]
  apply List.ext_getElem
  · simp
  · intro j hj _
    have hlt : j < paths.length := by simpa using hj
    obtain ⟨ending, hending⟩ := Option.isSome_iff_exists.mp (htold j hlt)
    have hfound := h.ending_eq (List.getElem?_eq_getElem hlt) hending
    simpa [hfound] using hending

/-- A preload whose callers have all been told ends with a report on its paths. -/
theorem exists_report (hs : Idle s) (hkeys : l.KeysDiffer)
    (htold : ∀ j < paths.length, (t.ending? (s.callers.length + j)).isSome)
    {r : Log.Record} {steps : List Step} (hrun : t = l.run (s.logging r) steps) :
    ∃ u report, finishPreload t paths (paths.map (l.found reader s)) = (u, .returned report) ∧
      Reported l reader s paths report u := by
  choose became hfound hloads hcode using exists_found l reader s
  have houtcomes : Settle.outcomes (paths.map (l.found reader s)) = .ok (paths.map became) := by
    have hmap : paths.map (l.found reader s) = (paths.map became).map Settle.Outcome.ending := by
      rw [List.map_map]
      exact List.map_congr_left fun p _ => hfound p
    rw [hmap, Settle.outcomes_map_ending]
  have htells := PreloadReport.ofOutcomes_spec became paths
  rw [finishPreload, houtcomes]
  refine ⟨_, _, rfl, ?_⟩
  generalize PreloadReport.ofOutcomes paths (paths.map became) = report at htells
  have hsucceeded : report.succeeded = paths.countP (l.loads reader s) := by
    rw [htells.succeeded]
    exact List.countP_congr fun p _ => by rw [hloads]
  have hfailures : ∀ p code, (p, code) ∈ report.failures ↔ p ∈ paths ∧
      ∃ e, (l.load (fun path => .result (reader path)) s p).2 = .failed e ∧
        e.code? = some code := by
    intro p code
    rw [htells.mem_iff, load_eq_found hs hkeys, hfound]
    refine and_congr_right fun _ => ⟨?_, ?_⟩
    · rintro ⟨e, he, rfl⟩
      exact ⟨e, by rw [he]; rfl, hcode p e he⟩
    · rintro ⟨e, he, hlabel⟩
      have hbecame : became p = .failed e := by
        cases hp : became p with
        | returned text =>
          rw [hp] at he
          exact absurd he (by simp [Settle.Outcome.ending])
        | failed e' =>
          rw [hp] at he
          exact congrArg _ (Ending.failed.inj he)
      exact ⟨e, hbecame, Option.some.inj (hlabel.symm.trans (hcode p e hbecame))⟩
  refine ⟨htells.total, ?_, hsucceeded, htells.nodup, fun p => ?_, hfailures,
    h.get?_eq_some_iff htold, h.exists_requests htold hs hrun⟩
  · rw [htells.sum, htells.total]
  · rw [← hloads p]
    constructor
    · intro hp
      obtain ⟨⟨q, label⟩, hmem, rfl⟩ := List.mem_map.mp hp
      obtain ⟨hq, e, he, -⟩ := (htells.mem_iff q label).mp hmem
      exact ⟨hq, by rw [he]; rfl⟩
    · rintro ⟨hp, hfailed⟩
      cases hbecame : became p with
      | returned text =>
        rw [hbecame] at hfailed
        exact absurd hfailed (by simp [Settle.Outcome.isOk])
      | failed e =>
        exact List.mem_map.mpr ⟨(p, e.label), (htells.mem_iff p e.label).mpr ⟨hp, e, hbecame, rfl⟩,
          rfl⟩

end Underway

theorem preload_eq (l : Loader) (reader : String → ReadResult) (s : State) (paths : List String) :
    l.preload (fun path => .result (reader path)) s paths =
      finishPreload (l.settle (answering reader) (l.startPreload s paths)) paths
        ((endings? (l.settle (answering reader) (l.startPreload s paths))
          (preloaders s paths)).getD []) := by
  simp only [preload, answering_eq, preloaders]

theorem startPreload_eq_run (l : Loader) (s : State) (paths : List String) :
    l.startPreload s paths =
      l.run (s.logging (preloadStarted paths.length)) (paths.map .call) := by
  rw [startPreload, run, List.foldl_map]

/-- The order of the paths matters to nothing but the order of the failures. -/
theorem Reported.perm {paths' : List String} {report report' : PreloadReport} {t' : State}
    (h : Reported l reader s paths report t) (h' : Reported l reader s paths' report' t')
    (hperm : paths.Perm paths') :
    report.total = report'.total ∧ report.succeeded = report'.succeeded ∧
      report.failed = report'.failed ∧ report.failures.Perm report'.failures ∧
      ∀ key, t.cache.get? key = t'.cache.get? key := by
  have htotal : report.total = report'.total := by rw [h.total, h'.total, hperm.length_eq]
  have hsucceeded : report.succeeded = report'.succeeded := by
    rw [h.succeeded, h'.succeeded, hperm.countP_eq]
  refine ⟨htotal, hsucceeded, ?_, ?_, fun key => ?_⟩
  · have hsum := h.sum
    have hsum' := h'.sum
    omega
  · rw [List.perm_ext_iff_of_nodup h.nodup.of_map h'.nodup.of_map]
    rintro ⟨p, code⟩
    rw [h.failures, h'.failures, hperm.mem_iff]
  · apply Option.ext
    intro text
    rw [h.cache, h'.cache]
    simp only [hperm.mem_iff]

/-- A preload with nothing in flight calls for its paths and then lets the reads go on.  In
whatever order these begin, end and are announced: it never comes to a point from which its
callers could not all be told, and when they have been, it ends with a report.  That counts the
paths that were accepted and either in the cache or read well, and gives for each other path the
code of the error that a call for it alone fails with.  The cache is what it was and the texts
that were read, and the reader was asked once for each accepted path whose key was not in the
cache.  A preload with a reader that answers at once is one such order, and the order of the paths
does not matter. -/
theorem preload_outcomes (l : Loader) (directory root : String)
    (extensions : Option (List String)) (hl : l.resolver = .make directory root extensions)
    (hdirectory : Path.isAbsolute directory.toList = true) (cache : Cache) (now : Binary64)
    (before : List Step) (reader : String → ReadResult) (paths : List String)
    (hflight : (l.run { State.initial now with cache := cache } before).inFlight = []) :
    let s := l.run { State.initial now with cache := cache } before
    (∀ t, Works l reader (l.startPreload s paths) t →
        (∃ u endings, Works l reader t u ∧ endings? u (preloaders s paths) = some endings) ∧
          ∀ endings, endings? t (preloaders s paths) = some endings →
            ∃ u report, finishPreload t paths endings = (u, .returned report) ∧
              Reported l reader s paths report u) ∧
      (∃ u report, l.preload (fun path => .result (reader path)) s paths =
          (u, .returned report) ∧ Reported l reader s paths report u) ∧
      ∀ paths', paths.Perm paths' → ∀ report u report' u',
        Reported l reader s paths report u → Reported l reader s paths' report' u' →
          report.total = report'.total ∧ report.succeeded = report'.succeeded ∧
            report.failed = report'.failed ∧ report.failures.Perm report'.failures ∧
            ∀ key, u.cache.get? key = u'.cache.get? key := by
  intro s
  have hs : Idle s := SingleFlight.idle (singleFlight_run (.initial cache now) l before) hflight
  have hkeys : l.KeysDiffer := keysDiffer_of_make hl hdirectory
  have hlaunched : Launched l reader s paths (l.startPreload s paths) :=
    launched_startPreload hs hkeys paths
  have hrun : ∀ t, Works l reader (l.startPreload s paths) t →
      ∃ steps, t = l.run (s.logging (preloadStarted paths.length)) steps := by
    intro t hworks
    obtain ⟨steps, rfl⟩ := hworks.exists_run
    exact ⟨paths.map .call ++ steps, by rw [run_append, startPreload_eq_run]⟩
  refine ⟨fun t hworks => ⟨?_, fun endings hendings => ?_⟩, ?_, ?_⟩
  · have hunderway := hlaunched.underway.works hs hworks
    obtain ⟨u, hmore, htold⟩ := hunderway.exists_works hs
    exact ⟨u, _, hmore, (hunderway.works hs hmore).endings?_eq htold⟩
  · have hunderway := hlaunched.underway.works hs hworks
    have htold := told_of_endings? hendings
    obtain ⟨steps, hsteps⟩ := hrun t hworks
    obtain rfl := Option.some.inj (hendings.symm.trans (hunderway.endings?_eq htold))
    exact hunderway.exists_report hs hkeys htold hsteps
  · obtain ⟨hworks, htold⟩ := hlaunched.settle hs
    have hunderway := hlaunched.underway.works hs hworks
    obtain ⟨steps, hsteps⟩ := hrun _ hworks
    rw [preload_eq, hunderway.endings?_eq htold]
    exact hunderway.exists_report hs hkeys htold hsteps
  · intro paths' hperm report u report' u' h h'
    exact h.perm h' hperm

theorem preload_outcomes_alias :
    let l : Loader := ⟨.make "/" "t" none, []⟩
    let s : State := { State.initial (.zero false) with cache := ⟨[("c.md", "C")]⟩ }
    let reader : String → ReadResult := fun path =>
      if path = "/t/a.md" then .ofText "A" else .ofFault (.file .missing)
    let paths := ["b.md", "a.md", "../a.md", "./a.md", "c.md", "b.md"]
    s.inFlight = [] ∧ ∃ u report,
      l.preload (fun path => .result (reader path)) s paths = (u, .returned report) ∧
        report.succeeded = 3 ∧ report.failed = 3 ∧
        ("b.md", "TEMPLATE_NOT_FOUND") ∈ report.failures ∧
        ("../a.md", "ACCESS_DENIED") ∈ report.failures ∧ u.cache.get? "a.md" = some "A" := by
  intro l s reader paths
  have hresolve : l.resolver.resolve "a.md" = .ok "/t/a.md" ∧
      l.resolver.resolve "./a.md" = .ok "/t/a.md" ∧ l.resolver.resolve "b.md" = .ok "/t/b.md" ∧
      l.resolver.resolve "c.md" = .ok "/t/c.md" ∧
      l.resolver.resolve "../a.md" = .error (.accessDenied "../a.md" .parentSegment) := by
    refine ⟨?_, ?_, ?_, ?_, ?_⟩ <;> cbv
  have hkey : l.resolver.key "/t/a.md" = "a.md" ∧ l.resolver.key "/t/b.md" = "b.md" ∧
      l.resolver.key "/t/c.md" = "c.md" := by
    refine ⟨?_, ?_, ?_⟩ <;> cbv
  obtain ⟨ha, ha', hb, hc, hdenied⟩ := hresolve
  obtain ⟨hkeya, hkeyb, hkeyc⟩ := hkey
  obtain ⟨-, ⟨u, report, hpreload, hreported⟩, -⟩ :=
    preload_outcomes l "/" "t" none rfl (by decide) ⟨[("c.md", "C")]⟩ (.zero false) [] reader
      paths rfl
  change l.preload (fun path => .result (reader path)) s paths = (u, .returned report) at hpreload
  change Reported l reader s paths report u at hreported
  have hs : Idle s := ⟨rfl, fun i r hread => absurd hread (by simp [s, State.initial, State.read?])⟩
  have hkeys : l.KeysDiffer := keysDiffer_of_make rfl (by decide)
  obtain ⟨hcachea, hcacheb, hcachec⟩ : s.cache.get? "a.md" = none ∧ s.cache.get? "b.md" = none ∧
      s.cache.get? "c.md" = some "C" := ⟨rfl, rfl, rfl⟩
  have hflight : s.inFlight = [] := rfl
  clear_value l s
  have hloads : l.loads reader s "a.md" = true ∧ l.loads reader s "./a.md" = true ∧
      l.loads reader s "b.md" = false ∧ l.loads reader s "c.md" = true ∧
      l.loads reader s "../a.md" = false := by
    simp [loads, ha, ha', hb, hc, hdenied, hkeya, hkeyb, hkeyc, hcachea, hcacheb, hcachec, reader,
      ReadResult.isOk, ReadResult.ofText, ReadResult.ofFault, ReadResult.statusOf]
  have hsucceeded : report.succeeded = 3 := by
    rw [hreported.succeeded]
    simp [paths, hloads]
  have hfailed : report.failed = 3 := by
    have hsum : report.succeeded + report.failed = 6 := hreported.sum.trans hreported.total
    omega
  have hmissing : l.found reader s "b.md" = .failed (.notFound "b.md" l.resolver.hint) := by
    rw [found_of_read hb (hkeyb ▸ hcacheb), hkeyb]
    rfl
  refine ⟨hflight, u, report, hpreload, hsucceeded, hfailed, ?_, ?_, ?_⟩
  · rw [hreported.failures, load_eq_found hs hkeys]
    exact ⟨by simp [paths], _, hmissing, rfl⟩
  · rw [hreported.failures, load_eq_found hs hkeys]
    exact ⟨by simp [paths], _, found_of_error hdenied, rfl⟩
  · rw [hreported.cache]
    exact .inr ⟨hcachea, "a.md", by simp [paths], "/t/a.md", ha, hkeya, rfl, rfl⟩

end Loader

end PromptShelf
