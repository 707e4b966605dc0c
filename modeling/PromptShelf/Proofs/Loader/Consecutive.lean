/-
Loads one after the other.

A load that nothing else runs beside leaves the loader idle, so another one can follow it.  Of the
reader it needs the answer for its own path only (`load_congr`).  So a loader whose reader has some
texts under their names (`Stocked`) gives these texts again and again, as long as nothing else has
come into the cache under their names (`Ready`):

* **`idle_load`** — after a load nothing is in flight;
* **`Stocked.ready_run`** — after any run with such a reader the texts can be loaded;
* **`Stocked.load`** — each load gives the text of its name, and the next one can follow.
-/
import PromptShelf.Proofs.Loader.Preloading

namespace PromptShelf.Loader

variable {l : Loader} {s t : State} {read read' : String → Answer}

/-! ### A load asks for its own path -/

/-- The readers answer alike for all reads that have no answer yet. -/
def AnswersAlike (read read' : String → Answer) (s : State) : Prop :=
  ∀ i r, s.read? i = some r → r.stage.answer? = none → read r.path = read' r.path

theorem AnswersAlike.step (h : AnswersAlike read read' s) {x : Step}
    (hx : ∀ requested, x ≠ .call requested) : AnswersAlike read read' (l.step s x) := by
  rintro i ⟨key, path, stage'⟩ hread hanswer
  obtain ⟨stage, hold, hsame | ⟨_, _, _, _, hnew⟩⟩ := read?_of_step hx hread
  · have hsame' : read path = read' path := h i ⟨key, path, stage⟩ hold (hsame.symm.trans hanswer)
    exact hsame'
  · exact absurd (hnew.symm.trans hanswer) (by simp)

/-- A read that begins gets the same answer from both readers. -/
theorem AnswersAlike.startOne (h : AnswersAlike read read' s) (i : Nat) :
    l.startOne (fun r => some (read r.path)) s i = l.startOne (fun r => some (read' r.path)) s i ∧
      AnswersAlike read read' (l.startOne (fun r => some (read r.path)) s i) := by
  cases hread : s.read? i with
  | none =>
    simp only [Loader.startOne, hread]
    exact ⟨trivial, h⟩
  | some r =>
    obtain ⟨key, path, stage⟩ := r
    cases stage with
    | queued =>
      have hsame : read path = read' path := h i _ hread rfl
      simp only [Loader.startOne, hread, hsame]
      have hbegun : AnswersAlike read read' (l.step s (.begin i)) := h.step (by simp)
      exact ⟨trivial, hbegun.step (x := .complete i (read' path)) (by simp)⟩
    | running | ended | announced =>
      simp only [Loader.startOne, hread]
      exact ⟨trivial, h⟩

theorem AnswersAlike.startQueued (h : AnswersAlike read read' s) :
    l.startQueued (fun r => some (read r.path)) s =
      l.startQueued (fun r => some (read' r.path)) s := by
  rw [startQueued_eq, startQueued_eq]
  generalize List.range s.reads.length = is
  induction is generalizing s with
  | nil => rfl
  | cons i is ih =>
    obtain ⟨hsame, hnext⟩ := h.startOne (l := l) i
    rw [List.foldl_cons, List.foldl_cons, ← hsame]
    exact ih hnext

/-- What a load does depends on the reader's answer for its own path only. -/
theorem load_congr (hs : Idle s) (hkeys : l.KeysDiffer) {p path : String}
    (hresolve : l.resolver.resolve p = .ok path) (hread : read path = read' path) :
    l.load read s p = l.load read' s p := by
  have hlaunched : Launched l (fun _ => .ofText "") s [p] (l.step s (.call p)) :=
    (hs.launched l _ rfl rfl rfl rfl).call hs hkeys p
  have halike : AnswersAlike read read' (l.step s (.call p)) := by
    intro i r hr hopen
    obtain ⟨new, hreads, hnew⟩ := hlaunched.reads
    rw [State.read?, hreads] at hr
    -- All earlier reads have been answered, so it is the new one.
    rcases Nat.lt_or_ge i s.reads.length with hlt | hge
    · rw [List.getElem?_append_left hlt] at hr
      obtain ⟨answer, hannounced⟩ := hs.announced i r hr
      rw [hannounced] at hopen
      exact absurd hopen (by simp [Stage.answer?])
    · rw [List.getElem?_append_right hge] at hr
      obtain ⟨q, hq, hpath⟩ := (hnew r (List.mem_of_getElem? hr)).1.asked
      obtain rfl := List.mem_singleton.mp hq
      obtain rfl := Except.ok.inj (hpath.symm.trans hresolve)
      exact hread
  have hsettle : l.settle (fun r => some (read r.path)) (l.step s (.call p)) =
      l.settle (fun r => some (read' r.path)) (l.step s (.call p)) := by
    rw [settle, settle, halike.startQueued]
  rw [load, load, hsettle]

/-! ### After a load nothing is in flight -/

theorem SingleFlight.idle_of_announced (h : SingleFlight s) (hannounced : Announced s) :
    Idle s := by
  refine ⟨List.eq_nil_iff_forall_not_mem.mpr ?_, hannounced⟩
  rintro ⟨key, i⟩ hmem
  obtain ⟨⟨key', path, stage⟩, hread, -, hopen⟩ := (h.mem_iff key i).mp hmem
  obtain ⟨answer, rfl⟩ : ∃ answer, stage = .announced answer := hannounced i _ hread
  exact absurd hopen (Stage.not_isOpen_announced answer)

variable {reader : String → ReadResult}

theorem SingleFlight.works (h : SingleFlight s) (hworks : Works l reader s t) :
    SingleFlight t := by
  obtain ⟨steps, rfl⟩ := hworks.exists_run
  exact singleFlight_run h l steps

theorem Halted.announced_settle (h : Halted s) (l : Loader) (reader : String → ReadResult) :
    Announced (l.settle (answering reader) s) := by
  obtain ⟨-, hended⟩ := h.startQueued l reader
  obtain ⟨-, hannounced⟩ := hended.announceAll l reader
  obtain ⟨hdelivering, -⟩ := hannounced.deliverAll l reader
  exact hannounced.works hdelivering

theorem load_fst (l : Loader) (reader : String → ReadResult) (s : State) (p : String) :
    (l.load (fun path => .result (reader path)) s p).1 =
      l.settle (answering reader) (l.step s (.call p)) := by
  simp only [load, answering_eq]

theorem idle_load (hs : Idle s) (hkeys : l.KeysDiffer) (p : String) :
    Idle (l.load (fun path => .result (reader path)) s p).1 := by
  have hlaunched : Launched l reader s [p] (l.step s (.call p)) :=
    (hs.launched l reader rfl rfl rfl rfl).call hs hkeys p
  obtain ⟨hworks, -⟩ := hlaunched.settle hs
  rw [load_fst]
  exact (hlaunched.flight.works hworks).idle_of_announced
    ((hlaunched.halted hs).announced_settle l reader)

/-- After a load the cache is what it was and the text of the path, if it was read well. -/
theorem get?_load (hs : Idle s) (hkeys : l.KeysDiffer) (p key text : String) :
    (l.load (fun path => .result (reader path)) s p).1.cache.get? key = some text ↔
      s.cache.get? key = some text ∨ s.cache.get? key = none ∧ ∃ path,
        l.resolver.resolve p = .ok path ∧ l.resolver.key path = key ∧
          (reader path).status = .ok ∧ content (reader path) = text := by
  have hlaunched : Launched l reader s [p] (l.step s (.call p)) :=
    (hs.launched l reader rfl rfl rfl rfl).call hs hkeys p
  obtain ⟨hworks, htold⟩ := hlaunched.settle hs
  rw [load_fst, (hlaunched.underway.works hs hworks).get?_eq_some_iff htold]
  simp only [List.mem_singleton, exists_eq_left]

/-! ### The same texts again and again -/

/-- The reader has some texts, each under the path that its name resolves to. -/
def Stocked (l : Loader) (read : String → Answer) (texts : List (String × String)) : Prop :=
  ∀ name text, (name, text) ∈ texts → ∃ path, l.resolver.resolve name = .ok path ∧
    l.resolver.key path = name ∧ read path = .result (.ofText text)

/-- Nothing is in flight, and the cache has nothing else under the names of some texts. -/
structure Ready (texts : List (String × String)) (s : State) : Prop where
  idle : Idle s
  cached : ∀ name text, (name, text) ∈ texts → ∀ found, s.cache.get? name = some found →
    found = text

variable {texts : List (String × String)} {name text : String}

theorem Ready.initial (texts : List (String × String)) (now : Binary64) :
    Ready texts (.initial now) := by
  refine ⟨(SingleFlight.initial {} now).idle rfl, ?_⟩
  intro name text hmem found hfound
  exact absurd hfound (by simp [State.initial, Cache.get?])

/-- With this reader a loader is ready after every run that leaves nothing in flight. -/
theorem Stocked.ready_run (h : Stocked l read texts) (hkeys : l.KeysDiffer) {now : Binary64}
    {steps : List Step} (hresults : ResultsOnly steps)
    (hreader : ∀ i path r, ReaderAnswers l (.initial now) steps i path r → read path = .result r)
    (hidle : Idle (l.run (.initial now) steps)) : Ready texts (l.run (.initial now) steps) := by
  refine ⟨hidle, ?_⟩
  intro name text hmem found hfound
  obtain ⟨requested, path, i, r, hresolve, hkey, hanswer, -, hcontent⟩ :=
    (traced_run hkeys now hresults).cache name found hfound
  obtain ⟨path', hresolve', hkey', hread⟩ := h name text hmem
  -- What was read under the name was read from the path of the name.
  obtain rfl : path = path' := hkeys _ _ _ _ hresolve hresolve' (hkey.trans hkey'.symm)
  have hsame : r = .ofText text :=
    Answer.result.inj ((hreader i path r hanswer).symm.trans hread)
  rw [← hcontent, hsame]
  rfl

theorem Stocked.load (h : Stocked l read texts) (hkeys : l.KeysDiffer) (hs : Ready texts s)
    (hmem : (name, text) ∈ texts) :
    (l.load read s name).2 = .returned text ∧ Ready texts (l.load read s name).1 := by
  obtain ⟨path, hresolve, hkey, hread⟩ := h name text hmem
  -- The reader may do as it likes for other paths.
  have hload : l.load read s name = l.load (fun _ => .result (.ofText text)) s name :=
    load_congr hs.idle hkeys hresolve hread
  rw [hload]
  refine ⟨?_, idle_load hs.idle hkeys name, ?_⟩
  · rw [load_eq_found hs.idle hkeys]
    cases hcache : s.cache.get? (l.resolver.key path) with
    | none =>
      rw [found_of_read hresolve hcache]
      rfl
    | some found =>
      rw [found_of_cached hresolve hcache]
      rw [hkey] at hcache
      rw [hs.cached name text hmem found hcache]
  · intro name' text' hmem' found hfound
    rcases (get?_load hs.idle hkeys name name' found).mp hfound
      with hold | ⟨-, path', hresolve', hkey', -, htext⟩
    · exact hs.cached name' text' hmem' found hold
    · -- The text that was read is the one under the name.
      obtain rfl := Except.ok.inj (hresolve.symm.trans hresolve')
      obtain rfl := hkey.symm.trans hkey'
      obtain ⟨path'', hresolve'', -, hread'⟩ := h name text' hmem'
      obtain rfl := Except.ok.inj (hresolve.symm.trans hresolve'')
      have hsame : ReadResult.ofText text = .ofText text' :=
        Answer.result.inj (hread.symm.trans hread')
      rw [← htext]
      exact congrArg content hsame

end PromptShelf.Loader
