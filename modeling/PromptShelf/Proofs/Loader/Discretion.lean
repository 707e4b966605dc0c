/-
Errors do not tell where the root is.

Whether a request is accepted is decided by its text and the extensions, and the key of an
accepted one is made of its own names.  Of the root a message has the last segment only.  So two
loaders whose roots have the same last segment, whatever the directories above, cannot be told
apart by what a request fails with, as long as their reads end alike.

* **`resolve_cases`** — resolvers for two roots refuse the same requests for the same reasons, and
  give the others the same keys;
* **`alike_outcome`** — reads with the same status have the same outcome;
* **`errors_discreet`** — so the errors are the same for one call on new loaders, and for a caller
  in any run.
-/
import PromptShelf.Proofs.Loader.Preloading

namespace PromptShelf

/-! ### What an error shows -/

/-- The request that was denied. -/
def Error.requested? : Error → Option String
  | .accessDenied requested _ => some requested
  | _ => none

/-- Why a request was denied. -/
def Error.reason? : Error → Option String
  | .accessDenied _ denial => some denial.reason
  | _ => none

/-- The template that was not found or could not be read. -/
def Error.template? : Error → Option String
  | .notFound template _ => some template
  | .unreadable template _ => some template
  | _ => none

/-- Two errors show the same; their causes may differ. -/
structure Error.Alike (e e' : Error) : Prop where
  name : e.name = e'.name
  message : e.message = e'.message
  code : e.code? = e'.code?
  details : e.details = e'.details
  requested : e.requested? = e'.requested?
  reason : e.reason? = e'.reason?
  template : e.template? = e'.template?

/-- Both calls succeed, or both fail with errors that show the same. -/
inductive Ending.Alike : Ending String → Ending String → Prop
  | returned (text text' : String) : Ending.Alike (.returned text) (.returned text')
  | failed {e e' : Error} (h : e.Alike e') : Ending.Alike (.failed e) (.failed e')

theorem Error.Alike.refl (e : Error) : e.Alike e := ⟨rfl, rfl, rfl, rfl, rfl, rfl, rfl⟩

/-- The cause of a failed read is not shown. -/
theorem Error.alike_unreadable (template : String) (cause cause' : Option ReadFault) :
    (Error.unreadable template cause).Alike (.unreadable template cause') :=
  ⟨rfl, rfl, rfl, rfl, rfl, rfl, rfl⟩

namespace Resolver

section TwoRoots

variable {directory root directory' root' : String} {extensions : Option (List String)}
  (hdirectory : Path.isAbsolute directory.toList = true)
  (hdirectory' : Path.isAbsolute directory'.toList = true)

include hdirectory hdirectory'

/-- Two roots make no difference to whether a request is accepted and to its key. -/
theorem resolve_cases (requested : String) :
    (∃ e, (make directory root extensions).resolve requested = .error e ∧
        (make directory' root' extensions).resolve requested = .error e) ∨
      ∃ path path', (make directory root extensions).resolve requested = .ok path ∧
        (make directory' root' extensions).resolve requested = .ok path' ∧
        (make directory root extensions).key path =
          (make directory' root' extensions).key path' := by
  have h : (make directory root extensions).resolve requested = _ :=
    Path.resolve_eq hdirectory _ requested extensions
  have h' : (make directory' root' extensions).resolve requested = _ :=
    Path.resolve_eq hdirectory' _ requested extensions
  cases hsegments : Path.acceptedSegments requested.toList with
  | error denial =>
    rw [hsegments] at h h'
    exact .inl ⟨_, h, h'⟩
  | ok ss =>
    rw [hsegments] at h h'
    cases hcheck : Path.checkExtension requested extensions with
    | error e =>
      rw [hcheck] at h h'
      exact .inl ⟨e, h, h'⟩
    | ok u =>
      rw [hcheck] at h h'
      -- Both keys are made of the names of the request.
      have hkey := key_of_resolve hdirectory h
      have hkey' := key_of_resolve hdirectory' h'
      exact .inr ⟨_, _, h, h', hkey.trans hkey'.symm⟩

end TwoRoots

/-- Roots with the same last segment are named alike, unless one is that of the bundled
templates. -/
theorem hint_eq {r r' : Resolver}
    (hname : Path.lastSegment r.root.toList = Path.lastSegment r'.root.toList)
    (hr : r.root ≠ bundledRoot) (hr' : r'.root ≠ bundledRoot) : r.hint = r'.hint := by
  rw [hint, hint, if_neg hr, if_neg hr', hname]

end Resolver

namespace Loader

variable {l l' : Loader}

theorem alike_outcome (hhint : l.resolver.hint = l'.resolver.hint) (key : String)
    {r r' : ReadResult} (hstatus : r.status = r'.status) :
    (l.outcome key (.result r)).Alike (l'.outcome key (.result r')) := by
  rcases outcome_cases l key r with ⟨hok, h⟩ | ⟨hnot, h⟩ | ⟨hok, hnot, h⟩
  · rw [h, outcome_of_ok (hstatus ▸ hok)]
    exact .returned _ _
  · rcases outcome_cases l' key r' with ⟨hok', -⟩ | ⟨-, h'⟩ | ⟨-, hnot', -⟩
    · exact absurd (hstatus.trans hok') (by simp [hnot])
    · rw [h, h', hhint]
      exact .failed (.refl _)
    · exact absurd (hstatus ▸ hnot) hnot'
  · rcases outcome_cases l' key r' with ⟨hok', -⟩ | ⟨hnot', -⟩ | ⟨-, -, h'⟩
    · exact absurd (hstatus.trans hok') hok
    · exact absurd (hstatus.trans hnot') hnot
    · rw [h, h']
      exact .failed (Error.alike_unreadable key _ _)

namespace Traced

variable {s : State} {steps : List Step} {c : Nat} {p : String} {ending : Ending String}

/-- A caller whose path is refused can only be told so. -/
theorem ending_of_refused (h : Traced l s steps) (hc : (requested steps)[c]? = some p)
    (hending : (l.run s steps).ending? c = some ending) (hstop : ending ≠ .stopped .cancelled)
    {e : Error} (he : l.resolver.resolve p = .error e) : ending = .failed e := by
  rcases h.ending_cases hc hending with ⟨e', he', rfl⟩ | ⟨-, hstopped⟩ | ⟨_, _, _, hpath, -⟩
  · rw [Except.error.inj (he'.symm.trans he)]
  · exact absurd hstopped hstop
  · exact absurd (hpath.symm.trans he) (by simp)

/-- A caller whose path is accepted can only be told what a read of the path gave. -/
theorem ending_of_resolved (h : Traced l s steps) (hc : (requested steps)[c]? = some p)
    (hending : (l.run s steps).ending? c = some ending) (hstop : ending ≠ .stopped .cancelled)
    {path : String} (hpath : l.resolver.resolve p = .ok path) :
    ∃ i r, ReaderAnswers l s steps i path r ∧
      ending = l.outcome (l.resolver.key path) (.result r) := by
  rcases h.ending_cases hc hending with ⟨_, he, -⟩ | ⟨-, hstopped⟩ | ⟨_, i, r, hpath', hanswers, heq⟩
  · exact absurd (he.symm.trans hpath) (by simp)
  · exact absurd hstopped hstop
  · obtain rfl := Except.ok.inj (hpath'.symm.trans hpath)
    exact ⟨i, r, hanswers, heq⟩

end Traced

theorem idle_initial (now : Binary64) : Idle (.initial now) :=
  (SingleFlight.initial {} now).idle rfl

/-- Two loaders whose roots have the same last segment, neither of them the root of the bundled
templates: where the reads of a path end with the same status, a call for it succeeds on both, or
fails on both with errors that show the same.  This holds of one call on new loaders, and of any
two callers who asked for the path in any runs and were not stopped. -/
theorem errors_discreet (l l' : Loader) (directory root directory' root' : String)
    (extensions : Option (List String)) (hl : l.resolver = .make directory root extensions)
    (hl' : l'.resolver = .make directory' root' extensions)
    (hdirectory : Path.isAbsolute directory.toList = true)
    (hdirectory' : Path.isAbsolute directory'.toList = true)
    (hname : Path.lastSegment l.resolver.root.toList = Path.lastSegment l'.resolver.root.toList)
    (hroot : l.resolver.root ≠ bundledRoot) (hroot' : l'.resolver.root ≠ bundledRoot)
    (now now' : Binary64) (p : String) :
    (∀ reader reader' : String → ReadResult,
        (∀ path path', l.resolver.resolve p = .ok path → l'.resolver.resolve p = .ok path' →
          (reader path).status = (reader' path').status) →
        (l.load (fun path => .result (reader path)) (.initial now) p).2.Alike
          (l'.load (fun path => .result (reader' path)) (.initial now') p).2) ∧
      ∀ steps steps' : List Step, ResultsOnly steps → ResultsOnly steps' →
        (∀ path path' i i' r r', l.resolver.resolve p = .ok path →
          l'.resolver.resolve p = .ok path' → ReaderAnswers l (.initial now) steps i path r →
          ReaderAnswers l' (.initial now') steps' i' path' r' → r.status = r'.status) →
        ∀ c c' ending ending', (requested steps)[c]? = some p → (requested steps')[c']? = some p →
          (l.run (.initial now) steps).ending? c = some ending →
          (l'.run (.initial now') steps').ending? c' = some ending' →
          ending ≠ .stopped .cancelled → ending' ≠ .stopped .cancelled → ending.Alike ending' := by
  have hkeys : l.KeysDiffer := keysDiffer_of_make hl hdirectory
  have hkeys' : l'.KeysDiffer := keysDiffer_of_make hl' hdirectory'
  have hhint : l.resolver.hint = l'.resolver.hint := Resolver.hint_eq hname hroot hroot'
  have hresolve : (∃ e, l.resolver.resolve p = .error e ∧ l'.resolver.resolve p = .error e) ∨
      ∃ path path', l.resolver.resolve p = .ok path ∧ l'.resolver.resolve p = .ok path' ∧
        l.resolver.key path = l'.resolver.key path' := by
    rw [hl, hl']
    exact Resolver.resolve_cases hdirectory hdirectory' p
  constructor
  · intro reader reader' hstatus
    rw [load_eq_found (idle_initial now) hkeys, load_eq_found (idle_initial now') hkeys']
    rcases hresolve with ⟨e, he, he'⟩ | ⟨path, path', hpath, hpath', hkey⟩
    · rw [found_of_error he, found_of_error he']
      exact .failed (.refl e)
    · rw [found_of_read hpath rfl, found_of_read hpath' rfl, hkey]
      exact alike_outcome hhint _ (hstatus path path' hpath hpath')
  · intro steps steps' hresults hresults' hstatus c c' ending ending' hc hc' hending hending'
      hstop hstop'
    have htraced := traced_run hkeys now hresults
    have htraced' := traced_run hkeys' now' hresults'
    rcases hresolve with ⟨e, he, he'⟩ | ⟨path, path', hpath, hpath', hkey⟩
    · rw [htraced.ending_of_refused hc hending hstop he,
        htraced'.ending_of_refused hc' hending' hstop' he']
      exact .failed (.refl e)
    · obtain ⟨i, r, hanswers, rfl⟩ := htraced.ending_of_resolved hc hending hstop hpath
      obtain ⟨i', r', hanswers', rfl⟩ := htraced'.ending_of_resolved hc' hending' hstop' hpath'
      rw [hkey]
      exact alike_outcome hhint _ (hstatus path path' i i' r r' hpath hpath' hanswers hanswers')

theorem errors_discreet_missing :
    let l : Loader := ⟨.make "/" "srv/t" none, []⟩
    let l' : Loader := ⟨.make "/home" "x/../y/t" none, []⟩
    let missing : String → Answer := fun _ => .result (.ofFault (.file .missing))
    l.resolver.root = "/srv/t" ∧ l'.resolver.root = "/home/y/t" ∧
      (l.load missing (.initial (.zero false)) "a.md").2.Alike
        (l'.load missing (.initial (.zero false)) "a.md").2 := by
  intro l l' missing
  have hroot : l.resolver.root = "/srv/t" := by cbv
  have hroot' : l'.resolver.root = "/home/y/t" := by cbv
  obtain ⟨halike, -⟩ := errors_discreet l l' "/" "srv/t" "/home" "x/../y/t" none rfl rfl
    (by decide) (by decide) (by rw [hroot, hroot']; decide) (by rw [hroot]; decide)
    (by rw [hroot']; decide) (.zero false) (.zero false) "a.md"
  exact ⟨hroot, hroot', halike (fun _ => .ofFault (.file .missing))
    (fun _ => .ofFault (.file .missing)) fun _ _ _ _ => rfl⟩

end Loader

end PromptShelf
