/-
What a step of a loader can do.

`Moves l s x t` lists the ways in which the step `x` takes the state `s` to `t`, each
with the conditions under which it happens; only the log is left open.  Every fact about
all runs is an induction over steps with one case for each of these ways.

* **`moves_step`** — a step is one of them;
* **`run_append_singleton`** — a run with one more step is that step after the run.
-/
import Mathlib.Data.List.Basic
import Mathlib.Data.List.Induction
import PromptShelf.Loader.Basic

namespace PromptShelf

/-- The reader's answer, once it has come. -/
def Stage.answer? : Stage → Option Answer
  | .ended answer => some answer
  | .announced answer => some answer
  | _ => none

namespace Loader

def State.answer? (s : State) (i : Nat) : Option Answer :=
  (s.read? i).bind fun r => r.stage.answer?

inductive Moves (l : Loader) (s : State) : Step → State → Prop
  | refused {requested : String} {e : Error} (hresolve : l.resolver.resolve requested = .error e) :
    Moves l s (.call requested) { s with callers := s.callers ++ [.done (.failed e)] }
  | hit {requested path text : String} {log : List Log.Record}
      (hresolve : l.resolver.resolve requested = .ok path)
      (hcache : s.cache.get? (l.resolver.key path) = some text) :
    Moves l s (.call requested)
      { s with
        callers := s.callers ++ [.done (.returned text)]
        metrics := s.metrics.apply .hit
        log := log }
  | joined {requested path : String} {i : Nat} {log : List Log.Record}
      (hresolve : l.resolver.resolve requested = .ok path)
      (hcache : s.cache.get? (l.resolver.key path) = none)
      (hflight : s.inFlight.lookup (l.resolver.key path) = some i)
      (hanswer : s.answer? i = none) :
    Moves l s (.call requested)
      { s with
        callers := s.callers ++ [.waiting i]
        metrics := s.metrics.apply .coalesced
        log := log }
  | joinedLate {requested path : String} {i : Nat} {answer : Answer} {log : List Log.Record}
      (hresolve : l.resolver.resolve requested = .ok path)
      (hcache : s.cache.get? (l.resolver.key path) = none)
      (hflight : s.inFlight.lookup (l.resolver.key path) = some i)
      (hanswer : s.answer? i = some answer) :
    Moves l s (.call requested)
      { s with
        callers := s.callers ++ [.done (l.outcome (l.resolver.key path) answer)]
        metrics := s.metrics.apply .coalesced
        log := log }
  | started {requested path : String}
      (hresolve : l.resolver.resolve requested = .ok path)
      (hcache : s.cache.get? (l.resolver.key path) = none)
      (hflight : s.inFlight.lookup (l.resolver.key path) = none) :
    Moves l s (.call requested)
      { s with
        reads := s.reads ++ [⟨l.resolver.key path, path, .queued⟩]
        inFlight := s.inFlight ++ [(l.resolver.key path, s.reads.length)]
        callers := s.callers ++ [.waiting s.reads.length]
        metrics := s.metrics.apply .miss }
  | begun {i : Nat} {key path : String} {log : List Log.Record}
      (hread : s.read? i = some ⟨key, path, .queued⟩) :
    Moves l s (.begin i)
      { s with
        reads := s.reads.set i ⟨key, path, .running s.now⟩
        requests := s.requests ++ [path]
        log := log }
  | stored {i : Nat} {key path : String} {since : Binary64} {r : ReadResult}
      {log : List Log.Record}
      (hread : s.read? i = some ⟨key, path, .running since⟩) (hok : r.status = .ok) :
    Moves l s (.complete i (.result r))
      { s with
        reads := s.reads.set i ⟨key, path, .ended (.result r)⟩
        cache := s.cache.put key (content r)
        metrics := (s.metrics.apply (.load ((s.now.sub since).mul (.ofNat 1000)))).apply
          (.cacheSize (s.cache.put key (content r)).size)
        log := log }
  | failed {i : Nat} {key path : String} {since : Binary64} {r : ReadResult}
      {log : List Log.Record}
      (hread : s.read? i = some ⟨key, path, .running since⟩) (hfail : r.status ≠ .ok) :
    Moves l s (.complete i (.result r))
      { s with
        reads := s.reads.set i ⟨key, path, .ended (.result r)⟩
        metrics := (s.metrics.apply (.load ((s.now.sub since).mul (.ofNat 1000)))).apply .error
        log := log }
  | broken {i : Nat} {key path : String} {since : Binary64} {answer : Answer}
      (hread : s.read? i = some ⟨key, path, .running since⟩)
      (hanswer : ∀ r, answer ≠ .result r) :
    Moves l s (.complete i answer)
      { s with reads := s.reads.set i ⟨key, path, .ended answer⟩ }
  | announced {i : Nat} {key path : String} {answer : Answer}
      (hread : s.read? i = some ⟨key, path, .ended answer⟩) :
    Moves l s (.announce i)
      { s with
        reads := s.reads.set i ⟨key, path, .announced answer⟩
        inFlight := s.inFlight.filter fun f => f ≠ (key, i) }
  | delivered {c i : Nat} {key path : String} {answer : Answer}
      (hcaller : s.callers[c]? = some (.waiting i))
      (hread : s.read? i = some ⟨key, path, .announced answer⟩) :
    Moves l s (.deliver c) { s with callers := s.callers.set c (.done (l.outcome key answer)) }
  | cancelled {c i : Nat} (hcaller : s.callers[c]? = some (.waiting i)) :
    Moves l s (.cancel c) { s with callers := s.callers.set c (.done (.stopped .cancelled)) }
  | cleared {log : List Log.Record} :
    Moves l s .clear
      { s with cache := {}, metrics := s.metrics.apply (.cacheSize 0), log := log }
  | advanced {seconds : Binary64} :
    Moves l s (.advance seconds) { s with now := s.now.add seconds }
  | idle {x : Step} (hcall : ∀ requested, x ≠ .call requested) (hclear : x ≠ .clear) :
    Moves l s x s

theorem getElem?_set_of_some {α : Type} {xs : List α} {i : Nat} {x : α} (h : xs[i]? = some x)
    (y : α) (j : Nat) : (xs.set i y)[j]? = if i = j then some y else xs[j]? := by
  obtain ⟨hlt, -⟩ := List.getElem?_eq_some_iff.mp h
  rw [List.getElem?_set]
  by_cases hj : i = j
  · rw [if_pos hj, if_pos hj, if_pos hlt]
  · rw [if_neg hj, if_neg hj]

/-- What stands in a list with a new last item was there before or is the new item. -/
theorem getElem?_concat_cases {α : Type} {xs : List α} {x y : α} {n : Nat}
    (h : (xs ++ [x])[n]? = some y) : xs[n]? = some y ∨ (n = xs.length ∧ x = y) := by
  rcases Nat.lt_trichotomy n xs.length with hlt | rfl | hgt
  · rw [List.getElem?_append_left hlt] at h
    exact .inl h
  · rw [List.getElem?_concat_length] at h
    exact .inr ⟨rfl, Option.some.inj h⟩
  · rw [List.getElem?_eq_none (by simp; omega)] at h
    exact absurd h (by simp)

/-- Where one read was set, a read is that one or was there before. -/
theorem read?_of_set {s t : State} {i j : Nat} {r new old : Read} (hold : s.read? j = some old)
    (hreads : t.reads = s.reads.set j new) (hread : t.read? i = some r) :
    (j = i ∧ r = new) ∨ (j ≠ i ∧ s.read? i = some r) := by
  rw [State.read?, hreads, getElem?_set_of_some hold] at hread
  by_cases hj : j = i
  · rw [if_pos hj] at hread
    exact .inl ⟨hj, (Option.some.inj hread).symm⟩
  · rw [if_neg hj] at hread
    exact .inr ⟨hj, hread⟩

/-! ### Every step is one of these -/

theorem setStage_eq {s : State} {i : Nat} {r : Read} (h : s.read? i = some r) (stage : Stage) :
    s.setStage i stage = { s with reads := s.reads.set i ⟨r.key, r.path, stage⟩ } := by
  rw [State.setStage, List.modify_eq_set_getElem?, show s.reads[i]? = some r from h]
  rfl

theorem State.read?_logging (s : State) (r : Log.Record) (i : Nat) :
    (s.logging r).read? i = s.read? i := rfl

theorem State.read?_counting (s : State) (e : Metrics.Event) (i : Nat) :
    (s.counting e).read? i = s.read? i := rfl

/-- Whether a caller that joins has to wait is a matter of the answer alone. -/
theorem join_eq (l : Loader) (s : State) (key : String) (i : Nat) :
    l.join s key i =
      let logged := (s.logging (record Log.Severity.debug ("Joining in-flight load: " ++ key)))
      (logged.counting .coalesced).withCaller (match s.answer? i with
        | some answer => .done (l.outcome key answer)
        | none => .waiting i) := by
  rw [join, State.answer?]
  simp only [State.read?_counting, State.read?_logging]
  cases s.read? i with
  | none => rfl
  | some r =>
    obtain ⟨_, _, stage⟩ := r
    cases stage <;> rfl

theorem moves_call (l : Loader) (s : State) (requested : String) :
    Moves l s (.call requested) (l.call s requested) := by
  -- The cases are those of the call, in the order in which it looks.
  rw [call]
  cases hresolve : l.resolver.resolve requested with
  | error e => exact .refused hresolve
  | ok path =>
    dsimp only
    cases hcache : s.cache.get? (l.resolver.key path) with
    | some text => exact .hit hresolve hcache
    | none =>
      cases hflight : s.inFlight.lookup (l.resolver.key path) with
      | none => exact .started hresolve hcache hflight
      | some i =>
        show Moves l s _ (l.join s (l.resolver.key path) i)
        rw [join_eq]
        cases hanswer : s.answer? i with
        | none => exact .joined hresolve hcache hflight hanswer
        | some answer => exact .joinedLate hresolve hcache hflight hanswer

theorem moves_begin (l : Loader) (s : State) (i : Nat) :
    Moves l s (.begin i) (begin s i) := by
  rw [begin.eq_def]
  split
  · rename_i key path hread
    have hmove := setStage_eq (s := s.logging (record Log.Severity.debug
      ("Loading template from disk: " ++ key))) hread (.running s.now)
    show Moves l s _ { State.setStage _ i (.running s.now) with requests := s.requests ++ [path] }
    rw [hmove]
    exact .begun hread
  · exact .idle (by simp) (by simp)

theorem moves_complete (l : Loader) (s : State) (i : Nat) (answer : Answer) :
    Moves l s (.complete i answer) (complete s i answer) := by
  rw [complete.eq_def]
  split
  · rename_i key path since hread
    rw [setStage_eq hread]
    cases answer with
    | raised e => exact .broken hread (by simp)
    | stopped stop => exact .broken hread (by simp)
    | result r =>
      show Moves l s _ (store _ key r)
      rw [store]
      by_cases hok : r.status = .ok
      · rw [if_pos hok]
        exact .stored hread hok
      · rw [if_neg hok]
        exact .failed hread hok
  · exact .idle (by simp) (by simp)

theorem moves_announce (l : Loader) (s : State) (i : Nat) :
    Moves l s (.announce i) (announce s i) := by
  rw [announce.eq_def]
  split
  · rename_i key path answer hread
    rw [setStage_eq hread]
    exact .announced hread
  · exact .idle (by simp) (by simp)

theorem moves_deliver (l : Loader) (s : State) (c : Nat) :
    Moves l s (.deliver c) (l.deliver s c) := by
  rw [deliver.eq_def]
  split
  · rename_i i hcaller
    split
    · rename_i key path answer hread
      exact .delivered hcaller hread
    · exact .idle (by simp) (by simp)
  · exact .idle (by simp) (by simp)

theorem moves_cancel (l : Loader) (s : State) (c : Nat) :
    Moves l s (.cancel c) (cancel s c) := by
  rw [cancel.eq_def]
  split
  · rename_i i hcaller
    exact .cancelled hcaller
  · exact .idle (by simp) (by simp)

theorem moves_step (l : Loader) (s : State) (x : Step) : Moves l s x (l.step s x) := by
  cases x with
  | call requested => exact moves_call l s requested
  | begin i => exact moves_begin l s i
  | complete i answer => exact moves_complete l s i answer
  | announce i => exact moves_announce l s i
  | deliver c => exact moves_deliver l s c
  | cancel c => exact moves_cancel l s c
  | clear => exact .cleared
  | advance seconds => exact .advanced

/-! ### Runs -/

theorem run_nil (l : Loader) (s : State) : l.run s [] = s := rfl

theorem run_append (l : Loader) (s : State) (before after : List Step) :
    l.run s (before ++ after) = l.run (l.run s before) after :=
  List.foldl_append ..

theorem run_append_singleton (l : Loader) (s : State) (steps : List Step) (x : Step) :
    l.run s (steps ++ [x]) = l.step (l.run s steps) x := by
  rw [run_append]
  rfl

end Loader

end PromptShelf
