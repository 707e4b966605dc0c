/-
Loading several templates at once.

A preload starts a caller for every path and waits for all of them.  Its report
counts the templates that were loaded and names the failures: a path that failed more
than once is named once, where it failed first, with the label of the error.
Failures never stop a preload, but a caller that was stopped does.
-/
import PromptShelf.Loader.Basic
import PromptShelf.Settle

namespace PromptShelf

/-- What came of a preload. -/
structure PreloadReport where
  total : Nat := 0
  succeeded : Nat := 0
  failed : Nat := 0
  failures : List (String × String) := []
  deriving DecidableEq

namespace PreloadReport

/-- A label under a path: in the path's place, or at the end. -/
def putFailure (failures : List (String × String)) (path label : String) :
    List (String × String) :=
  match failures with
  | [] => [(path, label)]
  | (p, l) :: rest =>
    if p = path then (p, label) :: rest else (p, l) :: putFailure rest path label

def add (r : PreloadReport) (path : String) : Settle.Outcome String → PreloadReport
  | .returned _ => { r with succeeded := r.succeeded + 1 }
  | .failed e =>
    { r with failed := r.failed + 1, failures := putFailure r.failures path e.label }

def ofOutcomes (paths : List String) (outcomes : List (Settle.Outcome String)) :
    PreloadReport :=
  (paths.zip outcomes).foldl (fun r p => r.add p.1 p.2) { total := paths.length }

end PreloadReport

namespace Loader

/-- What is logged before a preload of some templates. -/
def preloadStarted (count : Nat) : Log.Record :=
  record Log.Severity.info ("Preloading " ++ countText count ++ " common templates...")

def preloadEnded (r : PreloadReport) : Log.Record :=
  if r.failed = 0 then
    record Log.Severity.info
      ("Successfully preloaded all " ++ countText r.succeeded ++ " templates")
  else
    record Log.Severity.warning
      ("Preloaded " ++ countText r.succeeded ++ "/" ++ countText r.total ++ " templates (" ++
        countText r.failed ++ " failed)")

def startPreload (l : Loader) (s : State) (paths : List String) : State :=
  paths.foldl (fun s p => l.step s (.call p)) (s.logging (preloadStarted paths.length))

/-- The answers of some callers once all of them have come. -/
def endings? (s : State) (callers : List Nat) : Option (List (Ending String)) :=
  callers.mapM s.ending?

/-- The end of a preload: a report, which is logged, or a stop. -/
def finishPreload (s : State) (paths : List String) (endings : List (Ending String)) :
    State × Ending PreloadReport :=
  match Settle.outcomes endings with
  | .error stop => (s, .stopped stop)
  | .ok outcomes =>
    let report := PreloadReport.ofOutcomes paths outcomes
    (s.logging (preloadEnded report), .returned report)

/-- A preload with a reader that answers at once. -/
def preload (l : Loader) (read : String → Answer) (s : State) (paths : List String) :
    State × Ending PreloadReport :=
  let callers := (List.range paths.length).map (s.callers.length + ·)
  let s := l.settle (fun r => some (read r.path)) (l.startPreload s paths)
  finishPreload s paths ((endings? s callers).getD [])

end Loader

end PromptShelf
