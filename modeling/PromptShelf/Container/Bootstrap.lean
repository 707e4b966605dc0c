/-
Starting the program.

The log is set up first, then the container is made and the common templates are
loaded, and the log says how that went and where the templates are.
-/
import PromptShelf.Container.Registry
import PromptShelf.Log.Root

namespace PromptShelf

/-- What a start leaves behind: the way the log goes out, the registry with the
container, and all records in order. -/
structure Start where
  root : Log.Root
  registry : Registry
  container : Container
  records : List Log.Record

namespace Start

def record (message : String) (fields : List (String × Value) := []) : Log.Record :=
  { logger := "taskprompt.main", severity := Log.Severity.info, message, fields }

/-- What is logged after the common templates were loaded. -/
def warmRecord (c : Container) (r : PreloadReport) : Log.Record :=
  record ("[TaskPrompt] Template cache warm: " ++ Loader.countText r.succeeded ++ "/" ++
    Loader.countText r.total ++ " loaded") [("details", c.snapshot)]

def readyRecord (c : Container) : Log.Record :=
  record ("[TaskPrompt] Ready (templates root: " ++ c.loader.resolver.root ++ ")")

/-- Starts with settings, at a place and a time, with a reader that answers at once. -/
def run (s : Settings) (p : Surroundings) (now : Binary64) (read : String → Answer)
    (registry : Registry) : Except Log.TakenName (Ending Start) := do
  let root ← Log.Root.setUp s.logLevel s.isProduction
  match (Container.make s p now).startUp read with
  | (c, .returned report) =>
    let records := Workspace.dataRecords s p ++ c.state.log ++
      (report.map (warmRecord c)).toList ++ [readyRecord c]
    return .returned ⟨root, (registry.install c).1, c, records⟩
  | (_, .failed e) => return .failed e
  | (_, .stopped stop) => return .stopped stop

/-- The lines that go out, at a time. -/
def lines (start : Start) (time : String) : List String :=
  start.root.lines time [] start.records

end Start

end PromptShelf
