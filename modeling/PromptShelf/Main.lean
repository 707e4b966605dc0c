/-
The command line.

Settings come from the environment and the settings file of the current directory.
The common templates are read before the start, so that it can go on without waiting,
and the log lines go to the error output.
-/
import PromptShelf.Container.Bootstrap
import PromptShelf.Prompt.Bundled
import PromptShelf.Settings.Loading
import Std.Time.DateTime.Timestamp

namespace PromptShelf.Main

/-- Variables of the environment that are looked at. -/
def readEnvironment : IO (List (String × String)) := do
  let found ← (Settings.names ++ ["HOME"]).mapM fun name => do
    return (name, ← IO.getEnv name)
  return found.filterMap fun (name, v) => v.map fun v => (name, v)

/-- What the file system's answer is to a reader. -/
def faultOf : IO.Error → ReadFault
  | .noFileOrDirectory .. => .file .missing
  | .permissionDenied .. => .file .forbidden
  | _ => .named "OSError"

def readFile (path : String) : IO ReadResult := do
  match ← (IO.FS.readBinFile path).toBaseIO with
  | .ok bytes => return .ofBytes .utf8 bytes.toList
  | .error e => return .ofFault (faultOf e)

/-- Answers for the templates of a loader that it loads at the start. -/
def answers (l : Loader) : IO (List (String × Answer)) := do
  let paths := l.preloadPaths.filterMap fun p => (l.resolver.resolve p).toOption
  paths.mapM fun path => do
    if l.resolver.root = bundledRoot then return (path, Bundled.read path)
    else return (path, .result (← readFile path))

/-- Milliseconds since the beginning of 1970. -/
def clock : IO Int := do return (← Std.Time.Timestamp.now).toMillisecondsSinceUnixEpoch.val

def explain : Settings.Failure → List String
  | .undecodable => ["the settings file is not UTF-8"]
  | .malformed source => [Settings.malformedMessage source]
  | .tooDeep nesting => [Settings.tooDeepMessage nesting]
  | .invalid faults =>
    faults.map fun f => String.intercalate "." f.place ++ ": " ++ f.issue.word

/-- Starts with settings and writes the log lines. -/
def start (s : Settings) (home : String) : IO UInt32 := do
  let place : Surroundings := ⟨(← IO.currentDir).toString, home⟩
  let milliseconds ← clock
  let now := Binary64.div (.ofInt milliseconds) (.ofNat 1000)
  let known ← answers (Container.make s place now).loader
  let read := fun path => (known.lookup path).getD (.result (.ofFault (.file .missing)))
  match Start.run s place now read {} with
  | .error taken =>
    IO.eprintln taken.message
    return 1
  | .ok (.returned start) =>
    match Log.timestamp (.int (milliseconds / 1000)) (.int (milliseconds % 1000)) with
    | .error cause =>
      IO.eprintln cause.message
      return 1
    | .ok time =>
      (start.lines time).forM fun line => IO.eprintln line
      return 0
  | .ok _ => return 1

end PromptShelf.Main

open PromptShelf PromptShelf.Main in
def main : IO UInt32 := do
  let environment ← readEnvironment
  let file ← readFile ".env"
  match Settings.loadAfter file { environment := environment } with
  | .ok s => start s ((environment.lookup "HOME").getD "~")
  | .error e =>
    (explain e).forM fun line => IO.eprintln line
    return 1
