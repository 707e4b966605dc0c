/-
Loading templates through a cache.

Callers ask for templates by path.  A path is resolved first; the key of the
resolved path names its template in the cache and among the reads in flight, so all
spellings of a path share one read.  A caller is answered from the cache, waits for
the read in flight, or starts one and waits for it.

Between the moments at which a caller, a read or the end of one runs, anything else
may happen.  A `Step` is one such moment, and `Loader.step` says what it does to the
`State`; a step that cannot happen changes nothing.  A read goes through stages:

* *queued*, when a caller has started it;
* *running*, when the reader has been asked;
* *ended*, with the reader's answer: the cache and the metrics know of it, but the key
  is still in flight;
* *announced*, when the key has left the flight and the callers may go on.

A caller may stop waiting at any time; the read does not notice.
-/
import PromptShelf.Cache
import PromptShelf.Log.Record
import PromptShelf.Metrics
import PromptShelf.Path.Resolver

namespace PromptShelf

/-- How a reader answers: with a result, with an error of its own, or not at all,
because it was stopped. -/
inductive Answer
  | result (r : ReadResult)
  | raised (error : Error)
  | stopped (stop : Stop)

/-- How a tree of files answers for a path that is seen from a directory. -/
def Answer.ofTree (t : FileTree) (directory : Location) (path : String) : Answer :=
  match t.readText directory path FileTree.defaultEncoding with
  | .ok r => .result r
  | .error cause => .raised (.refusedRead cause)

/-- How far a read is. -/
inductive Stage
  | queued
  | running (since : Binary64)
  | ended (answer : Answer)
  | announced (answer : Answer)

/-- A read of the file at a path for the template of a key. -/
structure Read where
  key : String
  path : String
  stage : Stage

/-- A caller waits for a read or has got its answer. -/
inductive Caller
  | waiting (read : Nat)
  | done (ending : Ending String)

/-- A loader: where it looks, and what it loads at the start. -/
structure Loader where
  resolver : Resolver
  preloadPaths : List String

namespace Loader

def commonTemplates : List String :=
  ["planTask/index.md", "analyzeTask/index.md", "executeTask/index.md", "listTasks/index.md",
    "getTaskDetail/index.md", "verifyTask/index.md", "processThought/index.md",
    "researchMode/index.md"]

/-- What a loader has at a time: its cache, the keys in flight with the numbers of
their reads, all reads and all callers in the order they were started, the metrics,
the clock, the log, and the paths the reader was asked for. -/
structure State where
  cache : Cache := {}
  inFlight : List (String × Nat) := []
  reads : List Read := []
  callers : List Caller := []
  metrics : Metrics
  now : Binary64
  log : List Log.Record := []
  requests : List String := []

def State.initial (now : Binary64) : State := { metrics := { startedAt := now }, now := now }

/-- A moment at which something runs. -/
inductive Step
  | call (requested : String)
  | begin (read : Nat)
  | complete (read : Nat) (answer : Answer)
  | announce (read : Nat)
  | deliver (caller : Nat)
  | cancel (caller : Nat)
  | clear
  | advance (seconds : Binary64)

/-- Text of a read that ended well; a text that is missing is empty. -/
def content (r : ReadResult) : String := r.content.getD ""

/-- What the callers of a read get when the reader answers. -/
def outcome (l : Loader) (key : String) : Answer → Ending String
  | .raised e => .failed e
  | .stopped s => .stopped s
  | .result r =>
    match r.status with
    | .ok => .returned (content r)
    | .notFound => .failed (.notFound key l.resolver.hint)
    | _ => .failed (.unreadable key r.fault)

def record (severity : Log.Severity) (message : String)
    (fields : List (String × Value) := []) : Log.Record :=
  { logger := "taskprompt.template_loader", severity, message, fields }

def countText (n : Nat) : String := String.ofList (Decimal.digits n)

namespace State

def read? (s : State) (i : Nat) : Option Read := s.reads[i]?

def logging (s : State) (r : Log.Record) : State := { s with log := s.log ++ [r] }

def counting (s : State) (e : Metrics.Event) : State := { s with metrics := s.metrics.apply e }

def withCaller (s : State) (c : Caller) : State := { s with callers := s.callers ++ [c] }

def setStage (s : State) (i : Nat) (stage : Stage) : State :=
  { s with reads := s.reads.modify i fun r => { r with stage := stage } }

def hit (s : State) (key text : String) : State :=
  ((s.logging (record Log.Severity.debug ("Template cache hit: " ++ key))).counting .hit).withCaller
    (.done (.returned text))

end State

/-- A caller joins a read in flight.  It waits for the announcement, unless the read
has ended already: then it has its answer at once. -/
def join (l : Loader) (s : State) (key : String) (i : Nat) : State :=
  let s := (s.logging (record Log.Severity.debug ("Joining in-flight load: " ++ key))).counting
    .coalesced
  match (s.read? i).map Read.stage with
  | some (.ended answer) => s.withCaller (.done (l.outcome key answer))
  | some (.announced answer) => s.withCaller (.done (l.outcome key answer))
  | _ => s.withCaller (.waiting i)

/-- A caller starts a read and waits for it. -/
def start (s : State) (key path : String) : State :=
  let i := s.reads.length
  ({ s.counting .miss with
      reads := s.reads ++ [⟨key, path, .queued⟩]
      inFlight := s.inFlight ++ [(key, i)] } : State).withCaller (.waiting i)

def call (l : Loader) (s : State) (requested : String) : State :=
  match l.resolver.resolve requested with
  | .error e => s.withCaller (.done (.failed e))
  | .ok path =>
    -- Looking into the cache and into the flight is one moment: nothing comes between.
    let key := l.resolver.key path
    match s.cache.get? key with
    | some text => s.hit key text
    | none =>
      match s.inFlight.lookup key with
      | some i => l.join s key i
      | none => start s key path

def begin (s : State) (i : Nat) : State :=
  match s.read? i with
  | some ⟨key, path, .queued⟩ =>
    let s := s.logging (record Log.Severity.debug ("Loading template from disk: " ++ key))
    { s.setStage i (.running s.now) with requests := s.requests ++ [path] }
  | _ => s

/-- What a result does to cache, metrics and log. -/
def store (s : State) (key : String) (r : ReadResult) : State :=
  if r.status = .ok then
    let s := { s with cache := s.cache.put key (content r) }
    (s.counting (.cacheSize s.cache.size)).logging
      (record Log.Severity.info ("Template loaded and cached: " ++ key ++ " (" ++
        countText (content r).length ++ " bytes)"))
  else
    (s.counting .error).logging
      (record Log.Severity.error
        ("Failed to load template: " ++ key ++ " (" ++ r.status.word ++ ")")
        [("template_path", .text key)])

def complete (s : State) (i : Nat) (answer : Answer) : State :=
  match s.read? i with
  | some ⟨key, _, .running since⟩ =>
    let s := s.setStage i (.ended answer)
    match answer with
    -- Time is measured for all results, also for those that are faults.
    | .result r =>
      store (s.counting (.load ((s.now.sub since).mul (.ofNat 1000)))) key r
    | _ => s
  | _ => s

/-- The end of a read is announced: its key leaves the flight. -/
def announce (s : State) (i : Nat) : State :=
  match s.read? i with
  | some ⟨key, _, .ended answer⟩ =>
    let s := s.setStage i (.announced answer)
    -- Only its own entry, should the key ever lead to another read.
    { s with inFlight := s.inFlight.filter fun f => f ≠ (key, i) }
  | _ => s

def deliver (l : Loader) (s : State) (c : Nat) : State :=
  match s.callers[c]? with
  | some (.waiting i) =>
    match s.read? i with
    | some ⟨key, _, .announced answer⟩ =>
      { s with callers := s.callers.set c (.done (l.outcome key answer)) }
    | _ => s
  | _ => s

def cancel (s : State) (c : Nat) : State :=
  match s.callers[c]? with
  | some (.waiting _) => { s with callers := s.callers.set c (.done (.stopped .cancelled)) }
  | _ => s

def clear (s : State) : State :=
  let removed := s.cache.size
  -- Reads that are under way are not stopped; they fill the cache again.
  ({ s with cache := {} }.counting (.cacheSize 0)).logging
    (record Log.Severity.debug
      ("Template cache cleared (" ++ countText removed ++ " entries removed)"))

def step (l : Loader) (s : State) : Step → State
  | .call requested => l.call s requested
  | .begin i => begin s i
  | .complete i answer => complete s i answer
  | .announce i => announce s i
  | .deliver c => l.deliver s c
  | .cancel c => cancel s c
  | .clear => clear s
  | .advance seconds => { s with now := s.now.add seconds }

def run (l : Loader) (s : State) (steps : List Step) : State := steps.foldl l.step s

/-- How the answer of a caller came out, if it has come. -/
def State.ending? (s : State) (c : Nat) : Option (Ending String) :=
  match s.callers[c]? with
  | some (.done ending) => some ending
  | _ => none

/-- Asks the reader for every read that is queued; one without an answer yet keeps
running. -/
def startQueued (l : Loader) (answer? : Read → Option Answer) (s : State) : State :=
  (List.range s.reads.length).foldl (fun s i =>
    match s.read? i with
    | some ⟨key, path, .queued⟩ =>
      let s := l.step s (.begin i)
      match answer? ⟨key, path, .queued⟩ with
      | some answer => l.step s (.complete i answer)
      | none => s
    | _ => s) s

/-- Everything that can run without waiting runs: queued reads, then announcements,
then callers, each in their order. -/
def settle (l : Loader) (answer? : Read → Option Answer) (s : State) : State :=
  let s := startQueued l answer? s
  let s := (List.range s.reads.length).foldl (fun s i => l.step s (.announce i)) s
  (List.range s.callers.length).foldl (fun s c => l.step s (.deliver c)) s

/-- One caller asks and waits, with a reader that answers at once. -/
def load (l : Loader) (read : String → Answer) (s : State) (requested : String) :
    State × Ending String :=
  let c := s.callers.length
  let s := l.settle (fun r => some (read r.path)) (l.step s (.call requested))
  (s, (s.ending? c).getD (.stopped .cancelled))

end Loader

end PromptShelf
