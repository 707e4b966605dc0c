/-
Sessions: clients at one loader.

A client asks for one template or for a preload of several.  The reader follows a
script: for some keys it has an answer ready; for others it waits to be told, if the
session is gated, and has not found the file, if it is not.  After every request all
that can run runs, and the clients that are through are told in the order they came.
-/
import PromptShelf.Loader.Preload

namespace PromptShelf.Loader

/-- What a client gets in the end. -/
inductive Reply
  | template (text : String)
  | report (r : PreloadReport)

/-- What a client waits for; one that was stopped waits for nothing. -/
inductive Wish
  | template (caller : Nat)
  | preload (paths : List String) (callers : List Nat)
  | nothing

/-- A client by name: what it waits for, and what it got. -/
structure Client where
  name : String
  wish : Wish
  ending : Option (Ending Reply) := none

/-- Clients, the loader's state and the reader's script. -/
structure Session where
  state : State
  gated : Bool
  script : List (String × Answer) := []
  clients : List Client := []

/-- What is asked of a session. -/
inductive Request
  | load (clients : List (String × String))
  | preload (client : String) (paths : Option (List String))
  | finish (key : String) (answer : Answer)
  | cancel (client : String)
  | cancelRead (key : String)
  | set (key : String) (answer : Answer)
  | unset (key : String)
  | clear
  | advance (seconds : Binary64)
  | put (key content : String)

namespace Session

/-- The answer the reader has ready for a read. -/
def answer? (s : Session) (r : Read) : Option Answer :=
  match s.script.lookup r.key with
  | some answer => some answer
  | none => if s.gated then none else some (.result (.ofFault (.file .missing)))

def setAnswer (s : Session) (key : String) (answer : Answer) : Session :=
  { s with script := (key, answer) :: s.script.filter (·.1 ≠ key) }

def Wish.callers : Wish → List Nat
  | .template c => [c]
  | .preload _ cs => cs
  | .nothing => []

/-- The number of the running read of a key. -/
def running? (s : State) (key : String) : Option Nat :=
  (List.range s.reads.length).find? fun i =>
    match s.read? i with
    | some ⟨k, _, .running _⟩ => k == key
    | _ => false

def endRead (l : Loader) (s : State) (key : String) (answer : Answer) : State :=
  match running? s key with
  | some i => l.step s (.complete i answer)
  | none => s

/-- One more client, whose callers are the newest ones of a state. -/
def join (s : Session) (name : String) (state : State) (wish : Wish) : Session :=
  { s with state := state, clients := s.clients ++ [⟨name, wish, none⟩] }

def ask (l : Loader) (s : Session) (name requested : String) : Session :=
  s.join name (l.step s.state (.call requested)) (.template s.state.callers.length)

/-- Stops a client that waits, and its callers. -/
def stop (l : Loader) (s : Session) (name : String) : Session :=
  s.clients.zipIdx.foldl (fun s (client, i) =>
    if client.name = name ∧ client.ending.isNone then
      { s with
        state := (Wish.callers client.wish).foldl (fun t c => l.step t (.cancel c)) s.state
        clients := s.clients.set i { client with wish := .nothing } }
    else s) s

/-- What a request does before anything else runs. -/
def receive (l : Loader) (s : Session) : Request → Session
  | .load clients => clients.foldl (fun s c => ask l s c.1 c.2) s
  | .preload client paths =>
    let paths := paths.getD l.preloadPaths
    let callers := (List.range paths.length).map (s.state.callers.length + ·)
    s.join client (l.startPreload s.state paths) (.preload paths callers)
  | .finish key answer => { s with state := endRead l s.state key answer }
  | .cancel client => stop l s client
  | .cancelRead key => { s with state := endRead l s.state key (.stopped .cancelled) }
  | .set key answer => s.setAnswer key answer
  | .unset key => { s with script := s.script.filter (·.1 ≠ key) }
  | .clear => { s with state := l.step s.state .clear }
  | .advance seconds => { s with state := l.step s.state (.advance seconds) }
  | .put key content => { s with state := { s.state with cache := s.state.cache.put key content } }

/-- The end of a client's wish, if all its callers have their answers. -/
def endingOf? (s : State) : Wish → Option (State × Ending Reply)
  | .template c =>
    (s.ending? c).map fun
      | .returned text => (s, .returned (.template text))
      | .failed e => (s, .failed e)
      | .stopped stop => (s, .stopped stop)
  | .preload paths callers =>
    (endings? s callers).map fun endings =>
      match finishPreload s paths endings with
      | (s, .returned r) => (s, .returned (.report r))
      | (s, .failed e) => (s, .failed e)
      | (s, .stopped stop) => (s, .stopped stop)
  | .nothing => some (s, .stopped .cancelled)

/-- Tells a client that is through, and adds its place to those told. -/
def tell (told : Session × List Nat) (i : Nat) : Session × List Nat :=
  let (s, places) := told
  match (s.clients[i]? : Option Client) with
  | some ⟨name, wish, none⟩ =>
    match endingOf? s.state wish with
    | some (state, ending) =>
      ({ s with state := state, clients := s.clients.set i ⟨name, wish, some ending⟩ },
        places ++ [i])
    | none => told
  | _ => told

/-- Tells the clients that are through, in order, and gives their places. -/
def reply (s : Session) : Session × List Nat :=
  (List.range s.clients.length).foldl tell (s, [])

/-- What a request does, and the places of the clients that are through. -/
def handle (l : Loader) (s : Session) (r : Request) : Session × List Nat :=
  let s := s.receive l r
  ({ s with state := l.settle s.answer? s.state }).reply

end Session

end PromptShelf.Loader
