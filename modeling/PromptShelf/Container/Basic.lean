/-
Everything that prompts need, put together from settings.

A container has a loader for the templates, a resolver for the data directory and the
loader's state.  What it does is done by these; it only passes on where the templates
and the data are.
-/
import PromptShelf.FileTree.Ensuring
import PromptShelf.Loader.Preload
import PromptShelf.Prompt.Build
import PromptShelf.Workspace

namespace PromptShelf

/-- A loader and its state, a resolver for data, and the settings they are made from. -/
structure Container where
  settings : Settings
  loader : Loader
  data : Resolver
  state : Loader.State

namespace Container

/-- The container of settings, with nothing loaded yet. -/
def make (s : Settings) (p : Surroundings) (now : Binary64) : Container where
  settings := s
  loader :=
    ⟨.make p.directory (Workspace.templatesRoot s p) s.requiredExtensions,
      Loader.commonTemplates⟩
  data := .make p.directory (Workspace.dataDirectory s p) none
  state := .initial now

def withState {α : Type} (c : Container) (result : Loader.State × α) : Container × α :=
  ({ c with state := result.1 }, result.2)

def load (c : Container) (read : String → Answer) (path : String) : Container × Ending String :=
  c.withState (c.loader.load read c.state path)

def render (c : Container) (read : String → Answer) (path : String)
    (context : Template.Context) : Container × Ending String :=
  c.withState (Prompt.render c.loader read c.state path context)

def build (c : Container) (read : String → Answer) (k : Prompt.Kind)
    (args : List (String × Value)) : Container × Ending String :=
  c.withState (Prompt.buildNamed c.loader read c.state k args)

def preload (c : Container) (read : String → Answer) (paths : List String) :
    Container × Ending PreloadReport :=
  c.withState (c.loader.preload read c.state paths)

/-- Loads the common templates, if the settings ask for it. -/
def startUp (c : Container) (read : String → Answer) :
    Container × Ending (Option PreloadReport) :=
  if c.settings.preload then
    match c.preload read c.loader.preloadPaths with
    | (c, .returned r) => (c, .returned (some r))
    | (c, .failed e) => (c, .failed e)
    | (c, .stopped s) => (c, .stopped s)
  else (c, .returned none)

def step (c : Container) (s : Loader.Step) : Container :=
  { c with state := c.loader.step c.state s }

/-- The metrics at the time of the container's clock. -/
def snapshot (c : Container) : Value := c.state.metrics.snapshot c.state.now

/-- Makes sure that the data directory is there, and names it. -/
def ensureDataDirectory (c : Container) (t : FileTree) (directory : Location) :
    FileTree × Except Error String :=
  match t.ensurePath directory c.data.root with
  | (t, .ok ()) => (t, .ok c.data.root)
  | (t, .error e) => (t, .error e)

end Container

end PromptShelf
