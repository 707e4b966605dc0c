/-
Prompts from their arguments.

A prompt is a template and the context its placeholders are filled from.  Arguments
are put into words first; then the template is loaded and rendered, and no argument is
ever read as a template.  The prompt for analysing a task may show an earlier analysis:
that part is rendered by itself and put in as a text.
-/
import PromptShelf.Loader.Basic
import PromptShelf.Text.Blank

namespace PromptShelf.Prompt

/-- What a prompt is asked for. -/
inductive Request
  | analyze (summary initialConcept previousAnalysis : Value)
  | reflect (summary analysis : Value)
  | thought (thought number total stage nextNeeded tags axioms assumptions : Value)
  | research (topic previousState currentState nextSteps : Value)

/-- Prompts by name. -/
inductive Kind
  | analyze
  | reflect
  | thought
  | research
  deriving DecidableEq

namespace Kind

def title : Kind → String
  | .analyze => "AnalyzeTaskPromptBuilder.build()"
  | .reflect => "ReflectTaskPromptBuilder.build()"
  | .thought => "ProcessThoughtPromptBuilder.build()"
  | .research => "ResearchModePromptBuilder.build()"

/-- Names of the arguments that must be given. -/
def required : Kind → List String
  | .analyze => ["summary", "initial_concept"]
  | .reflect => ["summary", "analysis"]
  | .thought => ["thought", "thought_number", "total_thoughts", "stage", "next_thought_needed"]
  | .research => ["topic", "previous_state", "current_state", "next_steps"]

/-- Names of the arguments that may be given; otherwise they are nothing. -/
def optional : Kind → List String
  | .analyze => ["previous_analysis"]
  | .thought => ["tags", "axioms_used", "assumptions_challenged"]
  | _ => []

/-- Name of the argument that is the prompt, and so is given already. -/
def promptName : String := "self"

def nameFault? (k : Kind) (name : String) : Option ArgumentFault :=
  if name = promptName then some (.repeated k.title name)
  else if (k.required ++ k.optional).contains name then none
  else some (.unexpected k.title name)

/-- The request that arguments under their names make. -/
def request (k : Kind) (args : List (String × Value)) : Except ArgumentFault Request :=
  match args.findSome? fun a => k.nameFault? a.1 with
  | some fault => .error fault
  | none =>
    let absent := k.required.filter fun name => (args.lookup name).isNone
    if absent ≠ [] then .error (.missing k.title absent)
    else
      let get := fun (name : String) => (args.lookup name).getD .none
      .ok (match k with
        | .analyze =>
          .analyze (get "summary") (get "initial_concept") (get "previous_analysis")
        | .reflect => .reflect (get "summary") (get "analysis")
        | .thought =>
          .thought (get "thought") (get "thought_number") (get "total_thoughts") (get "stage")
            (get "next_thought_needed") (get "tags") (get "axioms_used")
            (get "assumptions_challenged")
        | .research =>
          .research (get "topic") (get "previous_state") (get "current_state")
            (get "next_steps"))

end Kind

/-- The earlier analysis, if there is one worth showing: texts and bytes are not, if they
hold nothing but blanks. -/
def previous? (v : Value) : Except ArgumentFault (Option Value) :=
  if !v.isTrue then .ok none
  else
    match v with
    | .text s => .ok (if Text.isBlankText s then none else some v)
    | .bytes octets => .ok (if octets.all Text.isBlankByte then none else some v)
    | v => .error (.noText v.qualifiedKind)

def contextOf (fields : List (String × Value)) : Template.Context :=
  fields.map fun f => (.text f.1, f.2)

/-- Context for analysing a task, with the part about an earlier analysis. -/
def analyzeContext (summary initialConcept : Value) (iteration : String) : Template.Context :=
  contextOf [("summary", summary), ("initialConcept", initialConcept),
    ("iterationPrompt", .text iteration)]

/-- Context of the part about an earlier analysis. -/
def iterationContext (previous : Value) : Template.Context :=
  contextOf [("previousAnalysis", previous)]

/-- Context for looking at an analysis once more. -/
def reflectContext (summary analysis : Value) : Template.Context :=
  contextOf [("summary", summary), ("analysis", analysis)]

/-- Context of a thought, with its lists in words. -/
def thoughtContext (thought number total stage nextNeeded tags axioms assumptions : Value) :
    Except ArgumentFault Template.Context := do
  let tags ← joinedList tags
  let axioms ← numberedList axioms noneText
  let assumptions ← numberedList assumptions noneText
  return contextOf [("thought", thought), ("thoughtNumber", number), ("totalThoughts", total),
    ("stage", stage), ("nextThoughtNeeded", .text (yesNo nextNeeded)), ("tags", .text tags),
    ("axioms", .text axioms), ("assumptions", .text assumptions)]

def researchContext (topic previousState currentState nextSteps : Value) : Template.Context :=
  contextOf [("topic", topic), ("previousState", previousState),
    ("currentState", currentState), ("nextSteps", nextSteps)]

/-- A template, loaded with a reader that answers at once, and rendered. -/
def render (l : Loader) (read : String → Answer) (s : Loader.State) (path : String)
    (context : Template.Context) : Loader.State × Ending String :=
  match l.load read s path with
  | (s, .returned template) =>
    match Template.render template context with
    | .ok text => (s, .returned text)
    | .error cause => (s, .failed (.unrendered cause))
  | (s, ending) => (s, ending)

/-- The part about an earlier analysis: nothing if there is none. -/
def iteration (l : Loader) (read : String → Answer) (s : Loader.State) (previous : Value) :
    Loader.State × Ending String :=
  match previous? previous with
  | .error fault => (s, .failed (.badArguments fault))
  | .ok none => (s, .returned "")
  | .ok (some v) => render l read s "analyzeTask/iteration.md" (iterationContext v)

def build (l : Loader) (read : String → Answer) (s : Loader.State) :
    Request → Loader.State × Ending String
  | .analyze summary initialConcept previous =>
    match iteration l read s previous with
    | (s, .returned part) =>
      render l read s "analyzeTask/index.md" (analyzeContext summary initialConcept part)
    | (s, ending) => (s, ending)
  | .reflect summary analysis =>
    render l read s "reflectTask/index.md" (reflectContext summary analysis)
  | .thought thought number total stage nextNeeded tags axioms assumptions =>
    match thoughtContext thought number total stage nextNeeded tags axioms assumptions with
    | .ok context => render l read s "processThought/index.md" context
    | .error fault => (s, .failed (.badArguments fault))
  | .research topic previousState currentState nextSteps =>
    render l read s "researchMode/index.md"
      (researchContext topic previousState currentState nextSteps)

/-- The prompt of a kind for arguments under their names. -/
def buildNamed (l : Loader) (read : String → Answer) (s : Loader.State) (k : Kind)
    (args : List (String × Value)) : Loader.State × Ending String :=
  match k.request args with
  | .ok request => build l read s request
  | .error fault => (s, .failed (.badArguments fault))

end PromptShelf.Prompt
