/-
The templates of the prompts as layouts.

Each template is written once more, line by line, with its placeholders told apart from its literal
texts.  What comes out when the placeholders are put into braces is the template that comes with
the library, so nothing else in it is read as a placeholder: the literal texts hold no brace.

* **`filled_ofLines`** — lines are filled one by one;
* **`template_layouts`** — the layouts are those of the templates of the library;
* **`plain_layouts`** — their literal texts hold no brace.
-/
import PromptShelf.Proofs.Template.Layout
import PromptShelf.Prompt.Bundled

namespace PromptShelf.Template.Layout

/-! ### Lines -/

section Filled

variable (values : String → String)

@[simp] theorem filled_nil : filled values [] = "" := rfl

@[simp] theorem filled_literal (text : String) (l : Layout) :
    filled values (.literal text :: l) = text ++ filled values l := by
  simp [filled, Part.filled, String.ofList_append]

@[simp] theorem filled_slot (name : String) (l : Layout) :
    filled values (.slot name :: l) = values name ++ filled values l := by
  simp [filled, Part.filled, String.ofList_append]

theorem filled_append (l m : Layout) :
    filled values (l ++ m) = filled values l ++ filled values m := by
  rw [filled, List.flatMap_append, String.ofList_append]
  rfl

/-- Lines with a line feed at the end of each. -/
def ofLines (lines : List Layout) : Layout := lines.flatMap (· ++ [.literal "\n"])

/-- Lines are filled one by one. -/
theorem filled_ofLines (lines : List Layout) :
    (ofLines lines).filled values = Bundled.ofLines (lines.map (filled values)) := by
  induction lines with
  | nil => rfl
  | cons line lines ih =>
    have hline : (ofLines (line :: lines)).filled values =
        line.filled values ++ "\n" ++ (ofLines lines).filled values := by
      rw [ofLines, List.flatMap_cons, filled_append, filled_append]
      rfl
    rw [hline, ih, Bundled.ofLines, Bundled.ofLines, List.map_cons, List.map_cons,
      String.join_cons]

end Filled

/-- A template is its layout with the names in braces in the slots. -/
theorem template_eq_filled (l : Layout) :
    l.template = l.filled fun name => "\x7b" ++ name ++ "\x7d" := by
  have hparts : ∀ p : Part, p.source = p.filled fun name => "\x7b" ++ name ++ "\x7d" := by
    intro p
    cases p with
    | literal text => rfl
    | slot name => simp [Part.source, Part.filled]
  rw [template, filled, funext hparts]

/-! ### Plain layouts -/

theorem plain_cons {p : Part} {l : Layout} : Plain (p :: l) ↔ p.Plain ∧ l.Plain :=
  List.forall_mem_cons

theorem plain_nil : Plain [] := by
  intro p hp
  exact absurd hp List.not_mem_nil

theorem plain_ofLines {lines : List Layout} (h : ∀ line ∈ lines, line.Plain) :
    (ofLines lines).Plain := by
  intro p hp
  obtain ⟨line, hline, hmem⟩ := List.mem_flatMap.mp hp
  rcases List.mem_append.mp hmem with hmem | hmem
  · exact h line hline p hmem
  · obtain rfl := List.mem_singleton.mp hmem
    show BraceFree "\n".toList
    decide

/-- A literal text is plain if the characters it is written with are. -/
theorem plain_written {text : String} {cs : List Char} (htext : String.ofList cs = text)
    (h : BraceFree cs) : (Part.literal text).Plain := by
  show BraceFree text.toList
  rwa [← htext, String.toList_ofList]

theorem plain_named {name : String} {cs : List Char} (hname : String.ofList cs = name)
    (hne : cs ≠ []) (h : BraceFree cs) : (Part.slot name).Plain := by
  subst hname
  refine ⟨?_, ?_⟩
  · simpa using hne
  · rwa [String.toList_ofList]

theorem plain_appended {text more : String} :
    (Part.literal (text ++ more)).Plain ↔
      (Part.literal text).Plain ∧ (Part.literal more).Plain := by
  show BraceFree (text ++ more).toList ↔ BraceFree text.toList ∧ BraceFree more.toList
  simp only [BraceFree, String.toList_append, List.mem_append, not_or]
  tauto

end PromptShelf.Template.Layout

namespace PromptShelf.Prompt

open PromptShelf.Template

/-! ### The layouts -/

def analyzeLayout : Layout := .ofLines [
    [.literal "## Codebase Analysis"],
    [],
    [.literal "Task summary:"],
    [],
    [.literal "```"],
    [.slot "summary"],
    [.literal "```"],
    [],
    [.literal "Initial concept:"],
    [],
    [.literal "```"],
    [.slot "initialConcept"],
    [.literal "```"],
    [],
    [.literal "## Analysis Guidelines"],
    [],
    [.literal ("1. Check the proposed approach against the existing architecture and name the " ++
      "modules it touches.")],
    [.literal "2. Identify reusable components before proposing new ones."],
    [.literal "3. List the risks, edge cases and performance concerns of the concept."],
    [.literal "4. Note any assumption that needs confirmation from the user."],
    [],
    [.slot "iterationPrompt"],
    [],
    [.literal "When the analysis is complete, call `reflect_task` with the final analysis."]]

/-- The part about an earlier analysis. -/
def iterationLayout : Layout := .ofLines [
    [.literal "## Previous Analysis"],
    [],
    [.literal "```"],
    [.slot "previousAnalysis"],
    [.literal "```"],
    [],
    [.literal ("Compare the current concept with the previous analysis. Keep what still holds, " ++
      "explain what changed and why.")]]

def reflectLayout : Layout := .ofLines [
    [.literal "## Reflection"],
    [],
    [.literal "Task summary:"],
    [],
    [.literal "```"],
    [.slot "summary"],
    [.literal "```"],
    [],
    [.literal "Analysis:"],
    [],
    [.literal "```"],
    [.slot "analysis"],
    [.literal "```"],
    [],
    [.literal "Review the analysis critically:"],
    [],
    [.literal "1. Does it fully cover the requirements in the summary?"],
    [.literal "2. Are there simpler alternatives that were not considered?"],
    [.literal "3. Is the design consistent with the existing code style and conventions?"],
    [],
    [.literal ("If the analysis holds up, call `split_tasks` to break the work into subtasks. " ++
      "Otherwise revise it and call `analyze_task` again.")]]

def thoughtLayout : Layout := .ofLines [
    [.literal "## Thought ", .slot "thoughtNumber", .literal "/", .slot "totalThoughts",
      .literal " (", .slot "stage", .literal ")"],
    [],
    [.slot "thought"],
    [],
    [.literal "**Tags:** ", .slot "tags"],
    [],
    [.literal "**Axioms used:**"],
    [.slot "axioms"],
    [],
    [.literal "**Assumptions challenged:**"],
    [.slot "assumptions"],
    [],
    [.literal "Next thought needed: ", .slot "nextThoughtNeeded"]]

def researchLayout : Layout := .ofLines [
    [.literal "## Research Mode"],
    [],
    [.literal "Topic:"],
    [],
    [.literal "```"],
    [.slot "topic"],
    [.literal "```"],
    [],
    [.literal "Previous state:"],
    [],
    [.literal "```"],
    [.slot "previousState"],
    [.literal "```"],
    [],
    [.literal "Current state:"],
    [],
    [.literal "```"],
    [.slot "currentState"],
    [.literal "```"],
    [],
    [.literal "Next steps:"],
    [],
    [.literal "```"],
    [.slot "nextSteps"],
    [.literal "```"],
    [],
    [.literal ("Keep research focused on the topic. Use web search for current information and " ++
      "read the codebase for existing patterns. Record findings and call " ++
      "`research_mode` again with the updated state.")]]

/-! ### The templates of the layouts -/

section Templates

open Layout

/-- Rendered or not, the templates are those that come with the library. -/
theorem template_layouts :
    analyzeLayout.template = Bundled.analyzeTask ∧
      iterationLayout.template = Bundled.analyzeTaskIteration ∧
      reflectLayout.template = Bundled.reflectTask ∧
      thoughtLayout.template = Bundled.processThought ∧
      researchLayout.template = Bundled.researchMode := by
  refine ⟨?analyze, ?iteration, ?reflect, ?thought, ?research⟩
  all_goals
    refine (template_eq_filled _).trans ((filled_ofLines _ _).trans ?_)
    simp only [List.map_cons, List.map_nil, filled_nil, filled_literal, filled_slot,
      String.append_empty, -String.reduceAppend]
    rfl

/-- No literal text of a layout holds a brace. -/
theorem plain_layouts : analyzeLayout.Plain ∧ iterationLayout.Plain ∧ reflectLayout.Plain ∧
    thoughtLayout.Plain ∧ researchLayout.Plain := by
  refine ⟨plain_ofLines ?analyze, plain_ofLines ?iteration, plain_ofLines ?reflect,
    plain_ofLines ?thought, plain_ofLines ?research⟩
  all_goals
    simp only [List.forall_mem_cons, List.not_mem_nil, false_implies, implies_true, and_true,
      true_and, plain_cons, plain_nil, plain_appended]
    repeat' with_reducible apply And.intro
  all_goals
    first
      | exact plain_written rfl (by decide)
      | exact plain_named rfl (by decide) (by decide)

end Templates

end PromptShelf.Prompt
