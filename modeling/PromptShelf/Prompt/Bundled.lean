/-
The templates that come with the library.

Each is a text with placeholders in braces and a line feed at the end of every line.
They stand in a tree of files (`Bundled.tree`), where a reader finds them.
-/
import PromptShelf.Loader.Basic

namespace PromptShelf.Bundled

def ofLines (lines : List String) : String := String.join (lines.map (· ++ "\n"))

def planTask : String := ofLines [
    "## Task Planning",
    "",
    "Description:",
    "",
    "```",
    "\x7bdescription\x7d",
    "```",
    "",
    "Requirements:",
    "",
    "```",
    "\x7brequirements\x7d",
    "```",
    "",
    "\x7btasksTemplate\x7d",
    "",
    "Project rules are stored at `\x7brulesPath\x7d`; past task records are stored " ++
      "under `\x7bmemoryDir\x7d`.",
    "",
    "\x7bthoughtTemplate\x7d",
    "",
    "Plan the work in small verifiable steps. Do not write code in this step."]

def analyzeTask : String := ofLines [
    "## Codebase Analysis",
    "",
    "Task summary:",
    "",
    "```",
    "\x7bsummary\x7d",
    "```",
    "",
    "Initial concept:",
    "",
    "```",
    "\x7binitialConcept\x7d",
    "```",
    "",
    "## Analysis Guidelines",
    "",
    "1. Check the proposed approach against the existing architecture and name the " ++
      "modules it touches.",
    "2. Identify reusable components before proposing new ones.",
    "3. List the risks, edge cases and performance concerns of the concept.",
    "4. Note any assumption that needs confirmation from the user.",
    "",
    "\x7biterationPrompt\x7d",
    "",
    "When the analysis is complete, call `reflect_task` with the final analysis."]

/-- An earlier analysis, inside the prompt for analysing a task. -/
def analyzeTaskIteration : String := ofLines [
    "## Previous Analysis",
    "",
    "```",
    "\x7bpreviousAnalysis\x7d",
    "```",
    "",
    "Compare the current concept with the previous analysis. Keep what still holds, " ++
      "explain what changed and why."]

def reflectTask : String := ofLines [
    "## Reflection",
    "",
    "Task summary:",
    "",
    "```",
    "\x7bsummary\x7d",
    "```",
    "",
    "Analysis:",
    "",
    "```",
    "\x7banalysis\x7d",
    "```",
    "",
    "Review the analysis critically:",
    "",
    "1. Does it fully cover the requirements in the summary?",
    "2. Are there simpler alternatives that were not considered?",
    "3. Is the design consistent with the existing code style and conventions?",
    "",
    "If the analysis holds up, call `split_tasks` to break the work into subtasks. " ++
      "Otherwise revise it and call `analyze_task` again."]

def executeTask : String := ofLines [
    "## Task Execution",
    "",
    "**Name:** \x7bname\x7d",
    "**ID:** `\x7bid\x7d`",
    "**Description:** \x7bdescription\x7d",
    "",
    "\x7bnotesTemplate\x7d",
    "",
    "\x7bimplementationGuideTemplate\x7d",
    "",
    "\x7bverificationCriteriaTemplate\x7d",
    "",
    "\x7brelatedFilesTemplate\x7d",
    "",
    "Implement the task following the guide above. When finished, call `verify_task` " ++
      "with the task ID."]

def listTasks : String := ofLines [
    "## Task List",
    "",
    "\x7bstatusCount\x7d",
    "",
    "\x7btaskDetailsTemplate\x7d"]

def taskDetail : String := ofLines [
    "## Task Detail",
    "",
    "**Name:** \x7bname\x7d",
    "**ID:** `\x7bid\x7d`",
    "**Status:** \x7bstatus\x7d",
    "**Description:** \x7bdescription\x7d",
    "",
    "\x7bnotesTemplate\x7d",
    "",
    "\x7bdependenciesTemplate\x7d",
    "",
    "\x7bcomplexityTemplate\x7d"]

def verifyTask : String := ofLines [
    "## Task Verification",
    "",
    "**Name:** \x7bname\x7d",
    "**ID:** `\x7bid\x7d`",
    "**Score:** \x7bscore\x7d",
    "",
    "Summary:",
    "",
    "\x7bsummary\x7d",
    "",
    "A score of 80 or above marks the task as completed. Below that, address the " ++
      "gaps listed in the summary and verify again."]

def processThought : String := ofLines [
    "## Thought \x7bthoughtNumber\x7d/\x7btotalThoughts\x7d (\x7bstage\x7d)",
    "",
    "\x7bthought\x7d",
    "",
    "**Tags:** \x7btags\x7d",
    "",
    "**Axioms used:**",
    "\x7baxioms\x7d",
    "",
    "**Assumptions challenged:**",
    "\x7bassumptions\x7d",
    "",
    "Next thought needed: \x7bnextThoughtNeeded\x7d"]

def researchMode : String := ofLines [
    "## Research Mode",
    "",
    "Topic:",
    "",
    "```",
    "\x7btopic\x7d",
    "```",
    "",
    "Previous state:",
    "",
    "```",
    "\x7bpreviousState\x7d",
    "```",
    "",
    "Current state:",
    "",
    "```",
    "\x7bcurrentState\x7d",
    "```",
    "",
    "Next steps:",
    "",
    "```",
    "\x7bnextSteps\x7d",
    "```",
    "",
    "Keep research focused on the topic. Use web search for current information and " ++
      "read the codebase for existing patterns. Record findings and call " ++
      "`research_mode` again with the updated state."]

def greeting : String := ofLines [
    "Hello \x7bname\x7d!"]

def files : List (String × String) :=
  [("planTask/index.md", planTask),
    ("analyzeTask/index.md", analyzeTask),
    ("analyzeTask/iteration.md", analyzeTaskIteration),
    ("reflectTask/index.md", reflectTask),
    ("executeTask/index.md", executeTask),
    ("listTasks/index.md", listTasks),
    ("getTaskDetail/index.md", taskDetail),
    ("verifyTask/index.md", verifyTask),
    ("processThought/index.md", processThought),
    ("researchMode/index.md", researchMode),
    ("tests/basic.md", greeting)]

/-- A tree of files that holds the templates. -/
def tree : FileTree :=
  files.foldl (fun t (name, text) =>
    (t.writeFile [] (.ofString (bundledRoot ++ "/" ++ name))
      (Text.Utf8.encode text.toList)).1) ⟨[]⟩

/-- The reader of the templates that come with the library. -/
def read : String → Answer := Answer.ofTree tree []

/-- A reader that finds texts under their names below a root, and nothing else. -/
def readerOf (root : String) (texts : List (String × String)) (path : String) : Answer :=
  match texts.find? fun (name, _) => root ++ "/" ++ name = path with
  | some (_, text) => .result (.ofText text)
  | none => .result (.ofFault (.file .missing))

end PromptShelf.Bundled
