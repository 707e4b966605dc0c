/-
Settings of the library.

Where the workspace, the data and the templates are, which file names are
templates, whether templates are loaded at the start, and how much is logged.
Every setting has a name, under which it is given, and a default.
-/
import PromptShelf.Text.Case

namespace PromptShelf

/-- Settings, each with its default. -/
structure Settings where
  workspaceRoot : String := ""
  dataDirectory : String := ".mcp-tasks"
  templatesDirectory : String := ""
  extensions : List String := [".md"]
  preload : Bool := true
  logLevel : String := "INFO"
  environment : String := "dev"
  deriving DecidableEq

namespace Settings

/-- Name of the list of template extensions, the one setting that is no plain text. -/
def extensionsName : String := "TEMPLATE_EXTENSIONS"

def names : List String :=
  ["MCP_WORKSPACE_ROOT", "DATA_DIR", "TEMPLATES_DIR", extensionsName, "PRELOAD_ON_STARTUP",
    "LOG_LEVEL", "TASKPROMPT_ENV"]

/-- The program runs for its users, not its makers. -/
def isProduction (s : Settings) : Bool := Text.lower s.environment == "prod"

/-- The extensions that a template must have; an empty list asks for none. -/
def requiredExtensions (s : Settings) : Option (List String) :=
  if s.extensions.isEmpty then none else some s.extensions

end Settings

end PromptShelf
