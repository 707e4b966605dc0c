import PromptShelf.Cache
import PromptShelf.Container.Basic
import PromptShelf.Container.Bootstrap
import PromptShelf.Container.Registry
import PromptShelf.Error
import PromptShelf.Error.Form
import PromptShelf.FileTree.Basic
import PromptShelf.FileTree.Directories
import PromptShelf.FileTree.Ensuring
import PromptShelf.FileTree.Reading
import PromptShelf.JsonText.Reading
import PromptShelf.JsonText.Writing
import PromptShelf.Loader.Basic
import PromptShelf.Loader.Preload
import PromptShelf.Loader.Session
import PromptShelf.Log.Arguments
import PromptShelf.Log.ErrorInfo
import PromptShelf.Log.Line
import PromptShelf.Log.Record
import PromptShelf.Log.Redaction
import PromptShelf.Log.Root
import PromptShelf.Log.Timestamp
import PromptShelf.Main
import PromptShelf.Metrics
import PromptShelf.Number.Binary64
import PromptShelf.Number.Decimal
import PromptShelf.Path.Basic
import PromptShelf.Path.Confined
import PromptShelf.Path.Resolver
import PromptShelf.Prompt.Build
import PromptShelf.Prompt.Bundled
import PromptShelf.Prompt.Wording
import PromptShelf.Settings.Basic
import PromptShelf.Settings.EnvFile
import PromptShelf.Settings.Loading
import PromptShelf.Settle
import PromptShelf.Template.Render
import PromptShelf.Template.Split
import PromptShelf.Text.Blank
import PromptShelf.Text.Case
import PromptShelf.Text.Casing
import PromptShelf.Text.Encoding
import PromptShelf.Text.Printable
import PromptShelf.Text.Quoted
import PromptShelf.Text.Ranges
import PromptShelf.Text.Utf8
import PromptShelf.Value.Basic
import PromptShelf.Value.Display
import PromptShelf.Value.Heap
import PromptShelf.Workspace
import PromptShelf.Proofs.Template.Reading
import PromptShelf.Proofs.Template.Rendering
import PromptShelf.Proofs.Path.Normal
import PromptShelf.Proofs.Path.Sandbox
import PromptShelf.Proofs.Loader.Moves
import PromptShelf.Proofs.Loader.SingleFlight
import PromptShelf.Proofs.Path.Keys
import PromptShelf.Proofs.Loader.History
import PromptShelf.Proofs.Loader.Outcomes
import PromptShelf.Proofs.Loader.Accounting
import PromptShelf.Proofs.Log.Secrets
import PromptShelf.Proofs.Loader.Retry
import PromptShelf.Proofs.Loader.Isolation
import PromptShelf.Proofs.Path.Extensions
import PromptShelf.Proofs.Path.Resolvers
import PromptShelf.Proofs.Loader.Requests
import PromptShelf.Proofs.Loader.Settling
import PromptShelf.Proofs.Loader.Preloading
import PromptShelf.Proofs.Loader.Reports
import PromptShelf.Proofs.Loader.Discretion
import PromptShelf.Proofs.Template.Locality
import PromptShelf.Proofs.Template.Layout
import PromptShelf.Proofs.Text.Utf8
import PromptShelf.Proofs.Template.Naming
import PromptShelf.Proofs.Loader.Consecutive
import PromptShelf.Proofs.Prompt.Layouts
import PromptShelf.Proofs.Prompt.Shelf
import PromptShelf.Proofs.Prompt.Verbatim
import PromptShelf.Proofs.JsonText.Grammar
import PromptShelf.Proofs.JsonText.Numerals
import PromptShelf.Proofs.JsonText.Trees
import PromptShelf.Proofs.JsonText.Writable
import PromptShelf.Proofs.Log.Loggable
import PromptShelf.Proofs.Log.Lines
import PromptShelf.Proofs.Log.Shape
import PromptShelf.Proofs.Log.Recurrence
import PromptShelf.Proofs.Loader.Omission
import PromptShelf.Proofs.Loader.Failures
import PromptShelf.Proofs.Workspace.Protection
import PromptShelf.Proofs.Settle.Timing
import PromptShelf.Proofs.FileTree.Leading
import PromptShelf.Proofs.FileTree.Resolution
import PromptShelf.Proofs.FileTree.Containment
import PromptShelf.Proofs.Number.Rounding
import PromptShelf.Proofs.Number.Shortest
import PromptShelf.Proofs.Number.Notation
import PromptShelf.Proofs.Template.Numbers
import PromptShelf.Proofs.Template.Concatenation
import PromptShelf.Proofs.Text.LineEnds
import PromptShelf.Proofs.FileTree.Contents
import PromptShelf.Proofs.Metrics.Window
import PromptShelf.Proofs.Metrics.Tally
import PromptShelf.Proofs.FileTree.Ensuring
import PromptShelf.Proofs.Log.Visits
import PromptShelf.Proofs.Log.Expansion
