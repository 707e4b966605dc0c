/-
A resolver: requests answered under one root.

The root is put into normal form when the resolver is made.  Besides resolving
requests, a resolver names a resolved path by its *key*, the way from the root to
it, which is the same for all spellings of one path, and names its root in
messages without telling where it is (`hint`).
-/
import PromptShelf.Path.Confined

namespace PromptShelf

/-- Directory of the templates that come with the library. -/
def bundledRoot : String := "/usr/share/promptshelf/prompts/templates/v1/templates_en"

/-- Requests are answered under `root`; relative texts are read from `directory`. -/
structure Resolver where
  directory : String
  root : String
  extensions : Option (List String)

namespace Resolver

/-- A resolver for a root in any spelling. -/
def make (directory root : String) (extensions : Option (List String)) : Resolver :=
  ⟨directory, String.ofList (Path.absolute directory.toList root.toList), extensions⟩

def resolve (r : Resolver) (requested : String) : Except Error String :=
  Path.resolve r.directory r.root requested r.extensions

/-- The key of a path: how it is reached from the root. -/
def key (r : Resolver) (path : String) : String :=
  let seen := fun (s : String) => Path.absolute r.directory.toList s.toList
  String.ofList (Path.relative (seen r.root) (seen path))

/-- The key of a path that must not be empty. -/
def key? (r : Resolver) (path : String) : Except Error String :=
  if path = "" then .error .emptyPath else .ok (r.key path)

def requestKey (r : Resolver) (requested : String) : Except Error String := do
  r.key? (← r.resolve requested)

/-- The root in messages: its last segment, or the name of the bundled templates. -/
def hint (r : Resolver) : String :=
  if r.root = bundledRoot then bundledHint
  else String.ofList (Path.lastSegment r.root.toList ++ ['/'])

def describe (r : Resolver) : String :=
  let extensions := match r.extensions with
    | none => Value.none
    | some es => Value.tuple (es.map Value.text)
  "PathResolver(root=" ++ Text.quoted r.root ++ ", extensions=" ++ extensions.quoted ++ ")"

end Resolver

end PromptShelf
