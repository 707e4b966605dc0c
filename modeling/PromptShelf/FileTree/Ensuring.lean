/-
Making sure that a directory is there.
-/
import PromptShelf.Error
import PromptShelf.FileTree.Directories

namespace PromptShelf.FileTree

/-- Makes the directory that a text names, and its parents, if they are not there.  The
tree is given back in every case, for some parents may have been made. -/
def ensurePath (t : FileTree) (directory : Location) (path : String) :
    FileTree × Except Error Unit :=
  let p := FilePath.ofString path
  if p.hasNull then (t, .error (.refusedRead .nullByte))
  else
    match t.ensureDirectory directory p with
    | (t, none) => (t, .ok ())
    | (t, some fault) => (t, .error (.refusedFile fault))

end PromptShelf.FileTree
