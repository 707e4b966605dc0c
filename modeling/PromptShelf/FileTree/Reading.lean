/-
Reading files as text.

A read ends in a `ReadResult`: a status, the text if there is one, and the fault
if there is one.  `ReadResult.ofFault` is the classification of faults: a missing
file and a forbidden one have a status of their own, every other fault is a failed
read.  Before anything is read an encoding or a path with a null character is refused,
and after the file is found an encoding that no one knows (`ReadRefusal`).

Paths are texts of Unicode scalar values, so a lone surrogate, for which the file system has
no bytes, is not among their characters.
-/
import PromptShelf.FileTree.Directories
import PromptShelf.Text.Encoding

namespace PromptShelf

/-- How a read ended. -/
inductive ReadStatus
  | ok
  | notFound
  | permissionDenied
  | failed
  deriving DecidableEq

def ReadStatus.word : ReadStatus → String
  | .ok => "ok"
  | .notFound => "not_found"
  | .permissionDenied => "permission_denied"
  | .failed => "failed"

/-- Why a read ended without a text: the file system's answer, bytes that are no
text, or a fault known only by its name. -/
inductive ReadFault
  | file (fault : FileFault)
  | undecodable
  | named (name : String)
  deriving DecidableEq

/-- The end of a read. -/
structure ReadResult where
  status : ReadStatus
  content : Option String
  fault : Option ReadFault
  deriving DecidableEq

namespace ReadResult

def ofText (content : String) : ReadResult := ⟨.ok, some content, none⟩

/-- Status of a read that ended with a fault. -/
def statusOf : ReadFault → ReadStatus
  | .file .missing => .notFound
  | .file .forbidden => .permissionDenied
  | _ => .failed

def ofFault (fault : ReadFault) : ReadResult := ⟨statusOf fault, none, some fault⟩

/-- A read of bytes in an encoding, with line feeds for line ends. -/
def ofBytes (e : Text.Encoding) (bytes : List UInt8) : ReadResult :=
  match e.decode bytes with
  | some cs => .ofText (String.ofList (Text.unifyLineEnds cs))
  | none => .ofFault .undecodable

def isOk (r : ReadResult) : Bool := r.status == .ok

end ReadResult

/-- Why a read is not tried. -/
inductive ReadRefusal
  | nullByte
  | nullInEncoding
  | unknownEncoding (name : String)
  deriving DecidableEq

def ReadRefusal.message : ReadRefusal → String
  | .nullByte => "embedded null byte"
  | .nullInEncoding => "embedded null character"
  | .unknownEncoding name => "unknown encoding: " ++ name

namespace FileTree

/-- Bytes of the file that a path names. -/
def readBytes (t : FileTree) (directory : Location) (p : FilePath) :
    Except FileFault (List UInt8) :=
  match t.locate .followed directory p with
  | .error fault => .error fault
  | .ok l =>
    match t.node? l with
    | some (.file bytes) => .ok bytes
    | some .directory => .error .isDirectory
    | _ => .error .missing

/-- Text of the file that a path names, with line feeds for line ends. -/
def readText (t : FileTree) (directory : Location) (path encoding : String) :
    Except ReadRefusal ReadResult :=
  let p := FilePath.ofString path
  if encoding.toList.contains '\x00' then .error .nullInEncoding
  else if p.hasNull then .error .nullByte
  else
    match t.readBytes directory p with
    | .error fault => .ok (.ofFault (.file fault))
    | .ok bytes =>
      match Text.Encoding.named? encoding with
      | none => .error (.unknownEncoding encoding)
      | some e => .ok (.ofBytes e bytes)

def defaultEncoding : String := "utf-8"

end FileTree

end PromptShelf
