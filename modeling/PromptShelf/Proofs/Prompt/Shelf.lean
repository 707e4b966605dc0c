/-
The templates that come with the library are read as they are written.

The tree of files is built by writing one after the other; none of them is below another, so each
has the bytes that were put there.  The texts go through UTF-8 and back, and reading them as text
changes nothing, since no line of them holds a carriage return.

* **`read_bundled`** — the reader finds every text under its name;
* **`stocked_bundled`** — a loader for the root of the templates is stocked with them, if its
  extensions allow their names.
-/
import PromptShelf.Proofs.FileTree.Writing
import PromptShelf.Proofs.Loader.Consecutive
import PromptShelf.Proofs.Path.Extensions
import PromptShelf.Proofs.Text.LineEnds
import PromptShelf.Proofs.Text.Utf8
import PromptShelf.Prompt.Bundled

namespace PromptShelf

/-! ### Paths below a root -/

/-- Names of a path are those of its parts. -/
theorem FilePath.ofString_below {root : String} (hroot : Path.isAbsolute root.toList = true)
    (name : String) : FilePath.ofString (root ++ "/" ++ name) =
      ⟨true, (FilePath.ofString root).names ++ (FilePath.ofString name).names⟩ := by
  obtain ⟨cs, hcs⟩ := Path.isAbsolute_iff.mp hroot
  have hchars : (root ++ "/" ++ name).toList = root.toList ++ '/' :: name.toList := by simp
  have habsolute : Path.isAbsolute (root.toList ++ '/' :: name.toList) = true := by
    rw [hcs]
    rfl
  rw [ofString, hchars, ofChars, habsolute, Path.segments_append, List.filter_append]
  rfl

namespace Bundled

/-! ### The tree of files -/

def rootNames : List Segment :=
  ["usr".toList, "share".toList, "promptshelf".toList, "prompts".toList, "templates".toList,
    "v1".toList, "templates_en".toList]

/-- Where a file stands below the root of the templates. -/
def locationOf (name : String) : Location := rootNames ++ (FilePath.ofString name).names

theorem isAbsolute_bundledRoot : Path.isAbsolute bundledRoot.toList = true := by decide

theorem ofString_bundled (name : String) :
    FilePath.ofString (bundledRoot ++ "/" ++ name) = ⟨true, locationOf name⟩ := by
  have hroot : FilePath.ofString bundledRoot = ⟨true, rootNames⟩ := by decide
  rw [FilePath.ofString_below isAbsolute_bundledRoot, hroot]
  rfl

/-- The files as they are put into the tree. -/
def encoded : List (Location × List UInt8) :=
  files.map fun file => (locationOf file.1, Text.Utf8.encode file.2.toList)

theorem tree_eq_written : tree = FileTree.written ⟨[]⟩ encoded := by
  rw [tree, FileTree.written, encoded, List.foldl_map]
  simp only [ofString_bundled]

theorem isNamable_files : ∀ file ∈ files, FileTree.IsNamable (locationOf file.1) := by
  decide +kernel

theorem apart_files :
    files.Pairwise fun file file' => FileTree.Apart (locationOf file.1) (locationOf file'.1) := by
  decide +kernel

theorem hasNull_files : ∀ file ∈ files, (FilePath.mk true (locationOf file.1)).hasNull = false := by
  decide +kernel

theorem readBytes_tree {name text : String} (hmem : (name, text) ∈ files) :
    tree.readBytes [] ⟨true, locationOf name⟩ = .ok (Text.Utf8.encode text.toList) := by
  have hnamable : ∀ file ∈ encoded, FileTree.IsNamable file.1 :=
    List.forall_mem_map.mpr isNamable_files
  have hne : ∀ file ∈ encoded, file.1 ≠ [] := by
    refine List.forall_mem_map.mpr fun file _ => ?_
    exact List.append_ne_nil_of_left_ne_nil (List.cons_ne_nil _ _) _
  have hapart : encoded.Pairwise fun file file' => FileTree.Apart file.1 file'.1 :=
    List.pairwise_map.mpr apart_files
  have hencoded : (locationOf name, Text.Utf8.encode text.toList) ∈ encoded :=
    List.mem_map.mpr ⟨(name, text), hmem, rfl⟩
  rw [tree_eq_written]
  exact FileTree.readBytes_written hnamable hne hapart []
    (locationOf name, Text.Utf8.encode text.toList) hencoded

/-! ### The texts -/

theorem ofLines_cons (line : String) (lines : List String) :
    ofLines (line :: lines) = line ++ "\n" ++ ofLines lines := by
  simp [ofLines, String.join_cons]

/-- Neither a line nor what ends it is a carriage return. -/
theorem not_mem_ofLines {lines : List String} (h : ∀ line ∈ lines, '\r' ∉ line.toList) :
    '\r' ∉ (ofLines lines).toList := by
  induction lines with
  | nil => simp [ofLines]
  | cons line lines ih =>
    obtain ⟨hline, hlines⟩ := List.forall_mem_cons.mp h
    rw [ofLines_cons, String.toList_append, String.toList_append, List.mem_append, List.mem_append]
    rintro ((hmem | hmem) | hmem)
    · exact hline hmem
    · exact absurd hmem (by decide)
    · exact ih hlines hmem

theorem not_mem_written {s : String} {cs : List Char} (hs : String.ofList cs = s)
    (h : '\r' ∉ cs) : '\r' ∉ s.toList := by
  rwa [← hs, String.toList_ofList]

theorem not_mem_files : ∀ file ∈ files, '\r' ∉ file.2.toList := by
  simp only [files, List.forall_mem_cons, List.not_mem_nil, false_implies, implies_true, and_true]
  refine ⟨?plan, ?analyze, ?iteration, ?reflect, ?execute, ?list, ?detail, ?verify, ?thought,
    ?research, ?greeting⟩
  all_goals
    refine not_mem_ofLines ?_
    simp only [List.forall_mem_cons, List.not_mem_nil, false_implies, implies_true, and_true,
      String.toList_append, List.mem_append, not_or, -String.reduceAppend]
    repeat' apply And.intro
  all_goals exact not_mem_written rfl (by decide)

/-- Every text is found under its name. -/
theorem read_bundled {name text : String} (hmem : (name, text) ∈ files) :
    read (bundledRoot ++ "/" ++ name) = .result (.ofText text) := by
  have hnull := hasNull_files (name, text) hmem
  have hbytes := readBytes_tree hmem
  have hencoding : Text.Encoding.named? FileTree.defaultEncoding = some .utf8 := by decide
  have hdefault : FileTree.defaultEncoding.toList.contains '\x00' = false := by decide
  have htext : ReadResult.ofBytes .utf8 (Text.Utf8.encode text.toList) = .ofText text := by
    rw [ReadResult.ofBytes, Text.Encoding.decode, Text.Utf8.decode_encode]
    show ReadResult.ofText (String.ofList (Text.unifyLineEnds text.toList)) = _
    rw [Text.unifyLineEnds_of_not_mem (not_mem_files _ hmem), String.ofList_toList]
  have hread : tree.readText [] (bundledRoot ++ "/" ++ name) FileTree.defaultEncoding =
      .ok (.ofText text) := by
    rw [FileTree.readText, ofString_bundled]
    simp only [hdefault, hnull, hbytes, hencoding, htext]
    rfl
  rw [read, Answer.ofTree, hread]

/-! ### A loader for the templates -/

section Stocked

variable {l : Loader} {directory : String} {extensions : Option (List String)}

/-- The names are requests that are kept as they are, and they end in `.md`. -/
theorem accepted_files : ∀ file ∈ files,
    Path.acceptedSegments file.1.toList = .ok (Path.segments file.1.toList) ∧
      (Text.lower ".md").toList.isSuffixOf (Text.lower file.1).toList = true := by
  decide +kernel

theorem normalize_bundledRoot : Path.normalize bundledRoot.toList = bundledRoot.toList := by
  decide +kernel

theorem checkExtension_files (hextensions : ∀ es, extensions = some es → ".md" ∈ es)
    {name text : String} (hmem : (name, text) ∈ files) :
    Path.checkExtension name extensions = .ok () := by
  cases extensions with
  | none => rfl
  | some es =>
    have hallowed : Path.hasExtension name es = true :=
      List.any_eq_true.mpr ⟨".md", hextensions es rfl, (accepted_files _ hmem).2⟩
    rw [Path.checkExtension, if_pos hallowed]

theorem resolve_files (hdirectory : Path.isAbsolute directory.toList = true)
    (hextensions : ∀ es, extensions = some es → ".md" ∈ es) {name text : String}
    (hmem : (name, text) ∈ files) :
    (Resolver.make directory bundledRoot extensions).resolve name =
      .ok (bundledRoot ++ "/" ++ name) := by
  have haccepted : Path.acceptedSegments name.toList = .ok (Path.segments name.toList) :=
    (accepted_files _ hmem).1
  have hroot : Path.absolute directory.toList bundledRoot.toList = bundledRoot.toList := by
    rw [Path.absolute, Path.append, if_pos isAbsolute_bundledRoot, normalize_bundledRoot]
  have hbelow : Path.below bundledRoot.toList = bundledRoot.toList ++ ['/'] := by decide +kernel
  have hne : Path.segments name.toList ≠ [] := Path.segmentsBy_ne_nil _ _
  have hplaced : Path.placed bundledRoot.toList (Path.segments name.toList) =
      (bundledRoot ++ "/" ++ name).toList := by
    rw [Path.placed, if_neg hne, hbelow, Path.joined_segments, String.toList_append,
      String.toList_append]
    rfl
  rw [Resolver.resolve, Resolver.make, Path.resolve_eq hdirectory, haccepted]
  simp only [hroot, String.ofList_toList, hplaced, checkExtension_files hextensions hmem]
  rfl

theorem key_files (hdirectory : Path.isAbsolute directory.toList = true)
    (hextensions : ∀ es, extensions = some es → ".md" ∈ es) {name text : String}
    (hmem : (name, text) ∈ files) :
    (Resolver.make directory bundledRoot extensions).key (bundledRoot ++ "/" ++ name) = name := by
  have haccepted : Path.acceptedSegments name.toList = .ok (Path.segments name.toList) :=
    (accepted_files _ hmem).1
  have hne : Path.segments name.toList ≠ [] := Path.segmentsBy_ne_nil _ _
  have hkept : Path.kept name.toList = Path.segments name.toList := by
    rcases Path.acceptedSegments_cases name.toList with ⟨-, hok⟩ | ⟨-, denial, -, herror⟩
    · exact Except.ok.inj (hok.symm.trans haccepted)
    · exact absurd (herror.symm.trans haccepted) (by simp)
  rw [Resolver.key_of_resolve hdirectory (resolve_files hdirectory hextensions hmem), hkept,
    Path.keyOf, if_neg hne, Path.joined_segments, String.ofList_toList]

theorem stocked_bundled (hl : l.resolver = .make directory bundledRoot extensions)
    (hdirectory : Path.isAbsolute directory.toList = true)
    (hextensions : ∀ es, extensions = some es → ".md" ∈ es) : l.Stocked read files := by
  intro name text hmem
  rw [hl]
  exact ⟨bundledRoot ++ "/" ++ name, resolve_files hdirectory hextensions hmem,
    key_files hdirectory hextensions hmem, read_bundled hmem⟩

end Stocked

end Bundled

end PromptShelf
