/-
The workspace when no setting names it.

A directory belongs to the system if it is one of the system's directories or below one, name by
name and in letters of either case (`IsSystem`).  The program compares the texts instead, so it
takes a directory for protected as soon as its first name begins like one of the system's
(`BeginsLikeSystem`).  Small letters are made name by name, because they do not reach across a
slash, and an absolute text in normal form begins with its first name: what is compared is that
name alone.

* **`lowerFrom_joined`** — the small letters of a path are those of its names;
* **`isProtected_iff`** — which directories the program takes for protected;
* **`root_iff_isSystem`** — when the workspace is what the system's directories make of it, and
  where the data directory is then.
-/
import PromptShelf.Proofs.Path.Extensions
import PromptShelf.Workspace

namespace PromptShelf

namespace Text

theorem lowerFrom_joined (names : List Segment) :
    lowerFrom false (Path.joined names) = Path.joined (names.map (lowerFrom false)) := by
  induction names with
  | nil => rfl
  | cons name rest ih =>
    cases rest with
    | nil => rfl
    | cons next rest =>
      rw [Path.joined_cons_cons, lowerFrom_append_separator (by decide), ih]
      rfl

end Text

/-- The path with its names in small letters. -/
def Path.lowered (p : Path) : Path := ⟨p.anchor, p.names.map (Text.lowerFrom false)⟩

/-- The second path is the first one or below it. -/
def Path.Contains (p q : Path) : Prop := p.anchor = q.anchor ∧ p.names <+: q.names

instance (p q : Path) : Decidable (p.Contains q) :=
  inferInstanceAs (Decidable (p.anchor = q.anchor ∧ p.names <+: q.names))

namespace Workspace

/-- Directories of the system where paths begin with a slash. -/
def systemDirectories : List String := ["/etc", "/usr", "/bin", "/sbin", "/sys", "/proc"]

/-- The directory is one of the system's or below one. -/
def IsSystem (directory : Path) : Prop :=
  ∃ d ∈ systemDirectories, (Path.read d.toList).Contains directory.lowered

instance (directory : Path) : Decidable (IsSystem directory) :=
  inferInstanceAs (Decidable (∃ d ∈ systemDirectories,
    (Path.read d.toList).Contains directory.lowered))

/-- The first name of the directory begins like that of one of the system's. -/
def BeginsLikeSystem (directory : Path) : Prop :=
  ∃ d ∈ systemDirectories, ∃ name rest,
    directory.lowered = ⟨.root, name :: rest⟩ ∧ d.toList <+: '/' :: name

/-! ### Which directories the program takes for protected -/

/-- A protected directory is one of the system's, or it is no absolute path. -/
theorem mem_protectedDirectories_cases : ∀ d ∈ protectedDirectories,
    (∃ e ∈ systemDirectories, (Text.lower d).toList = e.toList) ∨
      (Text.lower d).toList.head? = some 'c' := by
  decide +kernel

theorem exists_protected_of_system : ∀ e ∈ systemDirectories,
    ∃ d ∈ protectedDirectories, (Text.lower d).toList = e.toList := by
  decide +kernel

theorem system_shape : ∀ e ∈ systemDirectories, ∃ c rest, e.toList = '/' :: c :: rest ∧
    '/' ∉ c :: rest ∧ Path.read e.toList = ⟨.root, [c :: rest]⟩ := by
  intro e he
  simp only [systemDirectories, List.mem_cons, List.not_mem_nil, or_false] at he
  rcases he with rfl | rfl | rfl | rfl | rfl | rfl <;> exact ⟨_, _, rfl, by decide, by decide⟩

/-- What has no slash stands at the front of joined names if it stands at the front of the
first one. -/
theorem prefix_joined_iff {name : Segment} (hname : '/' ∉ name) (hne : name ≠ [])
    (names : List Segment) :
    name <+: Path.joined names ↔ ∃ first rest, names = first :: rest ∧ name <+: first := by
  match names with
  | [] => simp [hne]
  | [first] => simp
  | first :: next :: rest =>
    rw [Path.joined_cons_cons]
    constructor
    · intro h
      refine ⟨first, _, rfl, ?_⟩
      rcases List.prefix_or_prefix_of_prefix h (List.prefix_append first _) with hle | ⟨more, rfl⟩
      · exact hle
      · -- The name would go on with the slash behind the first one.
        rw [List.prefix_append_right_inj] at h
        cases more with
        | nil => simp
        | cons c more =>
          obtain ⟨rfl, -⟩ := List.cons_prefix_cons.mp h
          exact absurd (by simp) hname
    · rintro ⟨_, _, heq, h⟩
      obtain ⟨rfl, -⟩ := List.cons.inj heq
      exact h.trans (List.prefix_append _ _)

theorem lowerFrom_text {p : Path} (hp : Path.Rooted p) :
    Text.lowerFrom false p.text = p.anchor.text ++ Path.joined p.lowered.names := by
  rw [hp.text_eq]
  have hslash : ∀ cs, Text.lowerFrom false ('/' :: cs) = '/' :: Text.lowerFrom false cs :=
    fun cs => Text.lowerFrom_append_separator (by decide) false [] cs
  have hanchor := hp.anchor_ne
  cases ha : p.anchor with
  | here => exact absurd ha hanchor
  | root =>
    show Text.lowerFrom false ('/' :: Path.joined p.names) = _
    rw [hslash, Text.lowerFrom_joined]
    rfl
  | twinRoot =>
    show Text.lowerFrom false ('/' :: '/' :: Path.joined p.names) = _
    rw [hslash, hslash, Text.lowerFrom_joined]
    rfl

/-- The text of a system directory is at the front of an absolute one if its name is at the
front of the first name there. -/
theorem prefix_lowerFrom_text_iff {p : Path} (hp : Path.Rooted p) {e : String}
    (he : e ∈ systemDirectories) :
    e.toList <+: Text.lowerFrom false p.text ↔
      ∃ name rest, p.lowered = ⟨.root, name :: rest⟩ ∧ e.toList <+: '/' :: name := by
  obtain ⟨c, rest, htext, hslash, -⟩ := system_shape e he
  rw [lowerFrom_text hp, htext]
  have hanchor := hp.anchor_ne
  cases ha : p.anchor with
  | here => exact absurd ha hanchor
  | root =>
    show '/' :: c :: rest <+: '/' :: Path.joined p.lowered.names ↔ _
    rw [List.cons_prefix_cons, prefix_joined_iff hslash (by simp)]
    simp [Path.lowered, ha, List.cons_prefix_cons]
  | twinRoot =>
    -- Behind two slashes there is none of the system's directories.
    show '/' :: c :: rest <+: '/' :: '/' :: Path.joined p.lowered.names ↔ _
    have hc : c ≠ '/' := fun h => hslash (h ▸ List.mem_cons_self)
    simp [Path.lowered, ha, List.cons_prefix_cons, hc]

theorem isProtected_iff {directory : String} {p : Path} (hp : Path.Rooted p)
    (htext : directory.toList = p.text) : isProtected directory = true ↔ BeginsLikeSystem p := by
  have hlower : (Text.lower directory).toList = Text.lowerFrom false p.text := by
    rw [Text.lower, String.toList_ofList, htext]
  simp only [isProtected, List.any_eq_true, List.isPrefixOf_iff_prefix, hlower]
  constructor
  · rintro ⟨d, hd, hprefix⟩
    rcases mem_protectedDirectories_cases d hd with ⟨e, he, heq⟩ | hdrive
    · rw [heq] at hprefix
      exact ⟨e, he, (prefix_lowerFrom_text_iff hp he).mp hprefix⟩
    · -- A drive letter is no slash.
      obtain ⟨rest, habsolute⟩ := Path.isAbsolute_iff.mp (Path.isAbsolute_text hp)
      rw [habsolute, show Text.lowerFrom false ('/' :: rest) = '/' :: Text.lowerFrom false rest from
        Text.lowerFrom_append_separator (by decide) false [] rest] at hprefix
      obtain ⟨more, hmore⟩ := List.head?_eq_some_iff.mp hdrive
      rw [hmore, List.cons_prefix_cons] at hprefix
      exact absurd hprefix.1 (by decide)
  · rintro ⟨e, he, hname⟩
    obtain ⟨d, hd, heq⟩ := exists_protected_of_system e he
    refine ⟨d, hd, ?_⟩
    rw [heq]
    exact (prefix_lowerFrom_text_iff hp he).mpr hname

/-- What belongs to the system begins like it. -/
theorem IsSystem.beginsLikeSystem {p : Path} (h : IsSystem p) : BeginsLikeSystem p := by
  obtain ⟨e, he, hanchor, hnames⟩ := h
  obtain ⟨c, rest, htext, -, hread⟩ := system_shape e he
  rw [hread] at hanchor hnames
  obtain ⟨more, hmore⟩ := hnames
  refine ⟨e, he, c :: rest, more, ?_, htext ▸ List.prefix_rfl⟩
  rw [Path.lowered, Path.mk.injEq]
  exact ⟨hanchor.symm, hmore.symm⟩

/-! ### The workspace -/

theorem root_eq {s : Settings} (hempty : s.workspaceRoot = "") (p : Surroundings) :
    root s p = if isProtected p.directory = true then p.home?.getD p.directory
      else p.directory := by
  rw [root, if_neg (not_not.mpr hempty), substitute?]
  by_cases h : isProtected p.directory = true
  · rw [if_pos ⟨hempty, h⟩, if_pos h]
  · rw [if_neg fun h' => h h'.2, if_neg h]
    rfl

theorem home_ne_nil {p : Surroundings} {home : String} (h : p.home? = some home) :
    home.toList ≠ [] := by
  rw [Surroundings.home?] at h
  split at h
  · obtain rfl := Option.some.inj h
    decide
  · rename_i hne
    split at h
    · exact absurd h (by simp)
    · obtain rfl := Option.some.inj h
      exact fun hnil => hne (String.toList_eq_nil_iff.mp hnil)

theorem root_ne_nil {s : Settings} (hempty : s.workspaceRoot = "") {p : Surroundings}
    (hdirectory : p.directory.toList ≠ []) : (root s p).toList ≠ [] := by
  rw [root_eq hempty]
  split
  · cases hhome : p.home? with
    | none => exact hdirectory
    | some home => exact home_ne_nil hhome
  · exact hdirectory

/-- A relative name stands behind a slash, of which the path in front may have its own. -/
theorem append_of_relative {base cs : List Char} (hbase : base ≠ [])
    (hcs : ¬ Path.isAbsolute cs = true) : Path.append base cs = Path.below base ++ cs := by
  rw [Path.append, if_neg hcs, Path.below]
  by_cases hlast : base.getLast? = some '/'
  · rw [if_pos (.inr hlast), if_pos hlast]
  · rw [if_neg (not_or.mpr ⟨hbase, hlast⟩), if_neg hlast, List.append_assoc, List.singleton_append]

/-- Without a setting the workspace is the current directory, unless this begins like one of the
system's, and then the home directory if it is known.  This is what the system's directories
make of it exactly if the current directory is not one that only begins like them, or the home
directory is no other.  A relative data directory is right behind the workspace. -/
theorem root_iff_isSystem (s : Settings) (p : Surroundings) (hempty : s.workspaceRoot = "")
    (habsolute : Path.isAbsolute p.directory.toList = true)
    (hnormal : Path.normalize p.directory.toList = p.directory.toList) :
    let directory := Path.read p.directory.toList
    let fallback := p.home?.getD p.directory
    ((¬ BeginsLikeSystem directory → root s p = p.directory) ∧
        (BeginsLikeSystem directory → root s p = fallback)) ∧
      ((¬ IsSystem directory → root s p = p.directory) ∧ (IsSystem directory → root s p = fallback) ↔
        (BeginsLikeSystem directory → IsSystem directory ∨ fallback = p.directory)) ∧
      (Path.isAbsolute (dataName s).toList = false →
        (dataDirectory s p).toList = Path.below (root s p).toList ++ (dataName s).toList) := by
  intro directory fallback
  have hiff : isProtected p.directory = true ↔ BeginsLikeSystem directory :=
    isProtected_iff (Path.rooted_read habsolute) hnormal.symm
  have hplain : ¬ BeginsLikeSystem directory → root s p = p.directory := fun h => by
    rw [root_eq hempty, if_neg fun h' => h (hiff.mp h')]
  have hbegins : BeginsLikeSystem directory → root s p = fallback := fun h => by
    rw [root_eq hempty, if_pos (hiff.mpr h)]
  refine ⟨⟨hplain, hbegins⟩, ⟨?_, ?_⟩, fun hrelative => ?_⟩
  · rintro ⟨hother, -⟩ h
    by_cases hsystem : IsSystem directory
    · exact .inl hsystem
    · exact .inr ((hbegins h).symm.trans (hother hsystem))
  · intro h
    refine ⟨fun hsystem => ?_, fun hsystem => hbegins hsystem.beginsLikeSystem⟩
    by_cases hbegin : BeginsLikeSystem directory
    · exact (hbegins hbegin).trans ((h hbegin).resolve_left hsystem)
    · exact hplain hbegin
  · rw [dataDirectory, String.toList_ofList]
    refine append_of_relative (root_ne_nil hempty fun hnil => ?_) (by simp [hrelative])
    rw [hnil] at habsolute
    exact absurd habsolute (by decide)

theorem root_iff_isSystem_capitals :
    let p : Surroundings := ⟨"/USR/lib", "/home/ada/"⟩
    Path.isAbsolute p.directory.toList = true ∧
      Path.normalize p.directory.toList = p.directory.toList ∧ IsSystem (Path.read "/USR/lib".toList) ∧
      root {} p = "/home/ada" ∧ dataDirectory {} p = "/home/ada/.mcp-tasks" := by
  intro p
  have habsolute : Path.isAbsolute p.directory.toList = true := by decide
  have hnormal : Path.normalize p.directory.toList = p.directory.toList := by decide
  have hsystem : IsSystem (Path.read "/USR/lib".toList) := by decide +kernel
  obtain ⟨⟨-, hbegins⟩, -, hdata⟩ := root_iff_isSystem {} p rfl habsolute hnormal
  have hroot : root {} p = "/home/ada" := (hbegins hsystem.beginsLikeSystem).trans (by decide)
  refine ⟨habsolute, hnormal, hsystem, hroot, ?_⟩
  rw [← String.toList_inj, hdata (by decide), hroot]
  decide

/-- A directory whose name only begins like one of the system's is given up for the home
directory. -/
theorem root_ne_of_begins :
    let p : Surroundings := ⟨"/etcetera", "/home/ada"⟩
    Path.isAbsolute p.directory.toList = true ∧
      Path.normalize p.directory.toList = p.directory.toList ∧
      ¬ IsSystem (Path.read p.directory.toList) ∧ root {} p = "/home/ada" ∧
      root {} p ≠ p.directory := by
  intro p
  have hroot : root {} p = "/home/ada" := by decide +kernel
  refine ⟨by decide, by decide, by decide +kernel, hroot, ?_⟩
  rw [hroot]
  decide

end Workspace

end PromptShelf
