/-
Files that are written can be read again.

What stands in a tree stands in a directory (`Closed`), so names lead to their location as long as
something stands there and none of them is a link.  Writing a file makes the directories above it
and puts the bytes at its location; everywhere else the tree is as before.

* **`node?_writeFile`** — what stands where after a file was written;
* **`readBytes_of_node?`** — what stands at a location is read from it;
* **`readBytes_written`** — files none of which is below another are all read as they were written.
-/
import Mathlib.Data.List.Induction
import PromptShelf.FileTree.Reading
import PromptShelf.Proofs.Path.Normal

namespace PromptShelf.FileTree

/-- A name under which something can stand. -/
structure IsEntryName (s : Segment) : Prop extends Path.IsName s where
  short : isTooLong s = false

instance (s : Segment) : Decidable (IsEntryName s) :=
  decidable_of_iff
    ((s ≠ [] ∧ s ≠ Path.dot ∧ s ≠ Path.dotDot ∧ '/' ∉ s) ∧ isTooLong s = false)
    ⟨fun ⟨⟨h₁, h₂, h₃, h₄⟩, h₅⟩ => ⟨⟨h₁, h₂, h₃, h₄⟩, h₅⟩,
      fun ⟨⟨h₁, h₂, h₃, h₄⟩, h₅⟩ => ⟨⟨h₁, h₂, h₃, h₄⟩, h₅⟩⟩

/-- A location that a path can name. -/
structure IsNamable (l : Location) : Prop where
  isEntryName : ∀ s ∈ l, IsEntryName s
  size_le : (FilePath.mk true l).size ≤ maxPath

instance (l : Location) : Decidable (IsNamable l) :=
  decidable_of_iff ((∀ s ∈ l, IsEntryName s) ∧ (FilePath.mk true l).size ≤ maxPath)
    ⟨fun ⟨h₁, h₂⟩ => ⟨h₁, h₂⟩, fun ⟨h₁, h₂⟩ => ⟨h₁, h₂⟩⟩

theorem size_le_size_append {fromRoot : Bool} (l l' : Location) :
    (FilePath.mk fromRoot l).size ≤ (FilePath.mk fromRoot (l ++ l')).size := by
  refine Nat.sub_le_sub_right ?_ _
  induction l with
  | nil => exact Nat.zero_le _
  | cons s l ih => exact Nat.add_le_add_left ih _

theorem IsNamable.of_append {l l' : Location} (h : IsNamable (l ++ l')) : IsNamable l :=
  ⟨fun s hs => h.isEntryName s (List.mem_append_left _ hs),
    Nat.le_trans (size_le_size_append l l') h.size_le⟩

variable {t : FileTree} {l : Location}

/-! ### What stands where -/

@[simp] theorem node?_nil (t : FileTree) : t.node? [] = some .directory := if_pos rfl

theorem isDirectory_iff : t.isDirectory l = true ↔ t.node? l = some .directory := beq_iff_eq

theorem node?_of_ne_nil (t : FileTree) (hl : l ≠ []) :
    t.node? l = (t.entries.find? fun e => e.location = l).map (·.node) := by
  have hat : FileEntry.isAt l.length l = fun e => decide (e.location = l) :=
    funext fun e => Bool.eq_iff_iff.mpr ((e.isAt_iff l).trans decide_eq_true_iff.symm)
  rw [node?, if_neg hl, hat]

theorem node?_setNode (t : FileTree) (hl : l ≠ []) (n : Node) (l' : Location) :
    (t.setNode l n).node? l' = if l' = l then some n else t.node? l' := by
  by_cases hnil : l' = []
  · rw [hnil, if_neg hl.symm, node?_nil, node?_nil]
  rw [node?_of_ne_nil _ hnil, node?_of_ne_nil t hnil, setNode]
  split
  · next hsome =>
    have hsame : ((fun e : FileEntry => decide (e.location = l')) ∘
        fun e : FileEntry => if e.location = l then { e with node := n } else e) =
        fun e => decide (e.location = l') := by
      funext e
      by_cases he : e.location = l <;> simp [he]
    rw [List.find?_map, Option.map_map, hsame]
    split
    · next heq =>
      subst heq
      rw [node?_of_ne_nil t hl, Option.isSome_map] at hsome
      obtain ⟨e, he⟩ := Option.isSome_iff_exists.mp hsome
      have hat : e.location = l' := by simpa using List.find?_some he
      simp [he, hat]
    · next hne =>
      refine Option.map_congr fun e he => ?_
      have hat : e.location = l' := by simpa using List.find?_some he
      simp [hat, hne]
  · next hnone =>
    rw [List.find?_append]
    split
    · next heq =>
      subst heq
      rw [node?_of_ne_nil t hl, Option.isSome_map, Option.not_isSome_iff_eq_none] at hnone
      simp [hnone]
    · next hne => simp [Ne.symm hne]

theorem addDirectory_eq_setNode (h : t.node? l = none) :
    t.addDirectory l = t.setNode l .directory := by
  simp [setNode, h, addDirectory]

/-- Whatever stands in the tree stands in a directory. -/
def Closed (t : FileTree) : Prop :=
  ∀ ⦃l s n⦄, t.node? (l ++ [s]) = some n → t.node? l = some .directory

theorem closed_nil : Closed ⟨[]⟩ := by
  intro l s n h
  simp [node?] at h

theorem Closed.above (h : t.Closed) {l' : Location} (hl' : l' ≠ []) {n : Node}
    (hnode : t.node? (l ++ l') = some n) : t.node? l = some .directory := by
  induction l' using List.reverseRecOn generalizing n with
  | nil => exact absurd rfl hl'
  | append_singleton l' s ih =>
    rw [← List.append_assoc] at hnode
    have hdirectory := h hnode
    by_cases hnil : l' = []
    · rwa [hnil, List.append_nil] at hdirectory
    · exact ih hnil hdirectory

theorem Closed.none_below (h : t.Closed) (hnone : t.node? l = none) (s : Segment) :
    t.node? (l ++ [s]) = none := by
  by_contra hsome
  obtain ⟨n, hn⟩ := Option.ne_none_iff_exists'.mp hsome
  exact absurd (hnone.symm.trans (h hn)) (by simp)

/-! ### Walking down -/

theorem child_eq {s : Segment} (hs : IsEntryName s) (hl : t.node? l = some .directory) :
    t.child l s = (t.node? (l ++ [s])).elim (.error .missing) .ok := by
  simp only [child, hl, hs.short]
  cases t.node? (l ++ [s]) <;> rfl

variable {last : Lookup} {links : Nat} {s : Segment} {rest : List Segment}

theorem walk_cons (hs : IsEntryName s) (hl : t.node? l = some .directory) (hrest : rest ≠ [[]])
    {n : Node} (hnode : t.node? (l ++ [s]) = some n) (hlink : ∀ target, n ≠ .link target) :
    t.walk last links l (s :: rest) = t.walk last links (l ++ [s]) rest := by
  rw [walk, if_neg (by simp [hs.ne_nil, hs.ne_dot]), if_neg hs.ne_dotDot, if_neg (by simp [hrest]),
    child_eq hs hl, hnode]
  cases n with
  | link target => exact absurd rfl (hlink target)
  | _ => rfl

theorem walk_cons_of_none (hs : IsEntryName s) (hl : t.node? l = some .directory)
    (hrest : rest ≠ [[]]) (hnode : t.node? (l ++ [s]) = none) :
    t.walk last links l (s :: rest) =
      if last = .creatable ∧ rest = [] then .ok (l ++ [s]) else .error .missing := by
  rw [walk, if_neg (by simp [hs.ne_nil, hs.ne_dot]), if_neg hs.ne_dotDot, if_neg (by simp [hrest]),
    child_eq hs hl, hnode]
  rfl

theorem ne_singleton_nil {names : List Segment} (h : ∀ s ∈ names, IsEntryName s) :
    names ≠ [[]] := by
  rintro rfl
  exact (h [] (List.mem_singleton_self _)).ne_nil rfl

/-- Names of directories are passed. -/
theorem walk_append (h : t.Closed) {names : List Segment} (hnames : ∀ s ∈ names, IsEntryName s)
    (hrest : ∀ s ∈ rest, IsEntryName s) (hdirectory : t.node? (l ++ names) = some .directory) :
    t.walk last links l (names ++ rest) = t.walk last links (l ++ names) rest := by
  induction names generalizing l with
  | nil => simp
  | cons s names ih =>
    obtain ⟨hs, hnames⟩ := List.forall_mem_cons.mp hnames
    rw [List.append_cons] at hdirectory ⊢
    have habove : t.node? (l ++ [s]) = some .directory := by
      by_cases hnil : names = []
      · rwa [hnil, List.append_nil] at hdirectory
      · exact h.above hnil hdirectory
    have hmore : names ++ rest ≠ [[]] :=
      ne_singleton_nil (List.forall_mem_append.mpr ⟨hnames, hrest⟩)
    rw [List.cons_append, walk_cons hs (h habove) hmore habove (by simp), ih hnames hdirectory]

/-- The names above the last one are passed. -/
theorem walk_singleton (h : t.Closed) (hnames : ∀ s' ∈ l ++ [s], IsEntryName s')
    (habove : t.node? l = some .directory) :
    t.walk last links [] (l ++ [s]) = t.walk last links l [s] := by
  obtain ⟨hl, hs⟩ := List.forall_mem_append.mp hnames
  exact walk_append h hl hs habove

/-- Names lead to their location if something stands there, but for a link. -/
theorem walk_eq (h : t.Closed) (hnames : ∀ s ∈ l, IsEntryName s) {n : Node}
    (hnode : t.node? l = some n) (hlink : ∀ target, n ≠ .link target) :
    t.walk last links [] l = .ok l := by
  rcases List.eq_nil_or_concat' l with rfl | ⟨above, s, rfl⟩
  · rw [walk]
  · rw [walk_singleton h hnames (h hnode),
      walk_cons (hnames s (by simp)) (h hnode) (by simp) hnode hlink, walk]

/-- Nothing but directories stands on the way to the location and at it. -/
def Clear (t : FileTree) (l : Location) : Prop :=
  ∀ l', l' <+: l → t.node? l' = none ∨ t.node? l' = some .directory

theorem walk_missing {names : List Segment} (hnames : ∀ s ∈ names, IsEntryName s)
    (hclear : t.Clear (l ++ names)) (hl : t.node? l = some .directory)
    (hnone : t.node? (l ++ names) = none) :
    t.walk .followed links l names = .error .missing := by
  induction names generalizing l with
  | nil =>
    rw [List.append_nil, hl] at hnone
    cases hnone
  | cons s names ih =>
    obtain ⟨hs, hnames⟩ := List.forall_mem_cons.mp hnames
    have hrest : names ≠ [[]] := ne_singleton_nil hnames
    rw [List.append_cons] at hclear hnone
    rcases hclear (l ++ [s]) (List.prefix_append _ _) with hno | hdirectory
    · rw [walk_cons_of_none hs hl hrest hno, if_neg (by simp)]
    · rw [walk_cons hs hl hrest hdirectory (by simp)]
      exact ih hnames hclear hdirectory hnone

theorem locate_eq (h : t.Closed) (hl : IsNamable l) {n : Node} (hnode : t.node? l = some n)
    (hlink : ∀ target, n ≠ .link target) (directory : Location) :
    t.locate last directory ⟨true, l⟩ = .ok l := by
  rw [locate, if_neg (Nat.not_lt.mpr hl.size_le)]
  exact walk_eq h hl.isEntryName hnode hlink

theorem readBytes_of_node? (h : t.Closed) (hl : IsNamable l) {bytes : List UInt8}
    (hnode : t.node? l = some (.file bytes)) (directory : Location) :
    t.readBytes directory ⟨true, l⟩ = .ok bytes := by
  simp only [readBytes, locate_eq h hl hnode (by simp), hnode]

/-! ### Making directories -/

theorem makeDirectory_of_missing (hl : IsNamable (l ++ [s])) (hclear : t.Clear l)
    (hnone : t.node? l = none) (directory : Location) :
    t.makeDirectory directory ⟨true, l ++ [s]⟩ = .error .missing := by
  have hwalk : t.walk .followed maxLinks [] l = .error .missing :=
    walk_missing hl.of_append.isEntryName hclear (node?_nil t) hnone
  rw [makeDirectory, freeLocation, if_neg (Nat.not_lt.mpr hl.size_le)]
  simp [FilePath.start, hwalk]

theorem makeDirectory_of_directory (h : t.Closed) (hl : IsNamable (l ++ [s]))
    (habove : t.node? l = some .directory) (directory : Location) :
    t.makeDirectory directory ⟨true, l ++ [s]⟩ =
      (t.node? (l ++ [s])).elim (.ok (t.setNode (l ++ [s]) .directory))
        fun _ => .error .alreadyThere := by
  have hs : IsEntryName s := hl.isEntryName s (by simp)
  have hwalk : t.walk .followed maxLinks [] l = .ok l :=
    walk_eq h hl.of_append.isEntryName habove (by simp)
  rw [makeDirectory, freeLocation, if_neg (Nat.not_lt.mpr hl.size_le)]
  cases hnode : t.node? (l ++ [s]) with
  | none =>
    simp [FilePath.start, hwalk, isDirectory_iff.mpr habove, hs.ne_dotDot, child_eq hs habove,
      hnode, addDirectory_eq_setNode hnode]
  | some n =>
    simp [FilePath.start, hwalk, isDirectory_iff.mpr habove, hs.ne_dotDot, child_eq hs habove,
      hnode]

/-- A directory that is there is no fault. -/
theorem unlessDirectory_eq_none (h : t.Closed) (hl : IsNamable l)
    (hdirectory : t.node? l = some .directory) (directory : Location) (fault : FileFault) :
    t.unlessDirectory directory ⟨true, l⟩ fault = none := by
  simp [unlessDirectory, locate_eq h hl hdirectory, isDirectory_iff.mpr hdirectory]

/-- The second tree has directories on the way to the location and at it; everything else is as in
the first. -/
def Ensured (t t' : FileTree) (l : Location) : Prop :=
  ∀ l', t'.node? l' = if l' <+: l then some .directory else t.node? l'

variable {t' : FileTree}

theorem Ensured.refl (h : t.Closed) (hl : t.node? l = some .directory) : Ensured t t l := by
  intro l'
  split
  · next hprefix =>
    obtain ⟨more, rfl⟩ := hprefix
    by_cases hnil : more = []
    · rwa [hnil, List.append_nil] at hl
    · exact h.above hnil hl
  · rfl

theorem Ensured.succ (h : Ensured t t' l) (s : Segment) :
    Ensured t (t'.setNode (l ++ [s]) .directory) (l ++ [s]) := by
  intro l'
  simp only [node?_setNode t' (List.append_ne_nil_of_right_ne_nil l (List.cons_ne_nil s [])), h l',
    List.prefix_concat_iff, ite_or]

theorem Ensured.closed (h : Ensured t t' l) (hclosed : t.Closed) : t'.Closed := by
  intro l' s n hnode
  rw [h] at hnode ⊢
  split at hnode
  · next hprefix => rw [if_pos ((List.prefix_append l' [s]).trans hprefix)]
  · rw [hclosed hnode, ite_self]

theorem Ensured.node?_self (h : Ensured t t' l) : t'.node? l = some .directory := by
  rw [h, if_pos List.prefix_rfl]

theorem Ensured.node?_below (h : Ensured t t' l) (s : Segment) :
    t'.node? (l ++ [s]) = t.node? (l ++ [s]) := by
  rw [h, if_neg fun hprefix => absurd hprefix.length_le (by simp)]

theorem ensureFrom_eq (h : t.Closed) {up : List Segment} (hup : IsNamable up.reverse)
    (hclear : t.Clear up.reverse) (directory : Location) :
    ∃ t', t.ensureFrom true directory up = (t', none) ∧ Ensured t t' up.reverse := by
  induction up with
  | nil =>
    refine ⟨t, ?_, .refl h (node?_nil t)⟩
    rw [List.reverse_nil] at hup
    rw [ensureFrom, unlessDirectory_eq_none h hup (node?_nil t)]
  | cons name up ih =>
    rw [List.reverse_cons] at hup hclear ⊢
    have hclear' : t.Clear up.reverse := fun l' hl' => hclear l' (hl'.trans (List.prefix_append _ _))
    rw [ensureFrom, List.reverse_cons]
    rcases hclear up.reverse (List.prefix_append _ _) with hnone | habove
    · obtain ⟨t', heq, hensured⟩ := ih hup.of_append hclear'
      have hnode : t'.node? (up.reverse ++ [name]) = none := by
        rw [hensured.node?_below, h.none_below hnone]
      rw [makeDirectory_of_missing hup hclear' hnone]
      simp only [heq, makeDirectory_of_directory (hensured.closed h) hup hensured.node?_self,
        hnode]
      exact ⟨_, rfl, hensured.succ name⟩
    · rw [makeDirectory_of_directory h hup habove]
      rcases hclear _ List.prefix_rfl with hnone | hdirectory
      · rw [hnone]
        exact ⟨_, rfl, (Ensured.refl h habove).succ name⟩
      · rw [hdirectory]
        refine ⟨t, ?_, .refl h hdirectory⟩
        simp only [Option.elim_some, unlessDirectory_eq_none h hup hdirectory]

/-- A directory and those above it are made, and nothing else is changed. -/
theorem ensureDirectory_eq (h : t.Closed) (hl : IsNamable l) (hclear : t.Clear l)
    (directory : Location) :
    ∃ t', t.ensureDirectory directory ⟨true, l⟩ = (t', none) ∧ Ensured t t' l := by
  rw [← List.reverse_reverse l] at hl hclear
  obtain ⟨t', heq, hensured⟩ := ensureFrom_eq h hl hclear directory
  rw [List.reverse_reverse] at hensured
  exact ⟨t', heq, hensured⟩

/-! ### Writing files -/

/-- A file is written where nothing stands: the directories above it are made, and nothing else is
changed. -/
theorem node?_writeFile (h : t.Closed) (hl : IsNamable l) (hclear : t.Clear l)
    (hnone : t.node? l = none) (directory : Location) (bytes : List UInt8) :
    (t.writeFile directory ⟨true, l⟩ bytes).2 = none ∧
      ∀ l', (t.writeFile directory ⟨true, l⟩ bytes).1.node? l' =
        if l' = l then some (.file bytes) else if l' <+: l then some .directory
        else t.node? l' := by
  rcases List.eq_nil_or_concat' l with rfl | ⟨above, s, rfl⟩
  · cases hnone
  have hclear' : t.Clear above := fun l' hl' => hclear l' (hl'.trans (List.prefix_append _ _))
  obtain ⟨t', hmade, hensured⟩ := ensureDirectory_eq h hl.of_append hclear' directory
  have hclosed : t'.Closed := hensured.closed h
  have hfree : t'.node? (above ++ [s]) = none := (hensured.node?_below s).trans hnone
  have hlocate : t'.locate .creatable directory ⟨true, above ++ [s]⟩ = .ok (above ++ [s]) := by
    rw [locate, if_neg (Nat.not_lt.mpr hl.size_le)]
    show t'.walk .creatable maxLinks [] (above ++ [s]) = _
    rw [walk_singleton hclosed hl.isEntryName hensured.node?_self,
      walk_cons_of_none (hl.isEntryName s (by simp)) hensured.node?_self (by simp) hfree,
      if_pos ⟨rfl, rfl⟩]
  have hput : t'.putFile directory ⟨true, above ++ [s]⟩ bytes =
      .ok (t'.setNode (above ++ [s]) (.file bytes)) := by
    simp [putFile, hlocate, isDirectory, hfree]
  have hwrite : t.writeFile directory ⟨true, above ++ [s]⟩ bytes =
      (t'.setNode (above ++ [s]) (.file bytes), none) := by
    simp [writeFile, changeAt, hmade, hput]
  rw [hwrite]
  refine ⟨rfl, fun l' => ?_⟩
  simp only [node?_setNode t' (List.append_ne_nil_of_right_ne_nil above (List.cons_ne_nil s [])),
    hensured l', List.prefix_concat_iff]
  by_cases heq : l' = above ++ [s] <;> simp [heq]

theorem closed_writeFile (h : t.Closed) (hl : IsNamable l) (hclear : t.Clear l)
    (hnone : t.node? l = none) (directory : Location) (bytes : List UInt8) :
    (t.writeFile directory ⟨true, l⟩ bytes).1.Closed := by
  intro l' s n hnode
  obtain ⟨-, hnodes⟩ := node?_writeFile h hl hclear hnone directory bytes
  rw [hnodes] at hnode ⊢
  by_cases hprefix : l' ++ [s] <+: l
  · have hne : l' ≠ l := fun heq => absurd (heq ▸ hprefix).length_le (by simp)
    rw [if_neg hne, if_pos ((List.prefix_append l' [s]).trans hprefix)]
  · have hother : l' ++ [s] ≠ l := fun heq => hprefix (heq ▸ List.prefix_rfl)
    rw [if_neg hother, if_neg hprefix] at hnode
    have hdirectory : t.node? l' = some .directory := h hnode
    have hne : l' ≠ l := fun heq => absurd (hnone.symm.trans (heq ▸ hdirectory)) (by simp)
    rw [if_neg hne, hdirectory, ite_self]

/-- None of the two locations is at or below the other. -/
def Apart (l l' : Location) : Prop := ¬ l <+: l' ∧ ¬ l' <+: l

instance (l l' : Location) : Decidable (Apart l l') := inferInstanceAs (Decidable (_ ∧ _))

/-- A tree with files written one after the other. -/
def written (t : FileTree) (files : List (Location × List UInt8)) : FileTree :=
  files.foldl (fun t file => (t.writeFile [] ⟨true, file.1⟩ file.2).1) t

/-- What was not written is as before. -/
theorem node?_written {files : List (Location × List UInt8)} (h : t.Closed)
    (hnamable : ∀ file ∈ files, IsNamable file.1)
    (hapart : files.Pairwise fun file file' => Apart file.1 file'.1)
    (hfree : ∀ file ∈ files, t.Clear file.1 ∧ t.node? file.1 = none) :
    (t.written files).Closed ∧
      (∀ file ∈ files, (t.written files).node? file.1 = some (.file file.2)) ∧
      ∀ l, (∀ file ∈ files, ¬ l <+: file.1) → (t.written files).node? l = t.node? l := by
  induction files generalizing t with
  | nil => exact ⟨h, by simp, fun l _ => rfl⟩
  | cons file files ih =>
    obtain ⟨hname, hnames⟩ := List.forall_mem_cons.mp hnamable
    obtain ⟨hfirst, hothers⟩ := List.pairwise_cons.mp hapart
    obtain ⟨⟨hclear, hnone⟩, hfree⟩ := List.forall_mem_cons.mp hfree
    obtain ⟨-, hnodes⟩ := node?_writeFile h hname hclear hnone [] file.2
    have hfree' : ∀ file' ∈ files, (t.writeFile [] ⟨true, file.1⟩ file.2).1.Clear file'.1 ∧
        (t.writeFile [] ⟨true, file.1⟩ file.2).1.node? file'.1 = none := by
      intro file' hmem
      obtain ⟨hclear', hnone'⟩ := hfree file' hmem
      obtain ⟨hbelow, habove⟩ := hfirst file' hmem
      refine ⟨fun l hl => ?_, ?_⟩
      · have hother : l ≠ file.1 := fun heq => hbelow (heq ▸ hl)
        rw [hnodes, if_neg hother]
        split
        · exact .inr rfl
        · exact hclear' l hl
      · have hother : file'.1 ≠ file.1 := fun heq => habove (heq ▸ List.prefix_rfl)
        rw [hnodes, if_neg hother, if_neg habove, hnone']
    obtain ⟨hclosed, hfiles, hkept⟩ :=
      ih (closed_writeFile h hname hclear hnone [] file.2) hnames hothers hfree'
    refine ⟨hclosed, List.forall_mem_cons.mpr ⟨?_, hfiles⟩, fun l hl => ?_⟩
    · exact (hkept file.1 fun file' hmem => (hfirst file' hmem).1).trans
        ((hnodes file.1).trans (if_pos rfl))
    · obtain ⟨hl, hlrest⟩ := List.forall_mem_cons.mp hl
      have hother : l ≠ file.1 := fun heq => hl (heq ▸ List.prefix_rfl)
      rw [written, List.foldl_cons]
      refine (hkept l hlrest).trans ?_
      rw [hnodes, if_neg hother, if_neg hl]

/-- Files are read as they were written, if none of them is below another. -/
theorem readBytes_written {files : List (Location × List UInt8)}
    (hnamable : ∀ file ∈ files, IsNamable file.1) (hne : ∀ file ∈ files, file.1 ≠ [])
    (hapart : files.Pairwise fun file file' => Apart file.1 file'.1) (directory : Location) :
    ∀ file ∈ files, (written ⟨[]⟩ files).readBytes directory ⟨true, file.1⟩ = .ok file.2 := by
  have hempty : ∀ l : Location, l ≠ [] → node? ⟨[]⟩ l = none := fun l hl => by simp [node?, hl]
  have hfree : ∀ file ∈ files, Clear ⟨[]⟩ file.1 ∧ node? ⟨[]⟩ file.1 = none := by
    refine fun file hmem => ⟨fun l _ => ?_, hempty _ (hne file hmem)⟩
    by_cases hl : l = []
    · exact .inr (if_pos hl)
    · exact .inl (hempty l hl)
  obtain ⟨hclosed, hfiles, -⟩ := node?_written closed_nil hnamable hapart hfree
  exact fun file hmem =>
    readBytes_of_node? hclosed (hnamable file hmem) (hfiles file hmem) directory

end PromptShelf.FileTree
