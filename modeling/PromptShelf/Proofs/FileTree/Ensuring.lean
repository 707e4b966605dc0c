/-
Making sure that directories are there.

Directories are made one at a time, each where nothing stands, so everything that stood before goes
on standing (`Grown`), and where a walk has come to in a tree it comes to after that (`walk_mono`).
The directory that was made last is the one that the path names.  If nothing can be made, it is no
fault as long as the path names a directory all the same; and a path that does leads through
directories only, so that all above it is there.

* **`ensureFrom_grown`** — directories are added and nothing else is changed, with or without a
  fault, and there is none exactly if the path names a directory afterwards;
* **`ensureFrom_of_namesDirectory`** — nothing is added if it did before;
* **`ensurePath_only_adds`** — all of this for the text of a path.
-/
import PromptShelf.FileTree.Ensuring
import PromptShelf.Proofs.FileTree.Leading

namespace PromptShelf.FileTree

/-- What stands in the first tree stands in the second. -/
def Keeps (t t' : FileTree) : Prop := ∀ ⦃l n⦄, t.node? l = some n → t'.node? l = some n

/-- Directories were added at these locations, where nothing stood. -/
structure Grown (t : FileTree) (added : List Location) (t' : FileTree) : Prop where
  entries : t'.entries = t.entries ++ added.map fun l => { location := l, node := .directory }
  free : ∀ l ∈ added, t.node? l = none

/-- A walk along the path ends in a directory. -/
def NamesDirectory (t : FileTree) (directory : Location) (p : FilePath) : Prop :=
  ∃ l, t.locate .followed directory p = .ok l ∧ t.isDirectory l = true

/-- No name of the path asks for what is there already. -/
def Proper (p : FilePath) : Prop := ∀ s ∈ p.names, ¬ (s = [] ∨ s = Path.dot)

variable {t t' t'' : FileTree} {directory l l' m : Location} {p : FilePath} {fault : FileFault}
  {s : Segment} {names rest : List Segment} {links : Nat} {added added' : List Location}

/-! ### Growing -/

theorem Grown.refl (t : FileTree) : Grown t [] t :=
  ⟨(List.append_nil _).symm, fun _ hl => absurd hl List.not_mem_nil⟩

theorem Grown.node?_eq (h : Grown t added t') (l : Location) :
    t'.node? l = if l ∈ added then some .directory else t.node? l := by
  by_cases hnil : l = []
  · subst hnil
    rw [node?_nil, node?_nil, ite_self]
  · rw [node?_of_ne_nil _ hnil, h.entries, List.find?_append, List.find?_map, Function.comp_def]
    split
    · next hmem =>
      have hnone := h.free l hmem
      rw [node?_of_ne_nil t hnil, Option.map_eq_none_iff] at hnone
      rw [hnone, Option.none_or]
      have hfound : ∃ l', added.find? (fun l' => decide (l' = l)) = some l' :=
        Option.isSome_iff_exists.mp (List.find?_isSome.mpr ⟨l, hmem, by simp⟩)
      obtain ⟨l', hl'⟩ := hfound
      simp [hl']
    · next hmem =>
      have hnone : added.find? (fun l' => decide (l' = l)) = none :=
        List.find?_eq_none.mpr fun l' hl' heq => hmem (of_decide_eq_true heq ▸ hl')
      rw [node?_of_ne_nil t hnil]
      simp [hnone]

theorem Grown.keeps (h : Grown t added t') : Keeps t t' := by
  intro l n hnode
  rw [h.node?_eq, if_neg fun hmem => absurd ((h.free l hmem).symm.trans hnode) (by simp), hnode]

theorem Grown.trans (h : Grown t added t') (h' : Grown t' added' t'') :
    Grown t (added ++ added') t'' := by
  refine ⟨by rw [h'.entries, h.entries, List.append_assoc, List.map_append], fun l hl => ?_⟩
  rcases List.mem_append.mp hl with hl | hl
  · exact h.free l hl
  · -- What is free after something was added was free before.
    have hfree := h'.free l hl
    rw [h.node?_eq] at hfree
    split at hfree
    · exact absurd hfree (by simp)
    · exact hfree

theorem grown_addDirectory (h : t.node? l = none) : Grown t [l] (t.addDirectory l) :=
  ⟨rfl, fun _ hl' => List.mem_singleton.mp hl' ▸ h⟩

/-! ### Walks in a grown tree -/

theorem Keeps.isDirectory (h : Keeps t t') (hl : t.isDirectory l = true) :
    t'.isDirectory l = true :=
  isDirectory_iff.mpr (h (isDirectory_iff.mp hl))

theorem Keeps.child (h : Keeps t t') {n : Node} (hchild : t.child l s = .ok n) :
    t'.child l s = .ok n := by
  obtain ⟨hdirectory, hshort, hnode⟩ := child_eq_ok_iff.mp hchild
  exact child_eq_ok_iff.mpr ⟨h hdirectory, hshort, h hnode⟩

/-- A walk comes to the same place when more stands in the tree. -/
theorem walk_mono (h : Keeps t t') (hwalk : t.walk .followed links l names = .ok m) :
    t'.walk .followed links l names = .ok m := by
  generalize hlast : Lookup.followed = last at hwalk
  fun_induction walk t last links l names with
  | case1 => rwa [walk]
  | case2 links l s rest hs hdirectory ih =>
    rw [walk, if_pos hs, if_pos (h.isDirectory hdirectory)]
    exact ih hwalk
  | case4 links l rest hdirectory _ ih =>
    rw [walk, if_neg (by decide), if_pos rfl, if_pos (h.isDirectory hdirectory)]
    exact ih hwalk
  | case12 l s rest hs hparent _ target hchild _ links ih =>
    subst hlast
    rw [walk_follow ⟨hs, hparent⟩ (h.child hchild)]
    exact ih hwalk
  | case13 links l s rest hs hparent _ n hlink hchild ih =>
    subst hlast
    rw [walk_down ⟨hs, hparent⟩ (h.child hchild) hlink]
    exact ih hwalk
  | case7 _ _ _ _ _ _ _ _ hmake => exact absurd (hlast.trans hmake.1) (by simp)
  | case10 _ _ _ _ _ _ _ _ _ hitself => exact absurd (hlast.trans hitself.1) (by simp)
  | case3 | case5 | case6 | case8 | case9 | case11 => exact absurd hwalk (by simp)

/-- With one more name, a walk has come to a directory before it, and the last name is for the
parent or something stands under it. -/
theorem exists_walk_of_concat (hs : ¬ (s = [] ∨ s = Path.dot))
    (h : t.walk .followed links l (names ++ [s]) = .ok m) :
    ∃ l', t.walk .followed links l names = .ok l' ∧ t.isDirectory l' = true ∧
      (s = Path.dotDot ∨ ∃ n, t.child l' s = .ok n) := by
  cases hwalk : t.walk .followed links l names with
  | error fault => exact absurd ((walk_append_of_error [s] hwalk).symm.trans h) (by simp)
  | ok l' =>
    refine ⟨l', rfl, ?_⟩
    obtain ⟨left, heq⟩ := walk_append_of_ok [s] hwalk
    rw [heq] at h
    by_cases hparent : s = Path.dotDot
    · subst hparent
      rw [walk, if_neg hs, if_pos rfl] at h
      split at h
      · next hdirectory => exact ⟨hdirectory, .inl rfl⟩
      · exact absurd h (by simp)
    · cases hchild : t.child l' s with
      | error fault =>
        exact absurd ((walk_of_not_child ⟨hs, hparent⟩ hchild).symm.trans h) (by simp)
      | ok n =>
        obtain ⟨hdirectory, -, -⟩ := child_eq_ok_iff.mp hchild
        exact ⟨isDirectory_iff.mpr hdirectory, .inr ⟨n, rfl⟩⟩

/-! ### Making one directory -/

theorem unlessDirectory_eq_none_iff :
    t.unlessDirectory directory p fault = none ↔ NamesDirectory t directory p := by
  rw [unlessDirectory, NamesDirectory]
  cases t.locate .followed directory p with
  | ok l => simp
  | error fault' => cases fault' <;> simp

theorem child_eq_missing_iff (hl : t.isDirectory l = true) :
    t.child l s = .error .missing ↔ isTooLong s = false ∧ t.node? (l ++ [s]) = none := by
  rw [child, isDirectory_iff.mp hl]
  cases isTooLong s <;> cases t.node? (l ++ [s]) <;> simp

/-- A free location is one in a directory that a walk without the last name comes to. -/
theorem exists_of_freeLocation (h : t.freeLocation directory p = .ok l) :
    p.size ≤ maxPath ∧ ∃ names s above, p.names = names ++ [s] ∧
      t.walk .followed maxLinks (p.start directory) names = .ok above ∧
      t.isDirectory above = true ∧ s ≠ Path.dotDot ∧ t.child above s = .error .missing ∧
      l = above ++ [s] := by
  rw [freeLocation] at h
  split at h
  · exact absurd h (by simp)
  · next hsize =>
    refine ⟨Nat.not_lt.mp hsize, ?_⟩
    rcases List.eq_nil_or_concat' p.names with hnil | ⟨names, s, hnames⟩
    · exact absurd h (by simp [hnil])
    · rw [hnames, List.getLast?_concat, List.dropLast_concat] at h
      cases hwalk : t.walk .followed maxLinks (p.start directory) names with
      | error fault => exact absurd h (by simp [hwalk])
      | ok above =>
        simp only [hwalk] at h
        split at h
        · exact absurd h (by simp)
        · next hdirectory =>
          split at h
          · exact absurd h (by simp)
          · next hparent =>
            split at h
            · exact absurd h (by simp)
            · next hchild =>
              obtain rfl := Except.ok.inj h
              exact ⟨names, s, above, hnames, hwalk, by simpa using hdirectory, hparent, hchild,
                rfl⟩
            · exact absurd h (by simp)

/-- A directory is made where nothing stands, and then the path names it. -/
theorem of_makeDirectory_eq_ok (hproper : Proper p)
    (h : t.makeDirectory directory p = .ok t') :
    (∃ added, Grown t added t') ∧ NamesDirectory t' directory p := by
  rw [makeDirectory] at h
  split at h
  · next l hfree =>
    obtain rfl := Except.ok.inj h
    obtain ⟨hsize, names, s, above, hnames, hwalk, hdirectory, hparent, hmissing, rfl⟩ :=
      exists_of_freeLocation hfree
    obtain ⟨hshort, hnone⟩ := (child_eq_missing_iff hdirectory).mp hmissing
    have hgrown := grown_addDirectory hnone
    have hmade : (t.addDirectory (above ++ [s])).node? (above ++ [s]) = some .directory := by
      rw [hgrown.node?_eq, if_pos (List.mem_singleton_self _)]
    refine ⟨⟨_, hgrown⟩, above ++ [s], ?_, isDirectory_iff.mpr hmade⟩
    -- The walk comes to the new directory as it came to the one above it.
    have hasks : AsksEntry s := ⟨hproper s (by simp [hnames]), hparent⟩
    have hchild : (t.addDirectory (above ++ [s])).child above s = .ok .directory :=
      child_eq_ok_iff.mpr ⟨hgrown.keeps (isDirectory_iff.mp hdirectory), hshort, hmade⟩
    obtain ⟨left, heq⟩ := walk_append_of_ok [s] (walk_mono hgrown.keeps hwalk)
    rw [locate, if_neg (Nat.not_lt.mpr hsize), hnames, heq, walk_down hasks hchild (by simp), walk]
  · exact absurd h (by simp)

/-- Where the path names a directory none is made, and not because something is missing. -/
theorem makeDirectory_of_namesDirectory (hproper : Proper p)
    (h : NamesDirectory t directory p) :
    ∃ fault, t.makeDirectory directory p = .error fault ∧ fault ≠ .missing := by
  obtain ⟨l, hlocate, -⟩ := h
  rw [locate] at hlocate
  split at hlocate
  · exact absurd hlocate (by simp)
  · next hsize =>
    rw [makeDirectory, freeLocation, if_neg hsize]
    rcases List.eq_nil_or_concat' p.names with hnil | ⟨names, s, hnames⟩
    · simp [hnil]
    · rw [hnames] at hlocate
      obtain ⟨above, hwalk, hdirectory, hlast⟩ :=
        exists_walk_of_concat (hproper s (by simp [hnames])) hlocate
      rw [hnames, List.getLast?_concat, List.dropLast_concat]
      rcases hlast with rfl | ⟨n, hchild⟩
      · simp [hwalk, hdirectory]
      · by_cases hparent : s = Path.dotDot <;> simp [hwalk, hdirectory, hparent, hchild]

/-! ### Making the directories above, too -/

theorem NamesDirectory.above {fromRoot : Bool} (hproper : Proper ⟨fromRoot, names ++ [s]⟩)
    (h : NamesDirectory t directory ⟨fromRoot, names ++ [s]⟩) :
    NamesDirectory t directory ⟨fromRoot, names⟩ := by
  obtain ⟨l, hlocate, -⟩ := h
  rw [locate] at hlocate
  split at hlocate
  · exact absurd hlocate (by simp)
  · next hsize =>
    obtain ⟨above, hwalk, hdirectory, -⟩ :=
      exists_walk_of_concat (hproper s (by simp)) hlocate
    have hle : (FilePath.mk fromRoot names).size ≤ (FilePath.mk fromRoot (names ++ [s])).size :=
      size_le_size_append names [s]
    refine ⟨above, ?_, hdirectory⟩
    rw [locate, if_neg (by omega)]
    exact hwalk

/-- Directories are added and nothing else is changed, and there is no fault exactly if the path
names a directory in the end. -/
theorem ensureFrom_grown (t : FileTree) (fromRoot : Bool) (directory : Location)
    {up : List Segment} (hproper : Proper ⟨fromRoot, up.reverse⟩) :
    let r := t.ensureFrom fromRoot directory up
    (∃ added, Grown t added r.1) ∧
      (r.2 = none ↔ NamesDirectory r.1 directory ⟨fromRoot, up.reverse⟩) := by
  induction up generalizing t with
  | nil => exact ⟨⟨[], .refl t⟩, unlessDirectory_eq_none_iff⟩
  | cons name up ih =>
    have hreverse : (name :: up).reverse = up.reverse ++ [name] := List.reverse_cons
    have hup : Proper ⟨fromRoot, up.reverse⟩ := fun s hs =>
      hproper s (hreverse ▸ List.mem_append_left _ hs)
    intro r
    simp only [r, ensureFrom]
    split
    · next made hmade =>
      obtain ⟨hgrown, hnames⟩ := of_makeDirectory_eq_ok hproper hmade
      exact ⟨hgrown, iff_of_true rfl hnames⟩
    · -- The directory above is missing, so it is made first.
      obtain ⟨⟨added, hgrown⟩, habove⟩ := ih t hup
      split
      · next t₁ fault hensured =>
        rw [hensured] at hgrown habove
        refine ⟨⟨added, hgrown⟩, iff_of_false (by simp) fun hnames => ?_⟩
        rw [hreverse] at hnames hproper
        exact absurd (habove.mpr (hnames.above hproper)) (by simp)
      · next t₁ hensured =>
        rw [hensured] at hgrown
        split
        · next made hmade =>
          obtain ⟨⟨more, hmore⟩, hnames⟩ := of_makeDirectory_eq_ok hproper hmade
          exact ⟨⟨_, hgrown.trans hmore⟩, iff_of_true rfl hnames⟩
        · next hmissing =>
          refine ⟨⟨added, hgrown⟩, iff_of_false (by simp) fun hnames => ?_⟩
          obtain ⟨fault, hfault, hne⟩ := makeDirectory_of_namesDirectory hproper hnames
          exact hne (Except.error.inj (hfault.symm.trans hmissing))
        · exact ⟨⟨added, hgrown⟩, unlessDirectory_eq_none_iff⟩
    · exact ⟨⟨[], .refl t⟩, unlessDirectory_eq_none_iff⟩

/-- Nothing is made of a path that names a directory. -/
theorem ensureFrom_of_namesDirectory {fromRoot : Bool} {up : List Segment}
    (hproper : Proper ⟨fromRoot, up.reverse⟩)
    (h : NamesDirectory t directory ⟨fromRoot, up.reverse⟩) :
    t.ensureFrom fromRoot directory up = (t, none) := by
  cases up with
  | nil => exact congrArg (t, ·) (unlessDirectory_eq_none_iff.mpr h)
  | cons name up =>
    obtain ⟨fault, hfault, hne⟩ := makeDirectory_of_namesDirectory hproper h
    have hlook : t.unlessDirectory directory ⟨fromRoot, (name :: up).reverse⟩ fault = none :=
      unlessDirectory_eq_none_iff.mpr h
    simp only [ensureFrom, hfault, hlook]

theorem ensureDirectory_grown (t : FileTree) (directory : Location) (hproper : Proper p) :
    let r := t.ensureDirectory directory p
    (∃ added, Grown t added r.1) ∧ (r.2 = none ↔ NamesDirectory r.1 directory p) := by
  obtain ⟨fromRoot, names⟩ := p
  rw [← List.reverse_reverse names] at hproper
  have h := ensureFrom_grown t fromRoot directory hproper
  rwa [List.reverse_reverse] at h

theorem ensureDirectory_of_namesDirectory (hproper : Proper p)
    (h : NamesDirectory t directory p) : t.ensureDirectory directory p = (t, none) := by
  obtain ⟨fromRoot, names⟩ := p
  rw [← List.reverse_reverse names] at hproper h
  exact ensureFrom_of_namesDirectory hproper h

/-- A directory that can be made is all that is made. -/
theorem ensureDirectory_of_makeDirectory (h : t.makeDirectory directory p = .ok t') :
    t.ensureDirectory directory p = (t', none) := by
  have hlast : ∃ names s, p.names = names ++ [s] := by
    rw [makeDirectory] at h
    split at h
    · next hfree =>
      obtain ⟨-, names, s, -, hnames, -⟩ := exists_of_freeLocation hfree
      exact ⟨names, s, hnames⟩
    · exact absurd h (by simp)
  obtain ⟨names, s, hnames⟩ := hlast
  have hreverse : p.names.reverse = s :: names.reverse := by rw [hnames, List.reverse_concat]
  have hp : (⟨p.fromRoot, (s :: names.reverse).reverse⟩ : FilePath) = p := by
    rw [← hreverse, List.reverse_reverse]
  simp only [ensureDirectory, hreverse, ensureFrom, hp, h]

/-! ### Texts of paths -/

theorem proper_ofString (path : String) : Proper (.ofString path) := by
  intro s hs
  simpa using (List.mem_filter.mp hs).2

theorem ensurePath_of_namesDirectory {path : String}
    (hnull : (FilePath.ofString path).hasNull = false)
    (h : NamesDirectory t directory (.ofString path)) :
    t.ensurePath directory path = (t, .ok ()) := by
  simp [ensurePath, hnull, ensureDirectory_of_namesDirectory (proper_ofString path) h]

/-- Making sure of a directory changes nothing that was there, whether it succeeds or not: it only
adds directories where nothing stood.  It succeeds exactly if the path, which must be without a
null character, names a directory then, and to do it once more changes nothing.  If the path named
a directory before, it succeeds and adds nothing. -/
theorem ensurePath_only_adds (t : FileTree) (directory : Location) (path : String) :
    let p := FilePath.ofString path
    let r := t.ensurePath directory path
    (∃ added : List Location, (∀ l ∈ added, t.node? l = none) ∧
        r.1.entries = t.entries ++ added.map (fun l => { location := l, node := .directory }) ∧
        ∀ l, r.1.node? l = if l ∈ added then some .directory else t.node? l) ∧
      (r.2 = .ok () ↔ p.hasNull = false ∧ NamesDirectory r.1 directory p) ∧
      (r.2 = .ok () → r.1.ensurePath directory path = (r.1, .ok ())) ∧
      (p.hasNull = false → NamesDirectory t directory p → r = (t, .ok ())) := by
  intro p r
  have hgrown : (∃ added, Grown t added r.1) ∧
      (r.2 = .ok () ↔ p.hasNull = false ∧ NamesDirectory r.1 directory p) := by
    cases hnull : p.hasNull with
    | true =>
      have hr : r = (t, .error (.refusedRead .nullByte)) := if_pos hnull
      rw [hr]
      exact ⟨⟨[], .refl t⟩, iff_of_false (by simp) (by simp)⟩
    | false =>
      have h := ensureDirectory_grown t directory (proper_ofString path)
      have hr : r = _ := if_neg (by simp [p, hnull])
      rw [hr]
      generalize t.ensureDirectory directory (.ofString path) = made at h
      obtain ⟨t', fault⟩ := made
      cases fault <;> simpa using h
  obtain ⟨⟨added, hgrown⟩, hok⟩ := hgrown
  refine ⟨⟨added, hgrown.free, hgrown.entries, hgrown.node?_eq⟩, hok, fun h => ?_,
    ensurePath_of_namesDirectory⟩
  obtain ⟨hnull, hnames⟩ := hok.mp h
  exact ensurePath_of_namesDirectory hnull hnames

/-- A small tree: a directory with a link to the root and one to itself. -/
def upTree : FileTree where
  entries := [
    { location := ["h".toList], node := .directory },
    { location := ["h".toList, "up".toList], node := .link "..".toList },
    { location := ["h".toList, "loop".toList], node := .link "loop".toList }]

theorem ensurePath_only_adds_links :
    let made := upTree.ensurePath ["h".toList] "up/h/./a"
    made.2 = .ok () ∧ made.1.ensurePath ["h".toList] "up/h/./a" = (made.1, .ok ()) ∧
      made.1.node? ["h".toList, "up".toList] = some (.link "..".toList) ∧
      NamesDirectory upTree ["h".toList] (.ofString "up/h") ∧
      upTree.ensurePath ["h".toList] "up/h" = (upTree, .ok ()) ∧
      (upTree.ensurePath ["h".toList] "x/../loop/y").1.node? ["h".toList, "loop".toList] =
        some (.link "loop".toList) := by
  intro made
  have hmake : upTree.makeDirectory ["h".toList] (.ofString "up/h/./a") =
      .ok (upTree.addDirectory ["h".toList, "a".toList]) := by cbv
  have hmade : made.2 = .ok () := by
    have hnull : (FilePath.ofString "up/h/./a").hasNull = false := by decide
    simp only [made, ensurePath, hnull, ensureDirectory_of_makeDirectory hmake, Bool.false_eq_true,
      if_false]
  have hbefore : NamesDirectory upTree ["h".toList] (.ofString "up/h") :=
    ⟨["h".toList], by cbv, by cbv⟩
  have hup : upTree.node? ["h".toList, "up".toList] = some (.link "..".toList) := by cbv
  have hloop : upTree.node? ["h".toList, "loop".toList] = some (.link "loop".toList) := by cbv
  obtain ⟨⟨added, hfree, -, hnodes⟩, -, hagain, -⟩ :=
    ensurePath_only_adds upTree ["h".toList] "up/h/./a"
  obtain ⟨-, -, -, hthere⟩ := ensurePath_only_adds upTree ["h".toList] "up/h"
  -- Half of this path is made before the link that leads nowhere is met.
  obtain ⟨⟨added', hfree', -, hnodes'⟩, -⟩ :=
    ensurePath_only_adds upTree ["h".toList] "x/../loop/y"
  refine ⟨hmade, hagain hmade, ?_, hbefore, hthere (by decide) hbefore, ?_⟩
  · rw [hnodes, if_neg fun hmem => absurd ((hfree _ hmem).symm.trans hup) (by simp), hup]
  · rw [hnodes', if_neg fun hmem => absurd ((hfree' _ hmem).symm.trans hloop) (by simp), hloop]

end PromptShelf.FileTree
