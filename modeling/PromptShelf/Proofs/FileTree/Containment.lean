/-
Entries under a root.

A path is under a root if both have real locations and that of the path is that of the root or lies
below it (`isUnder_iff`).  The root may be given as it is or in normal form: without a parent
segment, normal form only drops what leads nowhere and puts the caller's directory in front.  The
names lead to the same place then, but other paths are looked up on the way, and only those of one
of the two forms may be too long (`isUnder_differs_nested`).

The paths that a resolver makes of requests go on from its root with the names of the request.  As
long as none of these names is that of a link, they go down from the real location of the root.  The
probe and the system find the same real location, but not always both of them find it: the probe
passes a parent segment behind a file, where the system asks for a directory
(`isUnder_resolved_behind_file`).

* **`isUnder_normal`** — a root means the same to the probe as its normal form, but for paths that
  are too long;
* **`isUnder_resolved_iff`** — if the system finds the root, a resolved request exists exactly if
  something stands below the real root under its names, and the probe says so unless a path is too
  long.
-/
import PromptShelf.Proofs.FileTree.Resolution
import PromptShelf.Proofs.Path.Keys

namespace PromptShelf

open PromptShelf.Path

/-- The text of a rooted path reaches the file system with the names of the path. -/
theorem FilePath.ofChars_text {p : Path} (hp : Rooted p) :
    FilePath.ofChars p.text = ⟨true, p.names⟩ := by
  have hproper := properSegments_text hp
  have hfilter : (segments p.text).filter (fun s => s ≠ [] ∧ s ≠ dot) =
      ((segments p.text).filter (· ≠ [])).filter (· ≠ dot) := by
    rw [List.filter_filter]
    exact List.filter_congr fun s _ => by simp [Bool.and_comm]
  rw [properSegments] at hproper
  rw [FilePath.ofChars, isAbsolute_text hp, hfilter, hproper, List.filter_eq_self.mpr]
  exact fun s hs => by simpa using (hp.isName s hs).ne_dot

/-- Joined names reach the file system as a relative path of these names. -/
theorem FilePath.ofString_joined {ss : List Segment} (hne : ss ≠ []) (hss : ∀ s ∈ ss, IsName s) :
    FilePath.ofString (String.ofList (joined ss)) = ⟨false, ss⟩ := by
  have hsegments : segments (joined ss) = ss :=
    segments_joined ss hne fun s hs => (hss s hs).no_slash
  have hrelative : isAbsolute (joined ss) = false := by
    refine Bool.eq_false_iff.mpr fun habsolute => ?_
    obtain ⟨rest, hrest⟩ := isAbsolute_iff.mp habsolute
    -- The first segment of a text that begins with a slash is empty.
    have hempty : [] ∈ ss := by
      rw [← hsegments, hrest, segments_cons_slash]
      exact List.mem_cons_self
    exact (hss [] hempty).ne_nil rfl
  rw [FilePath.ofString, FilePath.ofChars, String.toList_ofList, hsegments, hrelative,
    List.filter_eq_self.mpr]
  exact fun s hs => by simpa using And.intro (hss s hs).ne_nil (hss s hs).ne_dot

namespace FileTree

variable {t : FileTree} {directory l l' : Location} {path root : FilePath}

theorem isUnder_iff : t.isUnder directory path root = true ↔
    ∃ real l, t.realize directory root = .ok real ∧ t.realize directory path = .ok l ∧
      real <+: l := by
  rw [isUnder]
  cases t.realize directory root with
  | error fault => simp
  | ok real =>
    cases t.realize directory path with
    | error fault => simp
    | ok l => simp

/-- A location goes on from another one by whole names. -/
theorem prefix_iff_eq_or_below {real : Location} :
    real <+: l ↔ l = real ∨ ∃ s rest, l = real ++ s :: rest := by
  constructor
  · rintro ⟨more, rfl⟩
    cases more with
    | nil => exact .inl (List.append_nil real)
    | cons s rest => exact .inr ⟨s, rest, rfl⟩
  · rintro (rfl | ⟨s, rest, rfl⟩)
    · exact List.prefix_rfl
    · exact List.prefix_append _ _

/-- A path is under a root exactly if both lead somewhere, the one to the same location as the other
or below it, and no path that is looked up for them is too long. -/
theorem isUnder_iff_leads : t.isUnder directory path root = true ↔
    ∃ real l, Leads t (root.start directory) root.names real ∧
      Leads t (path.start directory) path.names l ∧ (l = real ∨ ∃ s rest, l = real ++ s :: rest) ∧
      t.realize directory root ≠ .error .nameTooLong ∧
      t.realize directory path ≠ .error .nameTooLong := by
  simp only [isUnder_iff, realize_eq_ok_iff, prefix_iff_eq_or_below]
  constructor
  · rintro ⟨real, l, ⟨hroot, hshort⟩, ⟨hpath, hshort'⟩, hbelow⟩
    exact ⟨real, l, hroot, hpath, hbelow, hshort, hshort'⟩
  · rintro ⟨real, l, hroot, hpath, hbelow, hshort, hshort'⟩
    exact ⟨real, l, ⟨hroot, hshort⟩, ⟨hpath, hshort'⟩, hbelow⟩

/-! ### Names without links -/

/-- Under none of the names, followed from the location one after the other, stands a link. -/
def LinkFree (t : FileTree) (l : Location) : List Segment → Prop
  | [] => True
  | s :: rest => (∀ target, t.child l s ≠ .ok (.link target)) ∧ LinkFree t (l ++ [s]) rest

variable {names : List Segment}

/-- Without links on the way, names lead down by themselves, and so does every walk. -/
theorem LinkFree.eq_of_leads (hfree : LinkFree t l names) (hnames : ∀ s ∈ names, IsName s)
    (h : Leads t l names l') :
    l' = l ++ names ∧ ∀ links, t.walk .followed links l names = .ok l' := by
  induction names generalizing l with
  | nil =>
    obtain rfl := leads_nil_iff.mp h
    exact ⟨(List.append_nil l').symm, fun links => by rw [walk]⟩
  | cons s rest ih =>
    obtain ⟨hnolink, hfree⟩ := hfree
    obtain ⟨hs, hrest⟩ := List.forall_mem_cons.mp hnames
    have hasks := asksEntry_of_isName hs
    cases h with
    | stay hredundant => exact absurd hredundant hasks.not_redundant
    | up => exact absurd rfl hasks.ne_dotDot
    | follow _ hchild => exact absurd hchild (hnolink _)
    | down _ hchild hlink h =>
      obtain ⟨rfl, hwalk⟩ := ih hfree hrest h
      refine ⟨(List.append_cons l s rest).symm, fun links => ?_⟩
      rw [walk_down hasks hchild hlink, hwalk]

/-- Names lead to what stands below the location under them. -/
theorem LinkFree.leads (hfree : LinkFree t l names) (hnames : ∀ s ∈ names, IsName s)
    (h : Stands t (l ++ names)) : Leads t l names (l ++ names) := by
  induction names generalizing l with
  | nil =>
    rw [List.append_nil]
    exact .here l
  | cons s rest ih =>
    obtain ⟨hnolink, hfree⟩ := hfree
    obtain ⟨hs, hrest⟩ := List.forall_mem_cons.mp hnames
    obtain ⟨n, hchild, -⟩ := h.exists_child
    rw [List.append_cons] at h ⊢
    exact .down (asksEntry_of_isName hs) hchild
      (fun target heq => hnolink target (heq ▸ hchild)) (ih hfree hrest h)

/-- Without links on the way, the search goes down as long as the path is short enough. -/
theorem LinkFree.realizeFrom {r : Reached} {depth : Nat} (hfree : LinkFree t r.location names)
    (hnames : ∀ s ∈ names, IsName s) (h : Stands t (r.location ++ names))
    (hsize : (FilePath.mk r.text.fromRoot (r.text.names ++ names)).size ≤ maxPath) :
    t.realizeFrom depth r names =
      .ok ⟨r.location ++ names, ⟨r.text.fromRoot, r.text.names ++ names⟩⟩ := by
  induction names generalizing r with
  | nil => rw [realizeFrom_nil, List.append_nil, List.append_nil]
  | cons s rest ih =>
    obtain ⟨hnolink, hfree⟩ := hfree
    obtain ⟨hs, hrest⟩ := List.forall_mem_cons.mp hnames
    obtain ⟨n, hchild, -⟩ := h.exists_child
    rw [List.append_cons] at h hsize
    have hlookUp : t.lookUp r s = .ok n :=
      lookUp_eq_ok_iff.mpr ⟨Nat.le_trans (size_le_size_append _ rest) hsize, hchild⟩
    rw [realizeFrom_down (asksEntry_of_isName hs) hlookUp
        fun target heq => hnolink target (heq ▸ hchild),
      ih (r := r.down s) hfree hrest h hsize]
    simp [Reached.down, FilePath.down]
/-! ### Roots in normal form -/

/-- A caller can be there: a directory, on a way of directories whose names can be written down. -/
structure CanBeIn (t : FileTree) (l : Location) : Prop where
  stands : Stands t l
  isDirectory : t.node? l = some .directory
  isName : ∀ s ∈ l, IsName s

theorem canBeIn_root (t : FileTree) : CanBeIn t [] := ⟨stands_nil t, node?_nil t, by simp⟩

theorem CanBeIn.leads (h : CanBeIn t l) : Leads t [] l l := by
  induction l using List.reverseRecOn with
  | nil => exact .here []
  | append_singleton l s ih =>
    have habove : t.node? l = some .directory := h.stands.above l s [] rfl
    have hfront : CanBeIn t l :=
      ⟨h.stands.of_append, habove, fun s hs => h.isName s (List.mem_append_left _ hs)⟩
    have hlast : s ∈ l ++ [s] := by simp
    have hchild : t.child l s = .ok .directory :=
      child_eq_ok_iff.mpr ⟨habove, h.stands.short s hlast, h.isDirectory⟩
    refine leads_append_iff.mpr ⟨l, ih hfront, ?_⟩
    exact .down (asksEntry_of_isName (h.isName s hlast)) hchild (by simp) (.here _)

/-- From where a caller is, names lead to where they lead behind its own. -/
theorem CanBeIn.leads_append_iff (h : CanBeIn t l) {names : List Segment} :
    Leads t [] (l ++ names) l' ↔ Leads t l names l' := by
  rw [FileTree.leads_append_iff]
  constructor
  · rintro ⟨m, hm, hnames⟩
    rwa [hm.unique h.leads] at hnames
  · exact fun hnames => ⟨l, h.leads, hnames⟩

theorem CanBeIn.rooted (h : CanBeIn t l) : Rooted ⟨.root, l⟩ := ⟨by simp, h.isName⟩

/-- Text of the directory that a caller is in. -/
def directoryText (l : Location) : String := String.ofList (Path.text ⟨.root, l⟩)

theorem ofString_make (directory root : String) (extensions : Option (List String))
    (hdirectory : isAbsolute directory.toList = true) :
    FilePath.ofString (Resolver.make directory root extensions).root =
      ⟨true, (read (append directory.toList root.toList)).names⟩ := by
  rw [FilePath.ofString, Resolver.make, String.toList_ofList, absolute_eq_text]
  exact FilePath.ofChars_text (rooted_read (isAbsolute_append hdirectory root.toList))

theorem isAbsolute_directoryText (h : CanBeIn t l) :
    isAbsolute (directoryText l).toList = true := by
  rw [directoryText, String.toList_ofList]
  exact isAbsolute_text h.rooted

/-- A relative text is cut into the segments of the directory and its own. -/
theorem segments_append_directoryText (h : CanBeIn t directory) {cs : List Char}
    (hrelative : isAbsolute cs = false) :
    ∃ front, segments (append (directoryText directory).toList cs) = front ++ segments cs ∧
      dotDot ∉ front ∧ front.filter (fun s => s ≠ [] ∧ s ≠ dot) = directory := by
  have hrooted := h.rooted
  rw [directoryText, String.toList_ofList, append, if_neg (by simp [hrelative])]
  by_cases hnil : directory = []
  · subst hnil
    have hbase : Path.text ⟨.root, []⟩ = ['/'] := rfl
    rw [hbase, if_pos (by decide)]
    exact ⟨[[]], segments_cons_slash cs, by decide, rfl⟩
  · have hslash : (Path.text ⟨.root, directory⟩).getLast? ≠ some '/' :=
      fun hlast => hnil ((getLast?_text_eq_slash_iff hrooted).mp hlast)
    obtain ⟨rest, hbase⟩ := isAbsolute_iff.mp (isAbsolute_text hrooted)
    have hnames : (segments (Path.text ⟨.root, directory⟩)).filter (fun s => s ≠ [] ∧ s ≠ dot) =
        directory := congrArg FilePath.names (FilePath.ofChars_text hrooted)
    rw [if_neg (not_or.mpr ⟨by simp [hbase], hslash⟩)]
    refine ⟨_, segments_append _ cs, fun hmem => ?_, hnames⟩
    -- A parent segment would be one of the names.
    have hkept : dotDot ∈ directory := hnames ▸ List.mem_filter.mpr ⟨hmem, by decide⟩
    exact (h.isName _ hkept).ne_dotDot rfl

/-- In normal form, a root without parent segments has the names of the directory, if it is
relative, and its own. -/
theorem names_normal (h : CanBeIn t directory) {root : List Char} (hroot : dotDot ∉ segments root) :
    (Path.read (append (directoryText directory).toList root)).names =
      (if isAbsolute root then [] else directory) ++ (FilePath.ofChars root).names := by
  rw [Path.read]
  cases hanchor : isAbsolute root with
  | true =>
    rw [append, if_pos hanchor]
    exact collapse_of_not_mem hroot _
  | false =>
    obtain ⟨front, hsegments, hfront, hfilter⟩ := segments_append_directoryText h hanchor
    have hparent : dotDot ∉ front ++ segments root := by simp [hfront, hroot]
    rw [hsegments, collapse_of_not_mem hparent, List.filter_append, hfilter]
    rfl

/-- A root without parent segments leads where its normal form leads. -/
theorem leads_normal_iff (h : CanBeIn t directory) {root : String}
    (hroot : dotDot ∉ segments root.toList) (extensions : Option (List String)) :
    let normal := FilePath.ofString (Resolver.make (directoryText directory) root extensions).root
    Leads t (normal.start directory) normal.names l ↔
      Leads t ((FilePath.ofString root).start directory) (FilePath.ofString root).names l := by
  rw [ofString_make _ _ _ (isAbsolute_directoryText h), names_normal h hroot]
  show Leads t [] (_ ++ _) l ↔
    Leads t (if isAbsolute root.toList then [] else directory) (FilePath.ofString root).names l
  cases isAbsolute root.toList with
  | true => rfl
  | false => exact h.leads_append_iff

/-- A path is under a root without parent segments exactly if both lead somewhere, links followed,
and the real location of the path is that of the root or goes on from it by whole names, as long as
no path that is looked up for them is too long.  So it is for the root as it is given and for the
normal form that a resolver has of it, which agree unless exactly one of the two is too long; a root
that is absolute is its own normal form to the file system. -/
theorem isUnder_normal (h : CanBeIn t directory) (path : String) {root : String}
    (hroot : dotDot ∉ segments root.toList) (extensions : Option (List String)) :
    let normal := FilePath.ofString (Resolver.make (directoryText directory) root extensions).root
    let given := FilePath.ofString root
    let p := FilePath.ofString path
    (∀ q, q = given ∨ q = normal →
      (t.isUnder directory p q = true ↔
        ∃ real l, Leads t (given.start directory) given.names real ∧
          Leads t (p.start directory) p.names l ∧ (l = real ∨ ∃ s rest, l = real ++ s :: rest) ∧
          t.realize directory q ≠ .error .nameTooLong ∧
          t.realize directory p ≠ .error .nameTooLong)) ∧
      ((t.realize directory normal = .error .nameTooLong ↔
          t.realize directory given = .error .nameTooLong) →
        t.isUnder directory p normal = t.isUnder directory p given) ∧
      (isAbsolute root.toList = true →
        t.isUnder directory p normal = t.isUnder directory p given) := by
  intro normal given p
  have hleads : ∀ real, Leads t (normal.start directory) normal.names real ↔
      Leads t (given.start directory) given.names real :=
    fun real => leads_normal_iff h hroot extensions
  refine ⟨?_, fun hlong => ?_, fun habsolute => ?_⟩
  · rintro q (rfl | rfl)
    · exact isUnder_iff_leads
    · rw [isUnder_iff_leads]
      simp only [hleads]
  · rw [Bool.eq_iff_iff, isUnder_iff_leads, isUnder_iff_leads]
    simp only [hleads, ne_eq, hlong]
  · have hsame : normal = given := by
      simp only [normal, given]
      rw [ofString_make _ _ _ (isAbsolute_directoryText h), names_normal h hroot, if_pos habsolute,
        List.nil_append, FilePath.ofString, FilePath.ofChars, habsolute]
    rw [hsame]

/-- Directories below each other, all of one name. -/
def nestedTree (s : Segment) (depth : Nat) : FileTree where
  entries := (List.range depth).map fun k =>
    { location := List.replicate (k + 1) s, node := .directory }

theorem node?_nestedTree {s : Segment} {depth k : Nat} (hk : k ≤ depth) :
    (nestedTree s depth).node? (List.replicate k s) = some .directory := by
  cases k with
  | zero => exact node?_nil _
  | succ k =>
    rw [node?_of_ne_nil _ (by simp), nestedTree, List.find?_map, Option.map_map,
      Option.map_eq_some_iff]
    have hfound : ((List.range depth).find? fun k' =>
        decide (List.replicate (k' + 1) s = List.replicate (k + 1) s)).isSome = true :=
      List.find?_isSome.mpr ⟨k, List.mem_range.mpr hk, by simp⟩
    obtain ⟨k', hk'⟩ := Option.isSome_iff_exists.mp hfound
    exact ⟨k', hk', rfl⟩

theorem stands_nestedTree {s : Segment} (hs : isTooLong s = false) (depth : Nat) :
    Stands (nestedTree s depth) (List.replicate depth s) := by
  refine ⟨⟨_, node?_nestedTree (Nat.le_refl depth)⟩, fun l' s' rest heq => ?_, fun s' hs' => ?_⟩
  · obtain ⟨hlength, hl', -⟩ := List.replicate_eq_append_iff.mp heq
    rw [hl']
    exact node?_nestedTree (by omega)
  · rwa [List.eq_of_mem_replicate hs']

theorem not_link_nestedTree {s : Segment} {depth : Nat} {l : Location} {s' : Segment}
    (target : List Char) : (nestedTree s depth).child l s' ≠ .ok (.link target) := by
  intro hchild
  obtain ⟨-, -, hnode⟩ := child_eq_ok_iff.mp hchild
  rw [node?_of_ne_nil _ (by simp)] at hnode
  obtain ⟨e, hfind, he⟩ := Option.map_eq_some_iff.mp hnode
  obtain ⟨k, -, rfl⟩ := List.mem_map.mp (List.mem_of_find?_eq_some hfind)
  exact absurd he (by simp)

theorem linkFree_nestedTree {s : Segment} {depth : Nat} (l : Location) (names : List Segment) :
    LinkFree (nestedTree s depth) l names := by
  induction names generalizing l with
  | nil => trivial
  | cons s' rest ih => exact ⟨not_link_nestedTree, ih (l ++ [s'])⟩

theorem size_replicate (fromRoot : Bool) (n : Nat) (s : Segment) :
    (FilePath.mk fromRoot (List.replicate n s)).size =
      n * ((Text.Utf8.encode s).length + 1) - (if fromRoot then 0 else 1) := by
  have hsum : (List.replicate n s).foldr (fun s n => (Text.Utf8.encode s).length + 1 + n) 0 =
      n * ((Text.Utf8.encode s).length + 1) := by
    induction n with
    | zero => simp
    | succ n ih => rw [List.replicate_succ, List.foldr_cons, ih, Nat.succ_mul, Nat.add_comm]
  rw [FilePath.size, hsum]

/-- A relative root that is just short enough is under itself, but not under its normal form. -/
theorem isUnder_nested {s : Segment} {depth : Nat} (hs : IsEntryName s)
    (hsize : depth * ((Text.Utf8.encode s).length + 1) = maxPath + 1) :
    let root := String.ofList (joined (List.replicate depth s))
    let bound := FilePath.ofString (Resolver.make (directoryText []) root none).root
    dotDot ∉ segments root.toList ∧
      (nestedTree s depth).isUnder [] (.ofString root) (.ofString root) = true ∧
      (nestedTree s depth).isUnder [] (.ofString root) bound = false := by
  intro root bound
  have hnames : ∀ s' ∈ List.replicate depth s, IsName s' :=
    fun s' hs' => List.eq_of_mem_replicate hs' ▸ hs.toIsName
  have hne : List.replicate depth s ≠ [] := by
    intro hnil
    obtain rfl : depth = 0 := by simpa using hnil
    omega
  have hroot : dotDot ∉ segments root.toList := by
    rw [String.toList_ofList, segments_joined _ hne fun s' hs' => (hnames s' hs').no_slash]
    exact fun hmem => (hnames _ hmem).ne_dotDot rfl
  have hreal : (nestedTree s depth).realize [] (.ofString root) = .ok (List.replicate depth s) := by
    have hshort : (FilePath.mk false (List.replicate depth s)).size ≤ maxPath := by
      rw [size_replicate, hsize]
      exact Nat.le_refl maxPath
    have hstands := stands_nestedTree hs.short depth
    rw [FilePath.ofString_joined hne hnames, realize,
      LinkFree.realizeFrom (linkFree_nestedTree _ _) hnames hstands hshort]
    rfl
  refine ⟨hroot, isUnder_iff.mpr ⟨_, _, hreal, hreal, List.prefix_rfl⟩, ?_⟩
  refine Bool.eq_false_iff.mpr fun hbound => ?_
  have hcan := canBeIn_root (nestedTree s depth)
  obtain ⟨real, _, hnormal, -, -⟩ := isUnder_iff.mp hbound
  have hleads := (leads_normal_iff hcan hroot none).mp (leads_of_realize hnormal)
  obtain rfl := hleads.unique (leads_of_realize hreal)
  have hfrom : bound.fromRoot = true :=
    congrArg FilePath.fromRoot (ofString_make _ _ _ (isAbsolute_directoryText hcan))
  have hle := size_le_of_realize hfrom hnormal
  rw [size_replicate, hsize] at hle
  exact absurd hle (Nat.not_succ_le_self maxPath)

/-- The longest name that is written with one letter. -/
def longName : Segment := List.replicate maxName 'a'

theorem isUnder_differs_nested :
    let root := String.ofList (joined (List.replicate 16 longName))
    let bound := FilePath.ofString (Resolver.make (directoryText []) root none).root
    CanBeIn (nestedTree longName 16) [] ∧ dotDot ∉ segments root.toList ∧
      (nestedTree longName 16).isUnder [] (.ofString root) (.ofString root) = true ∧
      (nestedTree longName 16).isUnder [] (.ofString root) bound = false :=
  ⟨canBeIn_root _, isUnder_nested (by decide +kernel) (by decide +kernel)⟩

/-- A small tree: a link to the root, and below the root one that leads out and one to itself. -/
def linkedTree : FileTree where
  entries := [
    { location := ["w".toList], node := .directory },
    { location := ["w".toList, "root".toList], node := .directory },
    { location := ["w".toList, "root".toList, "loop".toList], node := .link "loop".toList },
    { location := ["w".toList, "root".toList, "out".toList], node := .link "../root2".toList },
    { location := ["w".toList, "root".toList, "sub".toList], node := .directory },
    { location := ["w".toList, "root".toList, "sub".toList, "b.md".toList], node := .file [104] },
    { location := ["w".toList, "root2".toList], node := .directory },
    { location := ["w".toList, "alias".toList], node := .link "./root/".toList }]

theorem isUnder_normal_alias :
    let bound := FilePath.ofString (Resolver.make (directoryText ["w".toList]) "alias//." none).root
    CanBeIn linkedTree ["w".toList] ∧ dotDot ∉ segments "alias//.".toList ∧
      linkedTree.isUnder ["w".toList] (.ofString "root/sub/b.md") bound = true ∧
      linkedTree.isUnder ["w".toList] (.ofString "root/out") bound = false ∧
      linkedTree.isUnder ["w".toList] (.ofString "root/loop") bound = false ∧
      linkedTree.isUnder ["w".toList] (.ofString "root2") bound = false := by
  intro bound
  have hcan : CanBeIn linkedTree ["w".toList] := by
    have hchild : linkedTree.child [] "w".toList = .ok .directory := by cbv
    exact ⟨(stands_nil _).child hchild, (child_eq_ok_iff.mp hchild).2.2,
      List.forall_mem_singleton.mpr ⟨by decide, by decide, by decide, by decide⟩⟩
  have hroot : dotDot ∉ segments "alias//.".toList := by decide
  have hgiven : linkedTree.realize ["w".toList] (.ofString "alias//.") =
      .ok ["w".toList, "root".toList] := by cbv
  have hnormal : linkedTree.realize ["w".toList] bound = .ok ["w".toList, "root".toList] := by cbv
  have hsame : ∀ path, linkedTree.isUnder ["w".toList] (.ofString path) bound =
      linkedTree.isUnder ["w".toList] (.ofString path) (.ofString "alias//.") :=
    fun path => (isUnder_normal hcan path hroot none).2.1 (by rw [hgiven, hnormal])
  rw [hsame, hsame, hsame, hsame]
  exact ⟨hcan, hroot, by cbv, by cbv, by cbv, by cbv⟩

/-! ### Resolved requests -/

/-- Behind names that lead to a real location, further names lead to what stands below it. -/
theorem leads_below_iff {base : List Segment} {real : Location} (hnames : ∀ s ∈ names, IsName s)
    (hfree : LinkFree t real names) (hbase : Leads t [] base real) :
    Leads t [] (base ++ names) l ↔ l = real ++ names ∧ Stands t (real ++ names) := by
  constructor
  · intro h
    obtain ⟨real', hreal', hbelow⟩ := leads_append_iff.mp h
    obtain rfl := hreal'.unique hbase
    obtain ⟨rfl, -⟩ := hfree.eq_of_leads hnames hbelow
    exact ⟨rfl, h.stands (stands_nil t)⟩
  · rintro ⟨rfl, hstands⟩
    exact leads_append_iff.mpr ⟨real, hbase, hfree.leads hnames hstands⟩

theorem locate_eq_ok_iff : t.locate .followed directory path = .ok l ↔
    path.size ≤ maxPath ∧ t.walk .followed maxLinks (path.start directory) path.names = .ok l := by
  rw [locate]
  split
  · next hlong => simp [Nat.not_le.mpr hlong]
  · next hshort => simp [Nat.not_lt.mp hshort]

theorem leads_of_locate (h : t.locate .followed directory path = .ok l) :
    Leads t (path.start directory) path.names l :=
  leads_of_walk (locate_eq_ok_iff.mp h).2

/-- A path is found only through what stands above it, and where it should be. -/
theorem exists_locate_of_append {base : List Segment} (hnames : ∀ s ∈ names, IsName s)
    (hfree : ∀ real, t.locate .followed directory ⟨true, base⟩ = .ok real → LinkFree t real names)
    (h : t.locate .followed directory ⟨true, base ++ names⟩ = .ok l) :
    ∃ real, t.locate .followed directory ⟨true, base⟩ = .ok real ∧ l = real ++ names ∧
      Stands t (real ++ names) := by
  obtain ⟨hsize, hwalk⟩ := locate_eq_ok_iff.mp h
  have hbase : ∃ real, t.walk .followed maxLinks [] base = .ok real := by
    cases hfront : t.walk .followed maxLinks [] base with
    | error fault => exact absurd ((walk_append_of_error names hfront).symm.trans hwalk) (by simp)
    | ok real => exact ⟨real, rfl⟩
  obtain ⟨real, hfront⟩ := hbase
  have hreal : t.locate .followed directory ⟨true, base⟩ = .ok real :=
    locate_eq_ok_iff.mpr ⟨Nat.le_trans (size_le_size_append base names) hsize, hfront⟩
  exact ⟨real, hreal,
    (leads_below_iff hnames (hfree real hreal) (leads_of_locate hreal)).mp (leads_of_locate h)⟩

/-- What stands below a path that is found is found behind it. -/
theorem locate_below {base : List Segment} {real : Location} (hnames : ∀ s ∈ names, IsName s)
    (hfree : LinkFree t real names) (hstands : Stands t (real ++ names))
    (hbase : t.locate .followed directory ⟨true, base⟩ = .ok real)
    (hsize : (FilePath.mk true (base ++ names)).size ≤ maxPath) :
    t.locate .followed directory ⟨true, base ++ names⟩ = .ok (real ++ names) := by
  obtain ⟨left, heq⟩ := walk_append_of_ok names (locate_eq_ok_iff.mp hbase).2
  obtain ⟨-, hwalk⟩ := hfree.eq_of_leads hnames (hfree.leads hnames hstands)
  exact locate_eq_ok_iff.mpr ⟨hsize, heq.trans (hwalk left)⟩

/-- What stands below a path with a real location has one, too, if that is not too long. -/
theorem realize_below {base : List Segment} {real : Location} (hnames : ∀ s ∈ names, IsName s)
    (hfree : LinkFree t real names) (hstands : Stands t (real ++ names))
    (hbase : t.realize directory ⟨true, base⟩ = .ok real)
    (hsize : (FilePath.mk true (real ++ names)).size ≤ maxPath) :
    t.realize directory ⟨true, base ++ names⟩ = .ok (real ++ names) := by
  obtain ⟨r, hfrom, rfl⟩ := exists_realizeFrom_of_realize hbase
  have habsolute := (Reached.isAbsolute_start (p := ⟨true, base⟩) rfl).realizeFrom hfrom
  have hshort : (FilePath.mk r.text.fromRoot (r.text.names ++ names)).size ≤ maxPath := by
    rwa [habsolute.text_eq]
  have hrest := (realizeFrom_append_of_ok names hfrom).trans
    (hfree.realizeFrom hnames hstands hshort)
  rw [realize]
  exact congrArg (Except.map (·.location)) hrest

/-- What is below a root with a real location is under it for the probe exactly if something stands
there, not too far down. -/
theorem isUnder_below_iff {base : List Segment} {real : Location} (hnames : ∀ s ∈ names, IsName s)
    (hfree : LinkFree t real names) (hbase : t.realize directory ⟨true, base⟩ = .ok real) :
    t.isUnder directory ⟨true, base ++ names⟩ ⟨true, base⟩ = true ↔
      Stands t (real ++ names) ∧ (FilePath.mk true (real ++ names)).size ≤ maxPath := by
  rw [isUnder_iff]
  constructor
  · rintro ⟨-, l, -, hpath, -⟩
    obtain ⟨rfl, hstands⟩ :=
      (leads_below_iff hnames hfree (leads_of_realize hbase)).mp (leads_of_realize hpath)
    exact ⟨hstands, size_le_of_realize rfl hpath⟩
  · rintro ⟨hstands, hsize⟩
    exact ⟨real, real ++ names, hbase, realize_below hnames hfree hstands hbase hsize,
      List.prefix_append _ _⟩

theorem exists_file_of_readText {pathName encoding : String} {result : ReadResult}
    (h : t.readText directory pathName encoding = .ok result) (hok : result.isOk = true) :
    ∃ l bytes e, t.locate .followed directory (.ofString pathName) = .ok l ∧
      t.node? l = some (.file bytes) ∧ result = .ofBytes e bytes := by
  have hfault : ∀ fault, (ReadResult.ofFault (.file fault)).isOk = false := by
    intro fault
    cases fault <;> rfl
  simp only [readText] at h
  split at h
  · exact absurd h (by simp)
  split at h
  · exact absurd h (by simp)
  split at h
  · next fault _ =>
    obtain rfl := Except.ok.inj h
    exact absurd hok (by simp [hfault])
  · next bytes hbytes =>
    split at h
    · exact absurd h (by simp)
    · next e _ =>
      rw [readBytes] at hbytes
      split at hbytes
      · exact absurd hbytes (by simp)
      · next l hl =>
        split at hbytes
        · next hnode =>
          obtain rfl := Except.ok.inj hbytes
          exact ⟨l, _, e, hl, hnode, (Except.ok.inj h).symm⟩
        · exact absurd hbytes (by simp)
        · exact absurd hbytes (by simp)

section Resolved

variable {directoryName rootName requested pathName : String} {extensions : Option (List String)}

/-- A resolved request goes on from the root with the names of the request. -/
theorem ofString_resolve (hdirectory : isAbsolute directoryName.toList = true)
    (h : (Resolver.make directoryName rootName extensions).resolve requested = .ok pathName) :
    FilePath.ofString pathName = ⟨true, (FilePath.ofString
      (Resolver.make directoryName rootName extensions).root).names ++ kept requested.toList⟩ := by
  obtain ⟨haccept, hpath⟩ := Resolver.resolve_make hdirectory h
  have hrooted : Rooted (Path.read (append directoryName.toList rootName.toList)) :=
    rooted_read (isAbsolute_append hdirectory rootName.toList)
  rw [ofString_make _ _ _ hdirectory, FilePath.ofString, hpath,
    FilePath.ofChars_text (hrooted.extended (isName_of_mem_kept haccept))]
  rfl

/-- A request is resolved under a root that may itself be reached through links, and none of the
names of the request leads over a link from where the system finds the root.  Then the system finds
the resolved path exactly if it finds the root, something stands below it under these names, and the
path is not too long.  It finds what stands there, so what is read is a file below the real root.

The probe says what stands below the real location that it has for the root, not too far down.  This
is where the system finds the root, if it does, unless the probe comes to a path that is too long.
So if both find the root and neither the path nor its real location is too long, the path is under
the root for the probe exactly if it exists for the system. -/
theorem isUnder_resolved_iff (t : FileTree) (directory : Location)
    (hdirectory : isAbsolute directoryName.toList = true)
    (h : (Resolver.make directoryName rootName extensions).resolve requested = .ok pathName)
    (hfree : ∀ real, t.locate .followed directory (.ofString
        (Resolver.make directoryName rootName extensions).root) = .ok real →
      LinkFree t real (kept requested.toList)) :
    let q := FilePath.ofString (Resolver.make directoryName rootName extensions).root
    let p := FilePath.ofString pathName
    let names := kept requested.toList
    ((∃ l, t.locate .followed directory p = .ok l) ↔ p.size ≤ maxPath ∧
        ∃ real, t.locate .followed directory q = .ok real ∧ Stands t (real ++ names)) ∧
      (∀ l, t.locate .followed directory p = .ok l →
        ∃ real, t.locate .followed directory q = .ok real ∧ l = real ++ names) ∧
      (∀ encoding result, t.readText directory pathName encoding = .ok result →
        result.isOk = true → ∃ real bytes e, t.locate .followed directory q = .ok real ∧
          t.node? (real ++ names) = some (.file bytes) ∧ result = .ofBytes e bytes) ∧
      (∀ real, t.realize directory q = .ok real → LinkFree t real names →
        (t.isUnder directory p q = true ↔
          Stands t (real ++ names) ∧ (FilePath.mk true (real ++ names)).size ≤ maxPath)) ∧
      ∀ real, t.locate .followed directory q = .ok real →
        (t.realize directory q = .ok real ∨ t.realize directory q = .error .nameTooLong) ∧
        (t.realize directory q = .ok real → p.size ≤ maxPath →
          (FilePath.mk true (real ++ names)).size ≤ maxPath →
          (t.isUnder directory p q = true ↔ ∃ l, t.locate .followed directory p = .ok l)) := by
  intro q p names
  obtain ⟨haccept, -⟩ := Resolver.resolve_make hdirectory h
  have hnames : ∀ s ∈ names, IsName s := isName_of_mem_kept haccept
  have hq : q = ⟨true, q.names⟩ := by rw [show q = _ from ofString_make _ _ _ hdirectory]
  have hp : p = ⟨true, q.names ++ names⟩ := ofString_resolve hdirectory h
  have hpath : FilePath.ofString pathName = p := rfl
  change ∀ real, t.locate .followed directory q = .ok real → LinkFree t real names at hfree
  -- From here on only the names of the root matter.
  clear_value q p names
  obtain ⟨fromRoot, base⟩ := q
  obtain rfl : fromRoot = true := congrArg FilePath.fromRoot hq
  subst hp
  have hexists : (∃ l, t.locate .followed directory ⟨true, base ++ names⟩ = .ok l) ↔
      (FilePath.mk true (base ++ names)).size ≤ maxPath ∧
        ∃ real, t.locate .followed directory ⟨true, base⟩ = .ok real ∧
          Stands t (real ++ names) := by
    constructor
    · rintro ⟨l, hl⟩
      obtain ⟨real, hreal, -, hstands⟩ := exists_locate_of_append hnames hfree hl
      exact ⟨(locate_eq_ok_iff.mp hl).1, real, hreal, hstands⟩
    · rintro ⟨hsize, real, hreal, hstands⟩
      exact ⟨_, locate_below hnames (hfree real hreal) hstands hreal hsize⟩
  refine ⟨hexists, fun l hl => ?_, ?_, fun real hroot hdown => isUnder_below_iff hnames hdown hroot,
    fun real hreal => ⟨realize_of_leads (leads_of_locate hreal), fun hroot hsize hshort => ?_⟩⟩
  · obtain ⟨real, hreal, heq, -⟩ := exists_locate_of_append hnames hfree hl
    exact ⟨real, hreal, heq⟩
  · intro encoding result hread hok
    obtain ⟨l, bytes, e, hl, hnode, rfl⟩ := exists_file_of_readText hread hok
    rw [hpath] at hl
    obtain ⟨real, hreal, rfl, -⟩ := exists_locate_of_append hnames hfree hl
    exact ⟨real, bytes, e, hreal, hnode, rfl⟩
  · rw [isUnder_below_iff hnames (hfree real hreal) hroot, hexists]
    constructor
    · rintro ⟨hstands, -⟩
      exact ⟨hsize, real, hreal, hstands⟩
    · rintro ⟨-, real', hreal', hstands⟩
      obtain rfl := Except.ok.inj (hreal.symm.trans hreal')
      exact ⟨hstands, hshort⟩

end Resolved

theorem isUnder_resolved_alias :
    let r := Resolver.make "/w" "x/../alias" none
    let request := "sub\\.//b.md"
    let root := FilePath.ofString "/w/alias"
    let path := FilePath.ofString "/w/alias/sub/b.md"
    isAbsolute "/w".toList = true ∧ r.resolve request = .ok "/w/alias/sub/b.md" ∧
      FilePath.ofString r.root = root ∧
      (∀ real, linkedTree.locate .followed ["w".toList] root = .ok real →
        LinkFree linkedTree real (kept request.toList)) ∧
      linkedTree.isUnder ["w".toList] path root = true ∧
      ∃ real, linkedTree.locate .followed ["w".toList] root = .ok real ∧
        linkedTree.realize ["w".toList] root = .ok real ∧
        linkedTree.locate .followed ["w".toList] path = .ok (real ++ kept request.toList) := by
  intro r request root path
  have hdirectory : isAbsolute "/w".toList = true := by decide
  have hresolve : (Resolver.make "/w" "x/../alias" none).resolve "sub\\.//b.md" =
      .ok "/w/alias/sub/b.md" := by cbv
  have hnormal : FilePath.ofString r.root = root := by cbv
  have hroot : linkedTree.locate .followed ["w".toList] (.ofString r.root) =
      .ok ["w".toList, "root".toList] := by cbv
  have hreal : linkedTree.realize ["w".toList] (.ofString r.root) =
      .ok ["w".toList, "root".toList] := by cbv
  have hnames : kept request.toList = ["sub".toList, "b.md".toList] := by decide
  have hsub : linkedTree.child ["w".toList, "root".toList] "sub".toList = .ok .directory := by cbv
  have hfile : linkedTree.child ["w".toList, "root".toList, "sub".toList] "b.md".toList =
      .ok (.file [104]) := by cbv
  have hfree : ∀ real, linkedTree.locate .followed ["w".toList] (.ofString r.root) = .ok real →
      LinkFree linkedTree real (kept request.toList) := by
    intro real hlocate
    obtain rfl := Except.ok.inj (hroot.symm.trans hlocate)
    rw [hnames]
    exact ⟨fun target h => absurd (hsub.symm.trans h) (by simp),
      fun target h => absurd (hfile.symm.trans h) (by simp), trivial⟩
  obtain ⟨-, hlocate, -, -, hprobe⟩ :=
    isUnder_resolved_iff linkedTree ["w".toList] hdirectory hresolve hfree
  obtain ⟨-, hunder⟩ := hprobe _ hroot
  have hfound : linkedTree.locate .followed ["w".toList] path =
      .ok ["w".toList, "root".toList, "sub".toList, "b.md".toList] := by cbv
  have hvalid := (hunder hreal (by decide) (by rw [hnames]; decide)).mpr ⟨_, hfound⟩
  obtain ⟨real, hreal', heq⟩ := hlocate _ hfound
  obtain rfl := Except.ok.inj (hroot.symm.trans hreal')
  rw [hnormal] at hroot hreal hfree hvalid
  exact ⟨hdirectory, hresolve, hnormal, hfree, hvalid, _, hroot, hreal, heq ▸ hfound⟩

/-- A root link that passes a file: its target is the directory of the file, by way of the file. -/
def passingTree : FileTree where
  entries := [
    { location := ["real".toList], node := .directory },
    { location := ["real".toList, "x.txt".toList], node := .file [] },
    { location := ["real".toList, "sub".toList], node := .directory },
    { location := ["real".toList, "sub".toList, "b.md".toList], node := .file [104] },
    { location := ["alias".toList], node := .link "real/x.txt/..".toList }]

/-- Behind such a root the probe accepts a path that does not exist. -/
theorem isUnder_resolved_behind_file :
    let r := Resolver.make "/" "alias" none
    let root := FilePath.ofString r.root
    let path := FilePath.ofString "/alias/sub/b.md"
    r.resolve "sub/b.md" = .ok "/alias/sub/b.md" ∧
      (∀ real, Leads passingTree (root.start []) root.names real →
        LinkFree passingTree real (kept "sub/b.md".toList)) ∧
      passingTree.isUnder [] path root = true ∧
      passingTree.locate .followed [] path = .error .notDirectory ∧
      passingTree.readText [] "/alias/sub/b.md" "utf-8" =
        .ok (.ofFault (.file .notDirectory)) := by
  intro r root path
  have hreal : passingTree.realize [] root = .ok ["real".toList] := by cbv
  have hnames : kept "sub/b.md".toList = ["sub".toList, "b.md".toList] := by decide
  have hsub : passingTree.child ["real".toList] "sub".toList = .ok .directory := by cbv
  have hfile : passingTree.child ["real".toList, "sub".toList] "b.md".toList =
      .ok (.file [104]) := by cbv
  have hlocate : passingTree.locate .followed [] path = .error .notDirectory := by cbv
  have hread : passingTree.readText [] "/alias/sub/b.md" "utf-8" =
      .ok (.ofFault (.file .notDirectory)) := by
    rw [readText, if_neg (by decide), if_neg (by decide), readBytes, hlocate]
  refine ⟨by cbv, fun real hleads => ?_, by cbv, hlocate, hread⟩
  obtain rfl := hleads.unique (leads_of_realize hreal)
  rw [hnames]
  exact ⟨fun target h => absurd (hsub.symm.trans h) (by simp),
    fun target h => absurd (hfile.symm.trans h) (by simp), trivial⟩

end FileTree

end PromptShelf
