/-
Normal forms of absolute paths.

A path is `Rooted` if it starts at a root and all its segments are names: not empty,
no dot segment, without a slash.  Reading an absolute text gives a rooted path, because
climbing from a root never leaves a parent segment behind, and such a path can be
written and read again:

* **`rooted_read`** — absolute texts mean rooted paths;
* **`read_text`** — a rooted path is what its text means, so normal forms are fixed
  points of `normalize`;
* **`appendAll_text`** — putting names behind the text of a rooted path gives the text of
  the longer path.
-/
import Mathlib.Data.List.Basic
import PromptShelf.Path.Confined

namespace PromptShelf.Path

/-- A segment that names an entry of a directory. -/
structure IsName (s : Segment) : Prop where
  ne_nil : s ≠ []
  ne_dot : s ≠ dot
  ne_dotDot : s ≠ dotDot
  no_slash : '/' ∉ s

/-- A path that starts at a root and names every segment. -/
structure Rooted (p : Path) : Prop where
  anchor_ne : p.anchor ≠ .here
  isName : ∀ s ∈ p.names, IsName s

def extended (p : Path) (ss : List Segment) : Path := ⟨p.anchor, p.names ++ ss⟩

theorem Rooted.extended {p : Path} (hp : Rooted p) {ss : List Segment}
    (hss : ∀ s ∈ ss, IsName s) : Rooted (p.extended ss) := by
  refine ⟨hp.anchor_ne, fun s hs => ?_⟩
  rcases List.mem_append.mp hs with h | h
  · exact hp.isName s h
  · exact hss s h

/-! ### Cutting -/

/-- Cutting at separators is the library's own splitting of lists. -/
theorem segmentsBy_eq_splitOnP (p : Char → Bool) (cs : List Char) :
    segmentsBy p cs = cs.splitOnP p := by
  induction cs with
  | nil => rfl
  | cons c rest ih =>
    rw [segmentsBy, List.splitOnP_cons_eq_if_modifyHead, ← ih]
    by_cases h : p c
    · rw [if_pos h, if_pos h]
    · rw [if_neg h, if_neg h]
      cases hs : segmentsBy p rest with
      | nil => exact absurd hs (segmentsBy_ne_nil p rest)
      | cons s more => rfl

theorem not_of_mem_segmentsBy {p : Char → Bool} {cs : List Char} {s : Segment}
    (hs : s ∈ segmentsBy p cs) {c : Char} (hc : c ∈ s) : p c = false := by
  induction cs generalizing s with
  | nil =>
    obtain rfl := List.mem_singleton.mp hs
    exact absurd hc (by simp)
  | cons d rest ih =>
    rw [segmentsBy] at hs
    by_cases h : p d
    · rw [if_pos h] at hs
      rcases List.mem_cons.mp hs with rfl | hs
      · exact absurd hc (by simp)
      · exact ih hs hc
    · rw [if_neg h] at hs
      cases hrest : segmentsBy p rest with
      | nil => exact absurd hrest (segmentsBy_ne_nil p rest)
      | cons t more =>
        rw [hrest] at hs ih
        rcases List.mem_cons.mp hs with rfl | hs
        · rcases List.mem_cons.mp hc with rfl | hc
          · exact Bool.eq_false_iff.mpr h
          · exact ih List.mem_cons_self hc
        · exact ih (List.mem_cons_of_mem _ hs) hc

theorem mem_of_mem_segmentsBy {p : Char → Bool} {cs : List Char} {s : Segment}
    (hs : s ∈ segmentsBy p cs) {c : Char} (hc : c ∈ s) : c ∈ cs := by
  induction cs generalizing s with
  | nil =>
    obtain rfl := List.mem_singleton.mp hs
    exact hc
  | cons d rest ih =>
    rw [segmentsBy] at hs
    by_cases h : p d
    · rw [if_pos h] at hs
      rcases List.mem_cons.mp hs with rfl | hs
      · exact absurd hc (by simp)
      · exact List.mem_cons_of_mem _ (ih hs hc)
    · rw [if_neg h] at hs
      cases hrest : segmentsBy p rest with
      | nil => exact absurd hrest (segmentsBy_ne_nil p rest)
      | cons t more =>
        rw [hrest] at hs ih
        rcases List.mem_cons.mp hs with rfl | hs
        · rcases List.mem_cons.mp hc with rfl | hc
          · exact List.mem_cons_self
          · exact List.mem_cons_of_mem _ (ih List.mem_cons_self hc)
        · exact List.mem_cons_of_mem _ (ih (List.mem_cons_of_mem _ hs) hc)

theorem not_mem_of_mem_segments {cs : List Char} {s : Segment} (hs : s ∈ segments cs) :
    '/' ∉ s := by
  intro hc
  exact absurd (not_of_mem_segmentsBy hs hc) (by decide)

/-! ### Climbing -/

theorem climb_nil (a : Anchor) (path : List Segment) : climb a path [] = path := by
  simp [climb]

theorem climb_of_isName {s : Segment} (hs : IsName s) (a : Anchor) (path : List Segment) :
    climb a path s = s :: path := by
  rw [climb.eq_def, if_neg (not_or.mpr ⟨hs.ne_nil, hs.ne_dot⟩), if_pos hs.ne_dotDot]

/-- Above a root there is nothing, so only names are left. -/
theorem isName_of_mem_climb {a : Anchor} (ha : a ≠ .here) {path : List Segment}
    (hpath : ∀ t ∈ path, IsName t) {s : Segment} (hs : '/' ∉ s) :
    ∀ t ∈ climb a path s, IsName t := by
  rw [climb.eq_def]
  by_cases hnothing : s = [] ∨ s = dot
  · rw [if_pos hnothing]
    exact hpath
  · rw [if_neg hnothing]
    obtain ⟨hne, hdot⟩ := not_or.mp hnothing
    by_cases hparent : s = dotDot
    · rw [if_neg (not_not.mpr hparent)]
      -- A parent segment takes the last name away; at the root itself it does nothing.
      cases path with
      | nil => simp [ha]
      | cons last rest =>
        have hlast := (hpath last List.mem_cons_self).ne_dotDot
        simp only [if_neg hlast]
        exact fun t ht => hpath t (List.mem_cons_of_mem _ ht)
    · rw [if_pos hparent]
      intro t ht
      rcases List.mem_cons.mp ht with rfl | ht
      · exact ⟨hne, hdot, hparent, hs⟩
      · exact hpath t ht

theorem isName_of_mem_collapse {a : Anchor} (ha : a ≠ .here) {ss : List Segment}
    (hss : ∀ s ∈ ss, '/' ∉ s) : ∀ t ∈ collapse a ss, IsName t := by
  -- The path climbed so far consists of names, whatever comes next.
  suffices h : ∀ path : List Segment, (∀ t ∈ path, IsName t) →
      ∀ t ∈ ss.foldl (climb a) path, IsName t by
    intro t ht
    exact h [] (by simp) t (List.mem_reverse.mp ht)
  induction ss with
  | nil => exact fun path hpath => hpath
  | cons s rest ih =>
    intro path hpath
    rw [List.foldl_cons]
    exact ih (fun t ht => hss t (List.mem_cons_of_mem _ ht)) _
      (isName_of_mem_climb ha hpath (hss s List.mem_cons_self))

theorem foldl_climb_of_isName {ss : List Segment} (hss : ∀ s ∈ ss, IsName s) (a : Anchor)
    (path : List Segment) : ss.foldl (climb a) path = ss.reverse ++ path := by
  induction ss generalizing path with
  | nil => rfl
  | cons s rest ih =>
    rw [List.foldl_cons, climb_of_isName (hss s List.mem_cons_self),
      ih fun t ht => hss t (List.mem_cons_of_mem _ ht)]
    simp

theorem collapse_of_isName {ss : List Segment} (hss : ∀ s ∈ ss, IsName s) (a : Anchor) :
    collapse a ss = ss := by
  rw [collapse, foldl_climb_of_isName hss, List.append_nil, List.reverse_reverse]

/-- Without parent segments only redundant ones are lost. -/
theorem collapse_of_not_mem {ss : List Segment} (hss : dotDot ∉ ss) (a : Anchor) :
    collapse a ss = ss.filter fun s => s ≠ [] ∧ s ≠ dot := by
  suffices h : ∀ path : List Segment, ss.foldl (climb a) path =
      (ss.filter fun s => s ≠ [] ∧ s ≠ dot).reverse ++ path by
    rw [collapse, h, List.append_nil, List.reverse_reverse]
  induction ss with
  | nil => exact fun path => rfl
  | cons s rest ih =>
    intro path
    obtain ⟨hs, hrest⟩ := List.ne_and_not_mem_of_not_mem_cons hss
    rw [List.foldl_cons, ih hrest, climb.eq_def]
    by_cases hnothing : s = [] ∨ s = dot
    · rw [if_pos hnothing, List.filter_cons_of_neg (by simpa [or_iff_not_imp_left] using hnothing)]
    · rw [if_neg hnothing, if_pos hs.symm,
        List.filter_cons_of_pos (by simpa [not_or] using hnothing)]
      simp

theorem collapse_nil_cons (a : Anchor) (ss : List Segment) :
    collapse a ([] :: ss) = collapse a ss := by
  rw [collapse, List.foldl_cons, climb_nil, collapse]

/-! ### Absolute texts -/

theorem isAbsolute_iff {cs : List Char} : isAbsolute cs = true ↔ ∃ rest, cs = '/' :: rest := by
  rw [isAbsolute, List.isPrefixOf_iff_prefix]
  constructor
  · rintro ⟨rest, rfl⟩
    exact ⟨rest, rfl⟩
  · rintro ⟨rest, rfl⟩
    exact ⟨rest, rfl⟩

theorem anchorOf_ne_here {cs : List Char} (h : isAbsolute cs = true) : anchorOf cs ≠ .here := by
  obtain ⟨rest, rfl⟩ := isAbsolute_iff.mp h
  rw [anchorOf.eq_def]
  split <;> simp_all

theorem rooted_read {cs : List Char} (h : isAbsolute cs = true) : Rooted (read cs) :=
  ⟨anchorOf_ne_here h, isName_of_mem_collapse (anchorOf_ne_here h)
    fun _ hs => not_mem_of_mem_segments hs⟩

theorem isAbsolute_append {directory : List Char} (h : isAbsolute directory = true)
    (cs : List Char) : isAbsolute (append directory cs) = true := by
  obtain ⟨rest, rfl⟩ := isAbsolute_iff.mp h
  rw [append]
  by_cases hcs : isAbsolute cs = true
  · rw [if_pos hcs]
    exact hcs
  · rw [if_neg hcs]
    split <;> exact isAbsolute_iff.mpr ⟨_, rfl⟩

/-! ### The text of a rooted path -/

theorem joined_append {as bs : List Segment} (ha : as ≠ []) (hb : bs ≠ []) :
    joined (as ++ bs) = joined as ++ '/' :: joined bs := by
  induction as with
  | nil => exact absurd rfl ha
  | cons a rest ih =>
    cases rest with
    | nil =>
      obtain ⟨b, more, rfl⟩ := List.exists_cons_of_ne_nil hb
      exact joined_cons_cons a b more
    | cons a' rest =>
      have hrest := ih (by simp)
      rw [List.cons_append] at hrest
      rw [List.cons_append, List.cons_append, joined_cons_cons, hrest, joined_cons_cons,
        List.append_assoc, List.cons_append]

theorem joined_ends {ss : List Segment} (hne : ss ≠ []) (hss : ∀ s ∈ ss, IsName s) :
    (∃ c rest, c ≠ '/' ∧ joined ss = c :: rest) ∧ (joined ss).getLast? ≠ some '/' := by
  induction ss with
  | nil => exact absurd rfl hne
  | cons s rest ih =>
    have hs := hss s List.mem_cons_self
    obtain ⟨c, more, rfl⟩ := List.exists_cons_of_ne_nil hs.ne_nil
    have hc : c ≠ '/' := fun h => hs.no_slash (h ▸ List.mem_cons_self)
    cases rest with
    | nil =>
      refine ⟨⟨c, more, hc, rfl⟩, fun hlast => ?_⟩
      exact hs.no_slash (List.mem_of_getLast? hlast)
    | cons t rest =>
      obtain ⟨⟨d, tail, hd, htail⟩, hlast⟩ :=
        ih (by simp) fun u hu => hss u (List.mem_cons_of_mem _ hu)
      rw [joined_cons_cons]
      refine ⟨⟨c, _, hc, rfl⟩, ?_⟩
      rw [htail] at hlast ⊢
      rw [List.getLast?_append, List.getLast?_cons_cons, List.getLast?_cons]
      rw [List.getLast?_cons] at hlast
      simpa using hlast

theorem Rooted.text_eq {p : Path} (hp : Rooted p) : p.text = p.anchor.text ++ joined p.names := by
  rw [text, if_neg fun h => hp.anchor_ne h.1]

/-- A text of names that follows an anchor does not change it. -/
theorem anchorOf_append {a : Anchor} (ha : a ≠ .here) {ss : List Segment}
    (hss : ∀ s ∈ ss, IsName s) : anchorOf (a.text ++ joined ss) = a := by
  by_cases hne : ss = []
  · subst hne
    cases a with
    | here => exact absurd rfl ha
    | root => rfl
    | twinRoot => rfl
  · obtain ⟨⟨c, rest, hc, hjoined⟩, -⟩ := joined_ends hne hss
    rw [hjoined]
    cases a with
    | here => exact absurd rfl ha
    | root =>
      show anchorOf ('/' :: c :: rest) = .root
      simp [anchorOf, hc]
    | twinRoot =>
      show anchorOf ('/' :: '/' :: c :: rest) = .twinRoot
      simp [anchorOf, hc]

theorem segments_cons_slash (cs : List Char) : segments ('/' :: cs) = [] :: segments cs :=
  segments_append_slash [] (by simp) cs

theorem segments_append (cs ds : List Char) :
    segments (cs ++ '/' :: ds) = segments cs ++ segments ds := by
  induction cs with
  | nil => exact segments_cons_slash ds
  | cons c cs ih =>
    simp only [segments] at ih ⊢
    by_cases h : c = '/'
    · simp [segmentsBy, h, ih]
    · cases hs : segmentsBy (· == '/') cs with
      | nil => exact absurd hs (segmentsBy_ne_nil _ _)
      | cons s more => simp [segmentsBy, h, ih, hs]

/-- The slashes of an anchor are no names. -/
theorem collapse_segments_append (a b : Anchor) (cs : List Char) :
    collapse a (segments (b.text ++ cs)) = collapse a (segments cs) := by
  cases b with
  | here => rfl
  | root => rw [Anchor.text, List.singleton_append, segments_cons_slash, collapse_nil_cons]
  | twinRoot =>
    show collapse a (segments ('/' :: '/' :: cs)) = _
    rw [segments_cons_slash, segments_cons_slash, collapse_nil_cons, collapse_nil_cons]

theorem collapse_segments_joined {ss : List Segment} (hss : ∀ s ∈ ss, IsName s) (a : Anchor) :
    collapse a (segments (joined ss)) = ss := by
  by_cases hne : ss = []
  · subst hne
    show collapse a [[]] = []
    rw [collapse_nil_cons]
    rfl
  · rw [segments_joined ss hne fun s hs => (hss s hs).no_slash, collapse_of_isName hss]

theorem read_text {p : Path} (hp : Rooted p) : read p.text = p := by
  -- First the anchor is found again, then the names.
  rw [hp.text_eq, read, anchorOf_append hp.anchor_ne hp.isName, collapse_segments_append,
    collapse_segments_joined hp.isName]

theorem normalize_text {p : Path} (hp : Rooted p) : normalize p.text = p.text := by
  rw [normalize, read_text hp]

theorem isAbsolute_text {p : Path} (hp : Rooted p) : isAbsolute p.text = true := by
  rw [hp.text_eq]
  have hanchor := hp.anchor_ne
  cases ha : p.anchor with
  | here => exact absurd ha hanchor
  | root => exact isAbsolute_iff.mpr ⟨_, rfl⟩
  | twinRoot => exact isAbsolute_iff.mpr ⟨_, rfl⟩

/-- An absolute text in normal form reads the same from everywhere. -/
theorem absolute_text {p : Path} (hp : Rooted p) (directory : List Char) :
    absolute directory p.text = p.text := by
  rw [absolute, append, if_pos (isAbsolute_text hp), normalize_text hp]

/-! ### Names put behind a path -/

/-- Only a root itself ends with a slash. -/
theorem getLast?_text_eq_slash_iff {p : Path} (hp : Rooted p) :
    p.text.getLast? = some '/' ↔ p.names = [] := by
  rw [hp.text_eq]
  constructor
  · intro hlast
    by_contra hne
    obtain ⟨⟨c, rest, -, hjoined⟩, hends⟩ := joined_ends hne hp.isName
    rw [hjoined] at hlast hends
    rw [List.getLast?_append, List.getLast?_cons] at hlast
    rw [List.getLast?_cons] at hends
    exact hends (by simpa using hlast)
  · intro hnil
    have hanchor := hp.anchor_ne
    rw [hnil]
    cases ha : p.anchor with
    | here => exact absurd ha hanchor
    | root => rfl
    | twinRoot => rfl

/-- Names stand behind a path after a slash, of which a root has its own. -/
theorem text_extended {p : Path} (hp : Rooted p) {ss : List Segment} (hne : ss ≠ [])
    (hss : ∀ s ∈ ss, IsName s) : (p.extended ss).text = below p.text ++ joined ss := by
  rw [(hp.extended hss).text_eq, below]
  by_cases hnames : p.names = []
  · rw [if_pos ((getLast?_text_eq_slash_iff hp).mpr hnames), hp.text_eq, hnames, extended, hnames]
    simp
  · rw [if_neg fun h => hnames ((getLast?_text_eq_slash_iff hp).mp h), hp.text_eq, extended]
    simp only [joined_append hnames hne, List.append_assoc, List.singleton_append]

theorem extended_nil (p : Path) : p.extended [] = p := by
  rw [extended, List.append_nil]

theorem extended_extended (p : Path) (ss ts : List Segment) :
    (p.extended ss).extended ts = p.extended (ss ++ ts) := by
  simp [extended]

theorem append_text {p : Path} (hp : Rooted p) {s : Segment} (hs : IsName s) :
    append p.text s = (p.extended [s]).text := by
  have hrelative : ¬ isAbsolute s = true := by
    rw [isAbsolute_iff]
    rintro ⟨rest, rfl⟩
    exact hs.no_slash List.mem_cons_self
  obtain ⟨rest, htext⟩ := isAbsolute_iff.mp (isAbsolute_text hp)
  rw [text_extended hp (by simp) (by simpa using hs), append, if_neg hrelative, below]
  by_cases hlast : p.text.getLast? = some '/'
  · rw [if_pos (Or.inr hlast), if_pos hlast, joined_singleton]
  · rw [if_neg (not_or.mpr ⟨by simp [htext], hlast⟩), if_neg hlast, joined_singleton,
      List.append_assoc, List.singleton_append]

theorem appendAll_text {p : Path} (hp : Rooted p) {ss : List Segment}
    (hss : ∀ s ∈ ss, IsName s) : appendAll p.text ss = (p.extended ss).text := by
  induction ss generalizing p with
  | nil => rw [extended_nil, appendAll, List.foldl_nil]
  | cons s rest ih =>
    have hs := hss s List.mem_cons_self
    have hrooted : Rooted (p.extended [s]) := hp.extended (by simpa using hs)
    -- With one name behind it the path is rooted again, and the other names follow.
    rw [appendAll, List.foldl_cons, append_text hp hs]
    rw [← appendAll, ih hrooted fun t ht => hss t (List.mem_cons_of_mem _ ht),
      extended_extended, List.singleton_append]

end PromptShelf.Path
