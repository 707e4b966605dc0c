/-
Where names lead.

`Leads` says where names lead in a tree, without a limit: a name leads to what stands under it, a
link to where its target leads from there, and a parent segment takes the last name away, whatever
it names.  Links in a loop lead nowhere.

A walk of the system asks for more: a directory before every parent segment, and not too many links.
If it ends, it has come to where the names lead.

* **`Leads.unique`** — names lead to one location at most;
* **`Leads.stands`** — something stands where names lead, in a directory;
* **`leads_of_walk`** — a walk that ends has come to where the names lead.
-/
import PromptShelf.Proofs.FileTree.Writing

namespace PromptShelf.FileTree

/-- A segment that asks for an entry, neither redundant nor for the parent. -/
structure AsksEntry (s : Segment) : Prop where
  not_redundant : ¬ (s = [] ∨ s = Path.dot)
  ne_dotDot : s ≠ Path.dotDot

theorem asksEntry_of_isName {s : Segment} (hs : Path.IsName s) : AsksEntry s :=
  ⟨not_or.mpr ⟨hs.ne_nil, hs.ne_dot⟩, hs.ne_dotDot⟩

/-- From a location, names lead to another one. -/
inductive Leads (t : FileTree) : Location → List Segment → Location → Prop
  | here (l : Location) : Leads t l [] l
  | stay {l l' : Location} {s : Segment} {rest : List Segment} (hs : s = [] ∨ s = Path.dot)
      (h : Leads t l rest l') : Leads t l (s :: rest) l'
  | up {l l' : Location} {rest : List Segment} (h : Leads t l.dropLast rest l') :
      Leads t l (Path.dotDot :: rest) l'
  | down {l l' : Location} {s : Segment} {rest : List Segment} {n : Node} (hs : AsksEntry s)
      (hchild : t.child l s = .ok n) (hlink : ∀ target, n ≠ .link target)
      (h : Leads t (l ++ [s]) rest l') : Leads t l (s :: rest) l'
  | follow {l m l' : Location} {s : Segment} {rest : List Segment} {target : List Char}
      (hs : AsksEntry s) (hchild : t.child l s = .ok (.link target))
      (hto : Leads t (targetStart target l) (Path.segments target) m) (h : Leads t m rest l') :
      Leads t l (s :: rest) l'

variable {t : FileTree} {l m l' : Location} {s : Segment} {names rest : List Segment}

theorem Leads.unique (h : Leads t l names m) (h' : Leads t l names l') : m = l' := by
  induction h generalizing l' with
  | here =>
    cases h'
    rfl
  | stay hs _ ih =>
    cases h' with
    | stay _ h' => exact ih h'
    | up => exact absurd hs (by decide)
    | down hasks | follow hasks => exact absurd hs hasks.not_redundant
  | up _ ih =>
    cases h' with
    | stay hs => exact absurd hs (by decide)
    | up h' => exact ih h'
    | down hasks | follow hasks => exact absurd rfl hasks.ne_dotDot
  | down hasks hchild hlink _ ih =>
    cases h' with
    | stay hs => exact absurd hs hasks.not_redundant
    | up => exact absurd rfl hasks.ne_dotDot
    | down _ _ _ h' => exact ih h'
    | follow _ hchild' => exact absurd (Except.ok.inj (hchild.symm.trans hchild')) (hlink _)
  | follow hasks hchild _ _ ihTo ih =>
    cases h' with
    | stay hs => exact absurd hs hasks.not_redundant
    | up => exact absurd rfl hasks.ne_dotDot
    | down _ hchild' hlink => exact absurd (Except.ok.inj (hchild'.symm.trans hchild)) (hlink _)
    | follow _ hchild' hto' h' =>
      obtain rfl := Node.link.inj (Except.ok.inj (hchild.symm.trans hchild'))
      obtain rfl := ihTo hto'
      exact ih h'

/-! ### Names behind each other -/

theorem leads_nil_iff : Leads t l [] l' ↔ l' = l := by
  constructor
  · rintro ⟨⟩
    rfl
  · rintro rfl
    exact .here l'

theorem leads_append_iff : Leads t l (names ++ rest) l' ↔
    ∃ m, Leads t l names m ∧ Leads t m rest l' := by
  constructor
  · intro h
    induction names generalizing l with
    | nil => exact ⟨l, .here l, h⟩
    | cons s names ih =>
      rw [List.cons_append] at h
      cases h with
      | stay hs h =>
        obtain ⟨m, hto, hfrom⟩ := ih h
        exact ⟨m, .stay hs hto, hfrom⟩
      | up h =>
        obtain ⟨m, hto, hfrom⟩ := ih h
        exact ⟨m, .up hto, hfrom⟩
      | down hs hchild hlink h =>
        obtain ⟨m, hto, hfrom⟩ := ih h
        exact ⟨m, .down hs hchild hlink hto, hfrom⟩
      | follow hs hchild htarget h =>
        obtain ⟨m, hto, hfrom⟩ := ih h
        exact ⟨m, .follow hs hchild htarget hto, hfrom⟩
  · rintro ⟨m, hto, hfrom⟩
    induction hto with
    | here => exact hfrom
    | stay hs _ ih => exact .stay hs (ih hfrom)
    | up _ ih => exact .up (ih hfrom)
    | down hs hchild hlink _ ih => exact .down hs hchild hlink (ih hfrom)
    | follow hs hchild htarget _ _ ih => exact .follow hs hchild htarget (ih hfrom)

theorem leads_stay_iff (hs : s = [] ∨ s = Path.dot) :
    Leads t l (s :: rest) l' ↔ Leads t l rest l' := by
  refine ⟨fun h => ?_, .stay hs⟩
  cases h with
  | stay _ h => exact h
  | up => exact absurd hs (by decide)
  | down hasks | follow hasks => exact absurd hs hasks.not_redundant

/-- Redundant segments may be left out. -/
theorem leads_filter_iff {keep : Segment → Bool}
    (hkeep : ∀ s, keep s = false → s = [] ∨ s = Path.dot) :
    Leads t l (names.filter keep) l' ↔ Leads t l names l' := by
  induction names generalizing l with
  | nil => rfl
  | cons s names ih =>
    cases hs : keep s with
    | false =>
      rw [List.filter_cons_of_neg (by simp [hs]), ih, leads_stay_iff (hkeep s hs)]
    | true =>
      rw [List.filter_cons_of_pos hs, ← List.singleton_append, leads_append_iff,
        ← List.singleton_append (l := names), leads_append_iff]
      exact exists_congr fun m => and_congr_right fun _ => ih

theorem leads_targetNames_iff {target : List Char} :
    Leads t l (targetNames target) l' ↔ Leads t l (Path.segments target) l' := by
  have hfilter : Leads t l ((Path.segments target).filter (· ≠ [])) l' ↔
      Leads t l (Path.segments target) l' := leads_filter_iff fun s hs => .inl (by simpa using hs)
  rw [targetNames, leads_append_iff, ← hfilter]
  split
  · simp only [leads_stay_iff (Or.inl rfl), leads_nil_iff, exists_eq_right']
  · simp only [leads_nil_iff, exists_eq_right']

theorem child_eq_ok_iff {n : Node} : t.child l s = .ok n ↔
    t.node? l = some .directory ∧ isTooLong s = false ∧ t.node? (l ++ [s]) = some n := by
  rw [child]
  cases hl : t.node? l with
  | none => simp
  | some above =>
    cases above with
    | directory =>
      cases isTooLong s <;> cases t.node? (l ++ [s]) <;> simp
    | file | link => simp

/-! ### What stands there -/

/-- Something stands at the location and directories on the way to it, under names that are not
too long. -/
structure Stands (t : FileTree) (l : Location) : Prop where
  exists_node : ∃ n, t.node? l = some n
  above : ∀ l' s rest, l = l' ++ s :: rest → t.node? l' = some .directory
  short : ∀ s ∈ l, isTooLong s = false

theorem stands_nil (t : FileTree) : Stands t [] :=
  ⟨⟨_, node?_nil t⟩, fun l' s rest h => absurd h (by simp), fun s h => absurd h (by simp)⟩

theorem Stands.of_append (h : Stands t (l ++ names)) : Stands t l := by
  refine ⟨?_, ?_, fun s hs => h.short s (List.mem_append_left names hs)⟩
  · cases names with
    | nil => simpa using h.exists_node
    | cons s rest => exact ⟨_, h.above l s rest rfl⟩
  · rintro l' s rest rfl
    exact h.above l' s (rest ++ names) (by simp)

theorem Stands.dropLast (h : Stands t l) : Stands t l.dropLast := by
  rcases List.eq_nil_or_concat' l with rfl | ⟨l, s, rfl⟩
  · exact h
  · rw [List.dropLast_concat]
    exact h.of_append

theorem Stands.child (h : Stands t l) {n : Node} (hchild : t.child l s = .ok n) :
    Stands t (l ++ [s]) := by
  obtain ⟨hdirectory, hshort, hnode⟩ := child_eq_ok_iff.mp hchild
  refine ⟨⟨n, hnode⟩, fun l' s' rest heq => ?_, ?_⟩
  · rcases List.eq_nil_or_concat' rest with rfl | ⟨rest, s'', rfl⟩
    · obtain ⟨rfl, -⟩ := List.append_inj' heq rfl
      exact hdirectory
    · rw [← List.cons_append, ← List.append_assoc] at heq
      obtain ⟨rfl, -⟩ := List.append_inj' heq rfl
      exact h.above l' s' rest rfl
  · exact List.forall_mem_append.mpr ⟨h.short, List.forall_mem_singleton.mpr hshort⟩

/-- What stands below a directory stands under its names. -/
theorem Stands.exists_child (h : Stands t (l ++ s :: rest)) :
    ∃ n, t.child l s = .ok n ∧ (rest ≠ [] → n = .directory) := by
  have hlonger : l ++ s :: rest = (l ++ [s]) ++ rest := by simp
  obtain ⟨n, hnode⟩ := (Stands.of_append (hlonger ▸ h)).exists_node
  have hdirectory := h.above l s rest rfl
  refine ⟨n, child_eq_ok_iff.mpr ⟨hdirectory, h.short s (by simp), hnode⟩, fun hrest => ?_⟩
  obtain ⟨s', rest, rfl⟩ := List.exists_cons_of_ne_nil hrest
  have habove := h.above (l ++ [s]) s' rest hlonger
  exact Option.some.inj (hnode.symm.trans habove)

theorem Stands.targetStart (h : Stands t l) (target : List Char) :
    Stands t (targetStart target l) := by
  rw [FileTree.targetStart]
  split
  · exact stands_nil t
  · exact h

/-- Names lead from what stands in the tree to what stands in the tree. -/
theorem Leads.stands (h : Leads t l names l') (hl : Stands t l) : Stands t l' := by
  induction h with
  | here => exact hl
  | stay _ _ ih => exact ih hl
  | up _ ih => exact ih hl.dropLast
  | down _ hchild _ _ ih => exact ih (hl.child hchild)
  | follow _ _ _ _ ihTo ih => exact ih (ihTo (hl.targetStart _))

/-! ### Walks -/

theorem leads_of_walk {links : Nat} (h : t.walk .followed links l names = .ok l') :
    Leads t l names l' := by
  generalize hlast : Lookup.followed = last at h
  fun_induction walk t last links l names generalizing l' with
  | case1 links l =>
    obtain rfl := Except.ok.inj h
    exact .here l
  | case2 links l s rest hs _ ih => exact .stay hs (ih h)
  | case4 links l rest _ _ ih => exact .up (ih h)
  | case12 l s rest hs hparent _ target hchild _ links ih =>
    -- The walk goes through the target's names in place of the link's.
    obtain ⟨m, hto, hfrom⟩ := leads_append_iff.mp (ih h)
    exact .follow ⟨hs, hparent⟩ hchild (leads_targetNames_iff.mp hto) hfrom
  | case13 links l s rest hs hparent _ n hlink hchild ih =>
    exact .down ⟨hs, hparent⟩ hchild hlink (ih h)
  | case7 _ _ _ _ _ _ _ _ hmake => exact absurd (hlast.trans hmake.1) (by simp)
  | case10 _ _ _ _ _ _ _ _ _ hitself => exact absurd (hlast.trans hitself.1) (by simp)
  | case3 | case5 | case6 | case8 | case9 | case11 => exact absurd h (by simp)

variable {links : Nat} {fault : FileFault}

theorem walk_down (hs : AsksEntry s) {n : Node} (hchild : t.child l s = .ok n)
    (hlink : ∀ target, n ≠ .link target) :
    t.walk .followed links l (s :: rest) = t.walk .followed links (l ++ [s]) rest := by
  rw [walk, if_neg hs.not_redundant, if_neg hs.ne_dotDot, if_neg (by simp), hchild]
  cases n with
  | link target => exact absurd rfl (hlink target)
  | directory | file => rfl

theorem walk_follow (hs : AsksEntry s) {target : List Char}
    (hchild : t.child l s = .ok (.link target)) :
    t.walk .followed (links + 1) l (s :: rest) =
      t.walk .followed links (targetStart target l) (targetNames target ++ rest) := by
  rw [walk, if_neg hs.not_redundant, if_neg hs.ne_dotDot, if_neg (by simp), hchild]
  simp

theorem walk_of_not_child (hs : AsksEntry s) (hchild : t.child l s = .error fault) :
    t.walk .followed links l (s :: rest) = .error fault := by
  rw [walk, if_neg hs.not_redundant, if_neg hs.ne_dotDot, if_neg (by simp), hchild]
  cases fault <;> simp

theorem walk_without_links (hs : AsksEntry s) {target : List Char}
    (hchild : t.child l s = .ok (.link target)) :
    t.walk .followed 0 l (s :: rest) = .error .linkLoop := by
  rw [walk, if_neg hs.not_redundant, if_neg hs.ne_dotDot, if_neg (by simp), hchild]
  simp

/-- A walk goes on where it has come to, with the links that are left. -/
theorem walk_append_of_ok (rest : List Segment) (h : t.walk .followed links l names = .ok m) :
    ∃ left, t.walk .followed links l (names ++ rest) = t.walk .followed left m rest := by
  generalize hlast : Lookup.followed = last at h
  fun_induction walk t last links l names with
  | case1 links l =>
    obtain rfl := Except.ok.inj h
    exact ⟨links, rfl⟩
  | case2 links l s names hs hdirectory ih =>
    obtain ⟨left, heq⟩ := ih h
    refine ⟨left, ?_⟩
    rw [List.cons_append, walk, if_pos hs, if_pos hdirectory, heq]
  | case4 links l names hdirectory _ ih =>
    obtain ⟨left, heq⟩ := ih h
    refine ⟨left, ?_⟩
    rw [List.cons_append, walk, if_neg (by decide), if_pos rfl, if_pos hdirectory, heq]
  | case12 l s names hs hparent _ target hchild _ links ih =>
    subst hlast
    obtain ⟨left, heq⟩ := ih h
    refine ⟨left, ?_⟩
    rw [List.cons_append, walk_follow ⟨hs, hparent⟩ hchild, ← List.append_assoc, heq]
  | case13 links l s names hs hparent _ n hlink hchild ih =>
    subst hlast
    obtain ⟨left, heq⟩ := ih h
    refine ⟨left, ?_⟩
    rw [List.cons_append, walk_down ⟨hs, hparent⟩ hchild hlink, heq]
  | case7 _ _ _ _ _ _ _ _ hmake => exact absurd (hlast.trans hmake.1) (by simp)
  | case10 _ _ _ _ _ _ _ _ _ hitself => exact absurd (hlast.trans hitself.1) (by simp)
  | case3 | case5 | case6 | case8 | case9 | case11 => exact absurd h (by simp)

/-- A walk that fails fails in the same way with more names behind. -/
theorem walk_append_of_error (rest : List Segment)
    (hwalk : t.walk .followed links l names = .error fault) :
    t.walk .followed links l (names ++ rest) = .error fault := by
  generalize hlast : Lookup.followed = last at hwalk
  fun_induction walk t last links l names with
  | case1 => exact absurd hwalk (by simp)
  | case2 links l s names hs hdirectory ih =>
    rw [List.cons_append, walk, if_pos hs, if_pos hdirectory]
    exact ih hwalk
  | case3 links l s names hs hdirectory =>
    rw [List.cons_append, walk, if_pos hs, if_neg hdirectory]
    exact hwalk
  | case4 links l names hdirectory _ ih =>
    rw [List.cons_append, walk, if_neg (by decide), if_pos rfl, if_pos hdirectory]
    exact ih hwalk
  | case5 links l names hdirectory _ =>
    rw [List.cons_append, walk, if_neg (by decide), if_pos rfl, if_neg hdirectory]
    exact hwalk
  | case8 links l s names hs hparent _ hchild _ =>
    subst hlast
    obtain rfl := Except.error.inj hwalk
    exact walk_of_not_child ⟨hs, hparent⟩ hchild
  | case9 links l s names hs hparent _ fault' _ hchild =>
    subst hlast
    obtain rfl := Except.error.inj hwalk
    exact walk_of_not_child ⟨hs, hparent⟩ hchild
  | case11 l s names hs hparent _ target hchild _ =>
    subst hlast
    obtain rfl := Except.error.inj hwalk
    exact walk_without_links ⟨hs, hparent⟩ hchild
  | case12 l s names hs hparent _ target hchild _ links ih =>
    subst hlast
    rw [List.cons_append, walk_follow ⟨hs, hparent⟩ hchild, ← List.append_assoc]
    exact ih hwalk
  | case13 links l s names hs hparent _ n hlink hchild ih =>
    subst hlast
    rw [List.cons_append, walk_down ⟨hs, hparent⟩ hchild hlink]
    exact ih hwalk
  | case6 _ _ _ _ _ _ hmake => exact absurd (hlast.trans hmake.1) (by simp)
  | case7 _ _ _ _ _ _ _ _ hmake => exact absurd (hlast.trans hmake.1) (by simp)
  | case10 _ _ _ _ _ _ _ _ _ hitself => exact absurd (hlast.trans hitself.1) (by simp)

end PromptShelf.FileTree
