/-
Real locations.

The search for a real location goes where the names lead, as long as no path that it looks up on
the way is too long: what is found for a path is the location that its names lead to, and the only
fault at names that lead somewhere is a path that is too long.

The search goes into links that stand inside each other, as deep as there are links.  This is deep
enough: a link that needs a certain depth has one in it that needs just one less, and so on, and no
link needs two depths.

* **`Leads.leadsIn_linkCount`** — names that lead somewhere do so through links that are nested at
  most as deep as there are links;
* **`realize_eq_ok_iff`** — the search finds the location that names lead to, if it does not come to
  a path that is too long;
* **`size_le_of_realize`** — what is found for a path from the root is not too long itself.
-/
import Mathlib.Data.List.FinRange
import Mathlib.Data.List.Perm.Subperm
import Mathlib.Data.Nat.Find
import PromptShelf.Proofs.FileTree.Leading

namespace PromptShelf.FileTree

/-- Names lead from a location to another one, through links that are nested `depth` deep at
most. -/
inductive LeadsIn (t : FileTree) : Nat → Location → List Segment → Location → Prop
  | here (depth : Nat) (l : Location) : LeadsIn t depth l [] l
  | stay {depth : Nat} {l l' : Location} {s : Segment} {rest : List Segment}
      (hs : s = [] ∨ s = Path.dot) (h : LeadsIn t depth l rest l') :
      LeadsIn t depth l (s :: rest) l'
  | up {depth : Nat} {l l' : Location} {rest : List Segment}
      (h : LeadsIn t depth l.dropLast rest l') : LeadsIn t depth l (Path.dotDot :: rest) l'
  | down {depth : Nat} {l l' : Location} {s : Segment} {rest : List Segment} {n : Node}
      (hs : AsksEntry s) (hchild : t.child l s = .ok n) (hlink : ∀ target, n ≠ .link target)
      (h : LeadsIn t depth (l ++ [s]) rest l') : LeadsIn t depth l (s :: rest) l'
  | follow {depth : Nat} {l m l' : Location} {s : Segment} {rest : List Segment}
      {target : List Char} (hs : AsksEntry s) (hchild : t.child l s = .ok (.link target))
      (hto : LeadsIn t depth (targetStart target l) (Path.segments target) m)
      (h : LeadsIn t (depth + 1) m rest l') : LeadsIn t (depth + 1) l (s :: rest) l'

variable {t : FileTree} {l m l' : Location} {s : Segment} {names rest : List Segment}
  {depth depth' : Nat}

theorem LeadsIn.leads (h : LeadsIn t depth l names l') : Leads t l names l' := by
  induction h with
  | here depth l => exact .here l
  | stay hs _ ih => exact .stay hs ih
  | up _ ih => exact .up ih
  | down hs hchild hlink _ ih => exact .down hs hchild hlink ih
  | follow hs hchild _ _ ihTo ih => exact .follow hs hchild ihTo ih

theorem LeadsIn.mono (h : LeadsIn t depth l names l') (hle : depth ≤ depth') :
    LeadsIn t depth' l names l' := by
  induction h generalizing depth' with
  | here _ l => exact .here _ l
  | stay hs _ ih => exact .stay hs (ih hle)
  | up _ ih => exact .up (ih hle)
  | down hs hchild hlink _ ih => exact .down hs hchild hlink (ih hle)
  | follow hs hchild _ _ ihTo ih =>
    obtain ⟨more, rfl⟩ : ∃ more, depth' = more + 1 := ⟨depth' - 1, by omega⟩
    exact .follow hs hchild (ihTo (by omega)) (ih hle)

theorem Leads.exists_leadsIn (h : Leads t l names l') : ∃ depth, LeadsIn t depth l names l' := by
  induction h with
  | here l => exact ⟨0, .here 0 l⟩
  | stay hs _ ih =>
    obtain ⟨depth, hleads⟩ := ih
    exact ⟨depth, .stay hs hleads⟩
  | up _ ih =>
    obtain ⟨depth, hleads⟩ := ih
    exact ⟨depth, .up hleads⟩
  | down hs hchild hlink _ ih =>
    obtain ⟨depth, hleads⟩ := ih
    exact ⟨depth, .down hs hchild hlink hleads⟩
  | follow hs hchild _ _ ihTo ih =>
    obtain ⟨inner, hto⟩ := ihTo
    obtain ⟨depth, hleads⟩ := ih
    -- Room for the link itself and for what comes behind it.
    exact ⟨max inner depth + 1,
      .follow hs hchild (hto.mono (by omega)) (hleads.mono (by omega))⟩

/-! ### Links inside each other -/

/-- The names lead somewhere, and through links that are nested just so deep. -/
structure Needs (t : FileTree) (depth : Nat) (l : Location) (names : List Segment) : Prop where
  leads : ∃ l', LeadsIn t depth l names l'
  not_less : ∀ d < depth, ∀ l', ¬ LeadsIn t d l names l'

theorem Leads.exists_needs (h : Leads t l names l') : ∃ depth, Needs t depth l names := by
  classical
  obtain ⟨depth, hleads⟩ := h.exists_leadsIn
  have hsome : ∃ depth, ∃ l', LeadsIn t depth l names l' := ⟨depth, l', hleads⟩
  exact ⟨Nat.find hsome, Nat.find_spec hsome, fun d hd l' hl' => Nat.find_min hsome hd ⟨l', hl'⟩⟩

theorem Needs.unique (h : Needs t depth l names) (h' : Needs t depth' l names) :
    depth = depth' := by
  obtain ⟨l₁, hleads⟩ := h.leads
  obtain ⟨l₂, hleads'⟩ := h'.leads
  rcases Nat.lt_trichotomy depth depth' with hlt | heq | hgt
  · exact absurd hleads (h'.not_less depth hlt l₁)
  · exact heq
  · exact absurd hleads' (h.not_less depth' hgt l₂)

/-- A link stands at the location whose target needs the depth. -/
def LinkNeeds (t : FileTree) (depth : Nat) (place : Location) : Prop :=
  ∃ l s target, place = l ++ [s] ∧ t.child l s = .ok (.link target) ∧
    Needs t depth (targetStart target l) (Path.segments target)

theorem LinkNeeds.unique {place : Location} (h : LinkNeeds t depth place)
    (h' : LinkNeeds t depth' place) : depth = depth' := by
  obtain ⟨l, s, target, rfl, hchild, hneeds⟩ := h
  obtain ⟨l', s', target', heq, hchild', hneeds'⟩ := h'
  obtain ⟨rfl, hlast⟩ := List.append_inj' heq rfl
  obtain rfl := List.singleton_inj.mp hlast
  obtain rfl : target = target' := by simpa using hchild.symm.trans hchild'
  exact hneeds.unique hneeds'

/-- Without a link that needs the depth, one deeper is not needed. -/
theorem LeadsIn.of_not_linkNeeds (h : LeadsIn t (depth + 1) l names l')
    (hno : ∀ place, ¬ LinkNeeds t depth place) : LeadsIn t depth l names l' := by
  generalize hdeeper : depth + 1 = deeper at h
  induction h with
  | here _ l => exact .here _ l
  | stay hs _ ih => exact .stay hs (ih hdeeper)
  | up _ ih => exact .up (ih hdeeper)
  | down hs hchild hlink _ ih => exact .down hs hchild hlink (ih hdeeper)
  | @follow d l m l' s rest target hs hchild hto _ _ ih =>
    obtain rfl : depth = d := by omega
    -- The target does not need all of the depth, so there is room for the link itself.
    have hless : ∃ d < depth, ∃ m', LeadsIn t d (targetStart target l)
        (Path.segments target) m' := by
      by_contra hall
      push Not at hall
      exact hno _ ⟨l, s, target, rfl, hchild, ⟨m, hto⟩, hall⟩
    obtain ⟨d, hd, m', hto'⟩ := hless
    obtain ⟨less, rfl⟩ : ∃ less, depth = less + 1 := ⟨depth - 1, by omega⟩
    obtain rfl := hto'.leads.unique hto.leads
    exact .follow hs hchild (hto'.mono (by omega)) (ih hdeeper)

theorem Needs.exists_linkNeeds (h : Needs t (depth + 1) l names) :
    ∃ place, LinkNeeds t depth place := by
  obtain ⟨l', hleads⟩ := h.leads
  by_contra hno
  push Not at hno
  exact h.not_less depth (Nat.lt_succ_self depth) l' (hleads.of_not_linkNeeds hno)

/-- Every depth below the one that is needed is needed by a link. -/
theorem Needs.linkNeeds_of_lt (h : Needs t depth l names) {d : Nat} (hd : d < depth) :
    ∃ place, LinkNeeds t d place := by
  induction depth generalizing l names with
  | zero => omega
  | succ depth ih =>
    obtain ⟨place, hplace⟩ := h.exists_linkNeeds
    by_cases heq : d = depth
    · exact ⟨place, heq ▸ hplace⟩
    · obtain ⟨_, _, _, -, -, hneeds⟩ := hplace
      exact ih hneeds (by omega)

/-- Where links stand. -/
def linkPlaces (t : FileTree) : List Location :=
  (t.entries.filter fun e => match e.node with | .link _ => true | _ => false).map (·.location)

theorem length_linkPlaces (t : FileTree) : t.linkPlaces.length = t.linkCount := List.length_map _

theorem LinkNeeds.mem_linkPlaces {place : Location} (h : LinkNeeds t depth place) :
    place ∈ t.linkPlaces := by
  obtain ⟨l, s, target, rfl, hchild, -⟩ := h
  obtain ⟨-, -, hnode⟩ := child_eq_ok_iff.mp hchild
  rw [node?_of_ne_nil t (by simp)] at hnode
  obtain ⟨e, hfind, he⟩ := Option.map_eq_some_iff.mp hnode
  have hat : e.location = l ++ [s] := by simpa using List.find?_some hfind
  refine List.mem_map.mpr ⟨e, List.mem_filter.mpr ⟨List.mem_of_find?_eq_some hfind, ?_⟩, hat⟩
  rw [he]

/-- No names need more depth than there are links. -/
theorem Needs.le_linkCount (h : Needs t depth l names) : depth ≤ t.linkCount := by
  have hplaces : ∀ d : Fin depth, ∃ place, LinkNeeds t d place := fun d => h.linkNeeds_of_lt d.isLt
  choose place hplace using hplaces
  -- Links of different depth stand at different places.
  have hnodup : (List.ofFn place).Nodup := by
    rw [List.nodup_ofFn]
    intro d d' heq
    exact Fin.ext ((hplace d).unique (heq ▸ hplace d'))
  have hsub : List.ofFn place ⊆ t.linkPlaces := by
    intro p hp
    obtain ⟨d, rfl⟩ := List.mem_ofFn.mp hp
    exact (hplace d).mem_linkPlaces
  have hle := hnodup.length_le_of_subset hsub
  rwa [List.length_ofFn, length_linkPlaces] at hle

theorem Leads.leadsIn_linkCount (h : Leads t l names l') : LeadsIn t t.linkCount l names l' := by
  obtain ⟨depth, hneeds⟩ := h.exists_needs
  obtain ⟨m, hleads⟩ := hneeds.leads
  obtain rfl := hleads.leads.unique h
  exact hleads.mono hneeds.le_linkCount

/-! ### The search, name by name -/

variable {r r' : Reached} {n : Node} {target : List Char}

@[simp] theorem Reached.location_up (r : Reached) : r.up.location = r.location.dropLast := rfl

/-- A name is looked up in the directory, unless its path is too long. -/
theorem lookUp_cases (t : FileTree) (r : Reached) (s : Segment) :
    t.lookUp r s = .error .nameTooLong ∨ t.lookUp r s = t.child r.location s := by
  rw [lookUp]
  split
  · exact .inl rfl
  · exact .inr rfl

theorem lookUp_eq_ok_iff :
    t.lookUp r s = .ok n ↔ (r.text.down s).size ≤ maxPath ∧ t.child r.location s = .ok n := by
  rw [lookUp]
  split
  · next hlong => simp [Nat.not_le.mpr hlong]
  · next hshort => simp [Nat.not_lt.mp hshort]

theorem realizeFrom_nil (t : FileTree) (depth : Nat) (r : Reached) :
    t.realizeFrom depth r [] = .ok r := by
  rw [realizeFrom]

theorem realizeFrom_stay (hs : s = [] ∨ s = Path.dot) :
    t.realizeFrom depth r (s :: rest) = t.realizeFrom depth r rest := by
  rw [realizeFrom, if_pos hs]

theorem realizeFrom_up :
    t.realizeFrom depth r (Path.dotDot :: rest) = t.realizeFrom depth r.up rest := by
  rw [realizeFrom, if_neg (by decide), if_pos rfl]

theorem realizeFrom_down (hs : AsksEntry s) (hlookUp : t.lookUp r s = .ok n)
    (hlink : ∀ target, n ≠ .link target) :
    t.realizeFrom depth r (s :: rest) = t.realizeFrom depth (r.down s) rest := by
  rw [realizeFrom, if_neg hs.not_redundant, if_neg hs.ne_dotDot, hlookUp]
  cases n with
  | link target => exact absurd rfl (hlink target)
  | directory | file => rfl

theorem realizeFrom_follow (hs : AsksEntry s) (hlookUp : t.lookUp r s = .ok (.link target))
    (hto : t.realizeFrom depth (r.toTarget target) (Path.segments target) = .ok r') :
    t.realizeFrom (depth + 1) r (s :: rest) = t.realizeFrom (depth + 1) r' rest := by
  rw [realizeFrom, if_neg hs.not_redundant, if_neg hs.ne_dotDot, hlookUp]
  simp only [hto]

theorem realizeFrom_of_not_target (hs : AsksEntry s) (hlookUp : t.lookUp r s = .ok (.link target))
    {fault : FileFault}
    (hto : t.realizeFrom depth (r.toTarget target) (Path.segments target) = .error fault) :
    t.realizeFrom (depth + 1) r (s :: rest) = .error fault := by
  rw [realizeFrom, if_neg hs.not_redundant, if_neg hs.ne_dotDot, hlookUp]
  simp only [hto]

theorem realizeFrom_of_not_lookUp (hs : AsksEntry s) {fault : FileFault}
    (hlookUp : t.lookUp r s = .error fault) :
    t.realizeFrom depth r (s :: rest) = .error fault := by
  rw [realizeFrom, if_neg hs.not_redundant, if_neg hs.ne_dotDot, hlookUp]

theorem realizeFrom_append_of_ok (rest : List Segment) (h : t.realizeFrom depth r names = .ok r') :
    t.realizeFrom depth r (names ++ rest) = t.realizeFrom depth r' rest := by
  fun_induction realizeFrom t depth r names with
  | case1 =>
    obtain rfl := Except.ok.inj h
    rfl
  | case2 depth r s names hs ih =>
    rw [List.cons_append, realizeFrom_stay hs]
    exact ih h
  | case3 depth r names _ ih =>
    rw [List.cons_append, realizeFrom_up]
    exact ih h
  | case7 r s names hs hparent target hlookUp depth m hto _ ih =>
    rw [List.cons_append, realizeFrom_follow ⟨hs, hparent⟩ hlookUp hto]
    exact ih h
  | case8 depth r s names hs hparent n hlink hlookUp ih =>
    rw [List.cons_append, realizeFrom_down ⟨hs, hparent⟩ hlookUp hlink]
    exact ih h
  | case4 | case5 | case6 => exact absurd h (by simp)

/-! ### The search goes where names lead -/

theorem leads_of_realizeFrom (h : t.realizeFrom depth r names = .ok r') :
    Leads t r.location names r'.location := by
  fun_induction realizeFrom t depth r names generalizing r' with
  | case1 depth r =>
    obtain rfl := Except.ok.inj h
    exact .here _
  | case2 depth r s rest hs ih => exact .stay hs (ih h)
  | case3 depth r rest _ ih => exact .up (ih h)
  | case7 r s rest hs hparent target hlookUp depth m hto ihTo ih =>
    exact .follow ⟨hs, hparent⟩ (lookUp_eq_ok_iff.mp hlookUp).2 (ihTo hto) (ih h)
  | case8 depth r s rest hs hparent n hlink hlookUp ih =>
    exact .down ⟨hs, hparent⟩ (lookUp_eq_ok_iff.mp hlookUp).2 hlink (ih h)
  | case4 | case5 | case6 => exact absurd h (by simp)

/-- The search comes to where names lead, or to a path that is too long. -/
theorem realizeFrom_of_leadsIn (h : LeadsIn t depth r.location names l) :
    (∃ r', t.realizeFrom depth r names = .ok r' ∧ r'.location = l) ∨
      t.realizeFrom depth r names = .error .nameTooLong := by
  generalize hfrom : r.location = l₀ at h
  induction h generalizing r with
  | here => exact .inl ⟨r, realizeFrom_nil _ _ _, hfrom⟩
  | stay hs _ ih =>
    rw [realizeFrom_stay hs]
    exact ih hfrom
  | up _ ih =>
    rw [realizeFrom_up]
    exact ih (congrArg List.dropLast hfrom)
  | @down depth l _ s _ _ hs hchild hlink _ ih =>
    subst hfrom
    rcases lookUp_cases t r s with hlong | hsame
    · exact .inr (realizeFrom_of_not_lookUp hs hlong)
    · rw [realizeFrom_down hs (hsame.trans hchild) hlink]
      exact ih rfl
  | @follow depth l _ _ s _ _ hs hchild _ _ ihTo ih =>
    subst hfrom
    rcases lookUp_cases t r s with hlong | hsame
    · exact .inr (realizeFrom_of_not_lookUp hs hlong)
    · have hlookUp := hsame.trans hchild
      rcases ihTo (r := r.toTarget _) rfl with ⟨r', hto, hr'⟩ | hlong
      · rw [realizeFrom_follow hs hlookUp hto]
        exact ih hr'
      · exact .inr (realizeFrom_of_not_target hs hlookUp hlong)

variable {directory : Location} {p : FilePath}

theorem exists_realizeFrom_of_realize (h : t.realize directory p = .ok l) :
    ∃ r, t.realizeFrom t.linkCount (.start p directory) p.names = .ok r ∧ r.location = l := by
  rw [realize] at h
  cases hfrom : t.realizeFrom t.linkCount (.start p directory) p.names with
  | error fault => exact absurd h (by simp [hfrom, Except.map])
  | ok r => exact ⟨r, rfl, by simpa [hfrom, Except.map] using h⟩

theorem leads_of_realize (h : t.realize directory p = .ok l) :
    Leads t (p.start directory) p.names l := by
  obtain ⟨r, hfrom, rfl⟩ := exists_realizeFrom_of_realize h
  exact leads_of_realizeFrom hfrom

theorem realize_of_leads (h : Leads t (p.start directory) p.names l) :
    t.realize directory p = .ok l ∨ t.realize directory p = .error .nameTooLong := by
  rw [realize]
  rcases realizeFrom_of_leadsIn (r := .start p directory) h.leadsIn_linkCount with
    ⟨r, hfrom, rfl⟩ | hlong
  · exact .inl (by rw [hfrom]; rfl)
  · exact .inr (by rw [hlong]; rfl)

/-- The real location of a path is where its names lead, and there is one unless a path on the way
is too long. -/
theorem realize_eq_ok_iff : t.realize directory p = .ok l ↔
    Leads t (p.start directory) p.names l ∧ t.realize directory p ≠ .error .nameTooLong := by
  constructor
  · exact fun h => ⟨leads_of_realize h, by simp [h]⟩
  · rintro ⟨hleads, hshort⟩
    exact (realize_of_leads hleads).resolve_right hshort

/-! ### Paths from the root -/

/-- What is reached is looked up by its location, from the root, which is not too long. -/
structure Reached.IsAbsolute (r : Reached) : Prop where
  text_eq : r.text = ⟨true, r.location⟩
  size_le : (FilePath.mk true r.location).size ≤ maxPath

theorem Reached.isAbsolute_root : Reached.IsAbsolute ⟨[], ⟨true, []⟩⟩ := ⟨rfl, by decide⟩

theorem Reached.isAbsolute_start (hroot : p.fromRoot = true) :
    (Reached.start p directory).IsAbsolute := by
  rw [Reached.start, FilePath.start, if_pos hroot, hroot]
  exact isAbsolute_root

theorem Reached.IsAbsolute.down (h : r.IsAbsolute)
    (hsize : (FilePath.mk true (r.location ++ [s])).size ≤ maxPath) : (r.down s).IsAbsolute :=
  ⟨by rw [Reached.down, h.text_eq]; rfl, hsize⟩

theorem Reached.IsAbsolute.lookUp_eq_ok_iff (h : r.IsAbsolute) : t.lookUp r s = .ok n ↔
    (FilePath.mk true (r.location ++ [s])).size ≤ maxPath ∧ t.child r.location s = .ok n := by
  rw [FileTree.lookUp_eq_ok_iff, h.text_eq]
  rfl

theorem Reached.IsAbsolute.up (h : r.IsAbsolute) : r.up.IsAbsolute := by
  refine ⟨by rw [Reached.up, h.text_eq]; rfl, ?_⟩
  rcases List.eq_nil_or_concat' r.location with hnil | ⟨l, s, hconcat⟩
  · simpa [hnil] using h.size_le
  · have hle := h.size_le
    rw [hconcat] at hle
    rw [location_up, hconcat, List.dropLast_concat]
    exact Nat.le_trans (size_le_size_append l [s]) hle

theorem Reached.IsAbsolute.toTarget (h : r.IsAbsolute) (target : List Char) :
    (r.toTarget target).IsAbsolute := by
  rw [Reached.toTarget, targetStart]
  split
  · exact isAbsolute_root
  · exact h

/-- A search from the root stays there. -/
theorem Reached.IsAbsolute.realizeFrom (hr : r.IsAbsolute)
    (h : t.realizeFrom depth r names = .ok r') : r'.IsAbsolute := by
  fun_induction FileTree.realizeFrom t depth r names generalizing r' with
  | case1 depth r =>
    obtain rfl := Except.ok.inj h
    exact hr
  | case2 depth r s rest hs ih => exact ih hr h
  | case3 depth r rest _ ih => exact ih hr.up h
  | case7 r s rest hs hparent target hlookUp depth m hto ihTo ih =>
    exact ih (ihTo (hr.toTarget target) hto) h
  | case8 depth r s rest hs hparent n hlink hlookUp ih =>
    exact ih (hr.down (hr.lookUp_eq_ok_iff.mp hlookUp).1) h
  | case4 | case5 | case6 => exact absurd h (by simp)

theorem size_le_of_realize (hroot : p.fromRoot = true) (h : t.realize directory p = .ok l) :
    (FilePath.mk true l).size ≤ maxPath := by
  obtain ⟨r, hfrom, rfl⟩ := exists_realizeFrom_of_realize h
  exact ((Reached.isAbsolute_start hroot).realizeFrom hfrom).size_le

end PromptShelf.FileTree
