/-
How often redaction expands a container.

Redaction is the recursion without a bound on its depth (`Visits`).  Nothing gets smaller in that
recursion, for a place leads back to a container that is entered already; but each container of
the heap is met once, so what is left to be met gets less, and the depth that redaction is given is
never used up.

Redaction knows of places and of the empty tuple, and of no other containers: those that stand in
the value, or inside another container, are come by on one way only.  So the two agree on what
they have seen as long as the spots that are still ahead were not seen (`Tracks`).

* **`exists_visits`**, **`exists_visits_place`** — redaction is the recursion, in a value and at a
  place;
* **`redact_expands_once`** — so the recursion comes to its end and expands every container once at
  most.
-/
import Mathlib.Data.Set.Card
import PromptShelf.Proofs.Log.Recurrence
import PromptShelf.Proofs.Log.Visits

namespace PromptShelf.Log

open JsonText

variable {heap : Heap}

/-- Everything that stands there or inside. -/
def Spot.Inside (s t : Spot) : Prop := t.root = s.root ∧ s.position <:+ t.position

/-- Everything inside the parts from a position on. -/
def Spot.InsideFrom (s : Spot) (n : Nat) (t : Spot) : Prop := ∃ m, n ≤ m ∧ (s.part m).Inside t

/-- No spot at all. -/
def Nowhere (_ : Spot) : Prop := False

/-- The spot is in the value that is copied or in a container that was met. -/
def Seen.Entered (seen : Seen) (s : Spot) : Prop := ∀ p, s.root = some p → p ∈ seen.places

/-- The container at a place is one of these. -/
def Recorded (heap : Heap) (nodes : List Node) (p : Nat) : Prop :=
  ∀ w node, heap[p]? = some w → node? (.place p) w = some node → node ∈ nodes

/-- Redaction has seen the same as the recursion, with these spots still ahead of it. -/
structure Tracks (heap : Heap) (ahead : Spot → Prop) (seen : Seen) (nodes : List Node) : Prop where
  emptyTuple_iff : .emptyTuple ∈ nodes ↔ seen.emptyTuple = true
  recorded : ∀ p ∈ seen.places, ¬ ahead (.place p) → Recorded heap nodes p
  entered : ∀ t, .standing t ∈ nodes ∨ ahead t → seen.Entered t
  notMem : ∀ t, ahead t → .standing t ∉ nodes

/-- Between two states these spots were gone through; what else was seen is in containers that
were met on the way. -/
structure Advances (heap : Heap) (depth : Nat) (through : Spot → Prop) (seen : Seen)
    (nodes : List Node) (seen' : Seen) (nodes' : List Node) : Prop where
  tracks : Tracks heap Nowhere seen' nodes'
  unmet : Unmet heap depth seen'.places
  subset : seen.places ⊆ seen'.places
  mem_or : ∀ t, seen.Entered t → .standing t ∈ nodes' → .standing t ∈ nodes ∨ through t

section Tracks

variable {depth : Nat} {s t : Spot} {n : Nat} {v : Value} {ahead through : Spot → Prop}
  {seen seen' seen'' : Seen} {nodes nodes' nodes'' : List Node}

theorem Spot.inside_self (s : Spot) : s.Inside s := ⟨rfl, List.suffix_refl _⟩

theorem Spot.inside_of_part (h : (s.part n).Inside t) : s.Inside t :=
  ⟨h.1, (List.suffix_cons n s.position).trans h.2⟩

/-- Different parts have nothing in common. -/
theorem Spot.part_inj {m : Nat} (h : (s.part m).Inside t) (h' : (s.part n).Inside t) : m = n := by
  have heq : m :: s.position = n :: s.position :=
    List.IsSuffix.eq_of_length (List.suffix_of_suffix_length_le h.2 h'.2 (by simp)) (by simp)
  exact (List.cons.inj heq).1

theorem Spot.not_insideFrom_place {p : Nat} : ¬ s.InsideFrom n (.place p) := by
  rintro ⟨m, -, h⟩
  simpa [Spot.part, Spot.place] using h.2.length_le

theorem Spot.eq_place {p : Nat} (h : s.Inside (.place p)) : s = .place p := by
  obtain ⟨root, position⟩ := s
  obtain ⟨hroot, hposition⟩ := h
  obtain rfl : some p = root := hroot
  obtain rfl : position = [] := List.suffix_nil.mp hposition
  rfl

theorem Seen.Entered.mono (h : seen.Entered t) (hsub : seen.places ⊆ seen'.places) :
    seen'.Entered t :=
  fun p hp => hsub (h p hp)

/-- Inside a value everything is entered with it. -/
theorem Seen.Entered.inside (h : seen.Entered s) (ht : s.Inside t) : seen.Entered t :=
  fun p hp => h p (ht.1 ▸ hp)

theorem Tracks.initial (heap : Heap) : Tracks heap (Spot.Inside {}) {} [] where
  emptyTuple_iff := iff_of_false List.not_mem_nil (by simp)
  recorded := fun p hp => absurd hp List.not_mem_nil
  entered := by
    rintro t (ht | ht) p hp
    · exact absurd ht List.not_mem_nil
    · exact absurd (ht.1.symm.trans hp) (by simp)
  notMem := fun _ _ => List.not_mem_nil

/-- Where only parts are ahead, all containers that were met are recorded. -/
theorem Tracks.recorded_of_parts (h : Tracks heap (s.InsideFrom n) seen nodes) :
    ∀ p ∈ seen.places, Recorded heap nodes p :=
  fun p hp => h.recorded p hp Spot.not_insideFrom_place

/-- Where a value is ahead, so are they with the container that the value is. -/
theorem Tracks.recorded_of_value (h : Tracks heap s.Inside seen nodes)
    (hv : ∀ p, s = .place p → heap[p]? = some v) (hsub : nodes ⊆ nodes')
    (hnode : ∀ node, node? s v = some node → node ∈ nodes') :
    ∀ p ∈ seen.places, Recorded heap nodes' p := by
  intro p hp w node hw hw'
  by_cases hs : s.Inside (.place p)
  · obtain rfl := Spot.eq_place hs
    obtain rfl := Option.some.inj ((hv p rfl).symm.trans hw)
    exact hnode node hw'
  · exact hsub (h.recorded p hp hs w node hw hw')

/-- Less is ahead. -/
theorem Tracks.restrict {ahead' : Spot → Prop} (h : Tracks heap ahead seen nodes)
    (hsub : ∀ t, ahead' t → ahead t) (hrecorded : ∀ p ∈ seen.places, Recorded heap nodes p) :
    Tracks heap ahead' seen nodes where
  emptyTuple_iff := h.emptyTuple_iff
  recorded p hp _ := hrecorded p hp
  entered t ht := h.entered t (ht.imp_right (hsub t))
  notMem t ht := h.notMem t (hsub t ht)

/-- What stands here is a container that was seen already, or none. -/
theorem Tracks.close (h : Tracks heap s.Inside seen nodes)
    (hv : ∀ p, s = .place p → heap[p]? = some v)
    (hnode : ∀ node, node? s v = some node → node ∈ nodes) : Tracks heap Nowhere seen nodes :=
  h.restrict (fun _ h => h.elim) (h.recorded_of_value hv (List.Subset.refl nodes) hnode)

theorem Tracks.first (h : Tracks heap (s.InsideFrom n) seen nodes) :
    Tracks heap (s.part n).Inside seen nodes :=
  h.restrict (fun _ ht => ⟨n, Nat.le_refl n, ht⟩) h.recorded_of_parts

theorem Tracks.skip (h : Tracks heap (s.InsideFrom n) seen nodes) :
    Tracks heap (s.InsideFrom (n + 1)) seen nodes :=
  h.restrict (fun _ ⟨m, hm, ht⟩ => ⟨m, by omega, ht⟩) h.recorded_of_parts

theorem Tracks.done (h : Tracks heap (s.InsideFrom n) seen nodes) :
    Tracks heap Nowhere seen nodes :=
  h.restrict (fun _ h => h.elim) h.recorded_of_parts

/-- A container is entered, and its parts are ahead. -/
theorem Tracks.expand (h : Tracks heap s.Inside seen nodes)
    (hv : ∀ p, s = .place p → heap[p]? = some v) (hnode : node? s v = some (.standing s)) :
    Tracks heap (s.InsideFrom 0) seen (.standing s :: nodes) where
  emptyTuple_iff := by simpa using h.emptyTuple_iff
  recorded p hp _ := by
    refine h.recorded_of_value hv (List.subset_cons_self _ nodes) (fun node hnode' => ?_) p hp
    obtain rfl := Option.some.inj (hnode.symm.trans hnode')
    exact List.mem_cons_self
  entered := by
    have hs : seen.Entered s := h.entered s (.inr s.inside_self)
    rintro t (ht | ⟨m, -, ht⟩)
    · rcases List.mem_cons.mp ht with heq | ht
      · obtain rfl := Node.standing.inj heq
        exact hs
      · exact h.entered t (.inl ht)
    · exact hs.inside (Spot.inside_of_part ht)
  notMem := by
    rintro t ⟨m, -, ht⟩ hmem
    rcases List.mem_cons.mp hmem with heq | hmem
    · obtain rfl := Node.standing.inj heq
      simpa [Spot.part] using ht.2.length_le
    · exact h.notMem t (Spot.inside_of_part ht) hmem

/-- The empty tuple is met for the first time. -/
theorem Tracks.emptyTuple (h : Tracks heap s.Inside seen nodes)
    (hv : ∀ p, s = .place p → heap[p]? = some (.tuple [])) :
    Tracks heap Nowhere { seen with emptyTuple := true } (.emptyTuple :: nodes) where
  emptyTuple_iff := by simp
  recorded p hp _ := by
    refine h.recorded_of_value hv (List.subset_cons_self _ nodes) (fun node hnode => ?_) p hp
    obtain rfl : Node.emptyTuple = node := Option.some.inj hnode
    exact List.mem_cons_self
  entered t ht := by
    rcases ht with ht | ht
    · exact h.entered t (.inl (by simpa using ht))
    · exact ht.elim
  notMem _ ht := ht.elim

/-- A container of the heap that was not met before is entered. -/
theorem Tracks.meet {p : Nat} (h : Tracks heap Nowhere seen nodes) (hp : p ∉ seen.places) :
    Tracks heap (Spot.place p).Inside { seen with places := p :: seen.places } nodes where
  emptyTuple_iff := h.emptyTuple_iff
  recorded q hq hnot := by
    rcases List.mem_cons.mp hq with rfl | hq
    · exact absurd (Spot.inside_self _) hnot
    · exact h.recorded q hq id
  entered := by
    rintro t (ht | ht)
    · exact (h.entered t (.inl ht)).mono (List.subset_cons_self p seen.places)
    · intro q hq
      obtain rfl : p = q := Option.some.inj (ht.1.symm.trans hq)
      exact List.mem_cons_self
  notMem t ht hmem := hp (h.entered t (.inl hmem) p ht.1)

theorem Advances.refl (h : Tracks heap Nowhere seen nodes) (hunmet : Unmet heap depth seen.places) :
    Advances heap depth through seen nodes seen nodes :=
  ⟨h, hunmet, fun _ hp => hp, fun _ _ hmem => .inl hmem⟩

theorem Advances.mono {through' : Spot → Prop}
    (h : Advances heap depth through seen nodes seen' nodes') (hsub : ∀ t, through t → through' t) :
    Advances heap depth through' seen nodes seen' nodes' :=
  ⟨h.tracks, h.unmet, h.subset, fun t ht hmem => (h.mem_or t ht hmem).imp_right (hsub t)⟩

theorem Advances.first (h : Advances heap depth (s.part n).Inside seen nodes seen' nodes') :
    Advances heap depth (s.InsideFrom n) seen nodes seen' nodes' :=
  h.mono fun _ ht => ⟨n, Nat.le_refl n, ht⟩

theorem Advances.others (h : Advances heap depth (s.InsideFrom (n + 1)) seen nodes seen' nodes') :
    Advances heap depth (s.InsideFrom n) seen nodes seen' nodes' :=
  h.mono fun _ ⟨m, hm, ht⟩ => ⟨m, by omega, ht⟩

theorem Advances.trans (h : Advances heap depth through seen nodes seen' nodes')
    (h' : Advances heap depth through seen' nodes' seen'' nodes'') :
    Advances heap depth through seen nodes seen'' nodes'' where
  tracks := h'.tracks
  unmet := h'.unmet
  subset := fun _ hp => h'.subset (h.subset hp)
  mem_or t ht hmem := (h'.mem_or t (ht.mono h.subset) hmem).elim (h.mem_or t ht) .inr

/-- After the first part the others are ahead. -/
theorem Advances.next (h : Advances heap depth (s.part n).Inside seen nodes seen' nodes')
    (htracks : Tracks heap (s.InsideFrom n) seen nodes) :
    Tracks heap (s.InsideFrom (n + 1)) seen' nodes' where
  emptyTuple_iff := h.tracks.emptyTuple_iff
  recorded p hp _ := h.tracks.recorded p hp id
  entered := by
    rintro t (ht | ⟨m, hm, ht⟩)
    · exact h.tracks.entered t (.inl ht)
    · exact (htracks.entered t (.inr ⟨m, by omega, ht⟩)).mono h.subset
  notMem := by
    rintro t ⟨m, hm, ht⟩ hmem
    have hahead : s.InsideFrom n t := ⟨m, by omega, ht⟩
    rcases h.mem_or t (htracks.entered t (.inr hahead)) hmem with hold | hfirst
    · exact htracks.notMem t hahead hold
    · have hmn : m = n := Spot.part_inj ht hfirst
      omega

/-- With its parts a container is gone through. -/
theorem Advances.expand
    (h : Advances heap depth (s.InsideFrom 0) seen (.standing s :: nodes) seen' nodes') :
    Advances heap depth s.Inside seen nodes seen' nodes' where
  tracks := h.tracks
  unmet := h.unmet
  subset := h.subset
  mem_or t ht hmem := by
    rcases h.mem_or t ht hmem with hmem | ⟨m, -, ht⟩
    · rcases List.mem_cons.mp hmem with heq | hmem
      · obtain rfl := Node.standing.inj heq
        exact .inr t.inside_self
      · exact .inl hmem
    · exact .inr (Spot.inside_of_part ht)

/-- Of what was entered before nothing is in a container that was not. -/
theorem Advances.meet {p : Nat} (hp : p ∉ seen.places)
    (h : Advances heap depth (Spot.place p).Inside { seen with places := p :: seen.places } nodes
      seen' nodes') :
    Advances heap (depth + 1) Nowhere seen nodes seen' nodes' where
  tracks := h.tracks
  unmet := h.unmet.succ
  subset := fun q hq => h.subset (List.mem_cons_of_mem p hq)
  mem_or t ht hmem := by
    rcases h.mem_or t (ht.mono (List.subset_cons_self p seen.places)) hmem with hold | hinside
    · exact .inl hold
    · exact absurd (ht p hinside.1) hp

end Tracks

section Visit

/-- The containers of the heap are copied as the recursion does it. -/
def CopiesVisited (heap : Heap) (depth : Nat) (shared : Seen → Nat → Value × Seen) : Prop :=
  ∀ s seen nodes p, Tracks heap Nowhere seen nodes → Unmet heap depth seen.places →
    ∃ expanded nodes', Visits heap s nodes (.shared p) (shared seen p).1 expanded nodes' ∧
      Advances heap depth Nowhere seen nodes (shared seen p).2 nodes'

variable {depth : Nat} {shared : Seen → Nat → Value × Seen}

theorem exists_visits_leaf {s : Spot} {seen : Seen} {nodes : List Node} {v : Value}
    (hleaf : IsLeaf AnyDouble v) (hv : ∀ p, s = .place p → heap[p]? = some v)
    (h : Tracks heap s.Inside seen nodes) (hunmet : Unmet heap depth seen.places) :
    ∃ expanded nodes', Visits heap s nodes v v expanded nodes' ∧
      Advances heap depth s.Inside seen nodes seen nodes' := by
  have hclose : Tracks heap Nowhere seen nodes :=
    h.close hv fun node hnode => absurd hnode (by simp [node?_leaf hleaf])
  exact ⟨[], nodes, .leaf hleaf, .refl hclose hunmet⟩

/-- A container that was not seen is copied with its parts. -/
theorem exists_visits_expand {s : Spot} {seen seen' : Seen} {nodes : List Node} {v : Value}
    {copies : List Value} (hnode : node? s v = some (.standing s))
    (h : Tracks heap s.Inside seen nodes)
    (hparts : ∃ expanded nodes',
      VisitsParts heap s 0 (.standing s :: nodes) (parts v) copies expanded nodes' ∧
        Advances heap depth (s.InsideFrom 0) seen (.standing s :: nodes) seen' nodes') :
    ∃ expanded nodes', Visits heap s nodes v (withCopies v copies) expanded nodes' ∧
      Advances heap depth s.Inside seen nodes seen' nodes' := by
  obtain ⟨expanded, nodes', hvisits, hadvances⟩ := hparts
  exact ⟨_, nodes', .expand hnode (h.notMem s s.inside_self) hvisits, hadvances.expand⟩

theorem withCopies_visitEntries (shared : Seen → Nat → Value × Seen) (seen : Seen)
    (entries : List (Value × Value)) :
    withCopies (.dict entries) ((visitEntries shared seen entries).1.map Prod.snd) =
      .dict (visitEntries shared seen entries).1 := by
  refine congrArg Value.dict ?_
  induction entries generalizing seen with
  | nil => rfl
  | cons e rest ih =>
    rw [visitEntries_cons, List.map_cons, List.map_cons, List.zip_cons_cons, ih]

mutual

theorem exists_visits (hshared : CopiesVisited heap depth shared) (s : Spot) (seen : Seen)
    (nodes : List Node) : ∀ v, (∀ p, s = .place p → heap[p]? = some v) →
    Tracks heap s.Inside seen nodes → Unmet heap depth seen.places →
    ∃ expanded nodes', Visits heap s nodes v (visit shared seen v).1 expanded nodes' ∧
      Advances heap depth s.Inside seen nodes (visit shared seen v).2 nodes'
  | .none, hv, h, hunmet | .bool _, hv, h, hunmet | .int _, hv, h, hunmet
  | .float _, hv, h, hunmet | .decimal _ _, hv, h, hunmet | .text _, hv, h, hunmet
  | .bytes _, hv, h, hunmet | .set _, hv, h, hunmet | .object _ _, hv, h, hunmet =>
    exists_visits_leaf trivial hv h hunmet
  | .shared p, hv, h, hunmet => by
    have hclose : Tracks heap Nowhere seen nodes :=
      h.close hv fun node hnode => absurd hnode (by simp [node?])
    obtain ⟨expanded, nodes', hvisits, hadvances⟩ := hshared s seen nodes p hclose hunmet
    exact ⟨expanded, nodes', hvisits, hadvances.mono fun _ ht => ht.elim⟩
  | .list items, hv, h, hunmet =>
    exists_visits_expand rfl h
      (exists_visitItems hshared s 0 seen _ items (h.expand hv rfl) hunmet)
  | .tuple [], hv, h, hunmet => by
    rw [visit]
    cases hempty : seen.emptyTuple with
    | true =>
      have hmem : .emptyTuple ∈ nodes := h.emptyTuple_iff.mpr hempty
      have hclose : Tracks heap Nowhere seen nodes :=
        h.close hv fun node hnode => Option.some.inj hnode ▸ hmem
      exact ⟨[], nodes, .again rfl hmem, .refl hclose hunmet⟩
    | false =>
      have hnew : .emptyTuple ∉ nodes := h.emptyTuple_iff.not.mpr (by simp [hempty])
      exact ⟨[.emptyTuple], .emptyTuple :: nodes, .expand rfl hnew .nil, h.emptyTuple hv, hunmet,
        fun _ hp => hp, fun t _ ht => .inl (by simpa using ht)⟩
  | .tuple (v :: rest), hv, h, hunmet =>
    exists_visits_expand rfl h
      (exists_visitItems hshared s 0 seen _ (v :: rest) (h.expand hv rfl) hunmet)
  | .dict entries, hv, h, hunmet => by
    have hvisits := exists_visits_expand (v := .dict entries) rfl h
      (exists_visitEntries hshared s 0 seen _ entries (h.expand hv rfl) hunmet)
    rwa [withCopies_visitEntries] at hvisits

theorem exists_visitItems (hshared : CopiesVisited heap depth shared) (s : Spot) (n : Nat)
    (seen : Seen) (nodes : List Node) : ∀ items, Tracks heap (s.InsideFrom n) seen nodes →
    Unmet heap depth seen.places →
    ∃ expanded nodes', VisitsParts heap s n nodes (items.map fun v => (none, v))
        (visitItems shared seen items).1 expanded nodes' ∧
      Advances heap depth (s.InsideFrom n) seen nodes (visitItems shared seen items).2 nodes'
  | [], h, hunmet => ⟨[], nodes, .nil, .refl h.done hunmet⟩
  | v :: rest, h, hunmet => by
    obtain ⟨first, nodes', hfirst, hadvances⟩ :=
      exists_visits hshared (s.part n) seen nodes v (by simp [Spot.part, Spot.place]) h.first hunmet
    obtain ⟨others, nodes'', hothers, hadvances'⟩ :=
      exists_visitItems hshared s (n + 1) _ nodes' rest (hadvances.next h) hadvances.unmet
    exact ⟨first ++ others, nodes'', .visited (by simp) hfirst hothers,
      hadvances.first.trans hadvances'.others⟩

theorem exists_visitEntries (hshared : CopiesVisited heap depth shared) (s : Spot) (n : Nat)
    (seen : Seen) (nodes : List Node) : ∀ entries, Tracks heap (s.InsideFrom n) seen nodes →
    Unmet heap depth seen.places →
    ∃ expanded nodes', VisitsParts heap s n nodes (entries.map fun e => (some e.1, e.2))
        ((visitEntries shared seen entries).1.map Prod.snd) expanded nodes' ∧
      Advances heap depth (s.InsideFrom n) seen nodes (visitEntries shared seen entries).2 nodes'
  | [], h, hunmet => ⟨[], nodes, .nil, .refl h.done hunmet⟩
  | (k, v) :: rest, h, hunmet => by
    rw [visitEntries_cons]
    rcases hides_or_path_or_looksInto k v with hhides | hpath | hlooks
    · obtain ⟨expanded, nodes', hvisits, hadvances⟩ :=
        exists_visitEntries hshared s (n + 1) seen nodes rest h.skip hunmet
      rw [visitUnder_of_hides _ _ hhides]
      exact ⟨expanded, nodes', .hidden hhides hvisits, hadvances.others⟩
    · obtain ⟨expanded, nodes', hvisits, hadvances⟩ :=
        exists_visitEntries hshared s (n + 1) seen nodes rest h.skip hunmet
      rw [visitUnder_of_path _ _ hpath]
      exact ⟨expanded, nodes', .path hpath hvisits, hadvances.others⟩
    · obtain ⟨first, nodes', hfirst, hadvances⟩ :=
        exists_visits hshared (s.part n) seen nodes v (by simp [Spot.part, Spot.place]) h.first
          hunmet
      obtain ⟨others, nodes'', hothers, hadvances'⟩ :=
        exists_visitEntries hshared s (n + 1) _ nodes' rest (hadvances.next h) hadvances.unmet
      rw [visitUnder_of_looksInto _ _ hlooks]
      have hkey : ∀ k', some k = some k' → LooksInto k' v := by
        rintro k' heq
        exact Option.some.inj heq ▸ hlooks
      exact ⟨first ++ others, nodes'', .visited hkey hfirst hothers,
        hadvances.first.trans hadvances'.others⟩

end

/-- A container that was met before is one of those seen. -/
theorem exists_visits_met {seen : Seen} {nodes : List Node} {p : Nat} {w : Value}
    (hheap : HoldsContainers heap) (hp : p ∈ seen.places) (hw : heap[p]? = some w)
    (h : Tracks heap Nowhere seen nodes) (s : Spot) :
    Visits heap s nodes (.shared p) circular [] nodes := by
  obtain ⟨node, hnode⟩ := exists_node?_iff.mpr (hheap p w hw)
  exact .place hw (.again hnode (h.recorded p hp id w node hw hnode))

theorem exists_visits_place (hheap : HoldsContainers heap) (depth : Nat) :
    CopiesVisited heap depth (visitPlace heap depth) := by
  induction depth with
  | zero =>
    intro s seen nodes p h hunmet
    refine ⟨[], nodes, ?_, .refl h hunmet⟩
    cases hw : heap[p]? with
    | none => exact .nowhere hw
    | some w =>
      -- Without depth left all places are met.
      have hp : p ∈ seen.places := by
        by_contra hnew
        obtain ⟨d, hd, -⟩ := hunmet.cons hw hnew
        omega
      exact exists_visits_met hheap hp hw h s
  | succ depth ih =>
    intro s seen nodes p h hunmet
    rw [visitPlace]
    cases hw : heap[p]? with
    | none =>
      rw [ite_self]
      exact ⟨[], nodes, .nowhere hw, .refl h hunmet⟩
    | some w =>
      by_cases hp : p ∈ seen.places
      · rw [if_pos (by simpa using hp)]
        exact ⟨[], nodes, exists_visits_met hheap hp hw h s, .refl h hunmet⟩
      · rw [if_neg (by simpa using hp)]
        -- One more place is met, and there is depth left for all others.
        obtain ⟨d, hd, hunmet'⟩ := hunmet.cons hw hp
        obtain rfl := Nat.succ.inj hd
        have hplace : ∀ q, Spot.place p = .place q → heap[q]? = some w := by
          intro q hq
          obtain rfl : p = q := Option.some.inj (congrArg Spot.root hq)
          exact hw
        obtain ⟨expanded, nodes', hvisits, hadvances⟩ :=
          exists_visits ih (.place p) _ nodes w hplace (h.meet hp) hunmet'
        exact ⟨expanded, nodes', .place hw hvisits, hadvances.meet hp⟩

end Visit

/-- The recursion that redaction is, without any bound on its depth, comes to its end from every
value, whatever cycles there are in the heap and however often containers are shared, and to one
result only, the redacted value.  It expands no container twice, and what it expands are those
containers that have been seen at the end; in no call of it are any seen ones lost.  The result is
written out, and there are as many containers in it, without what is taken over under keys for
paths, as are expanded, and so at most as many as there are in the graph. -/
theorem redact_expands_once (heap : Heap) (v : Value) (hheap : HoldsContainers heap) :
    (graph heap v).Finite ∧
    (∀ s before w c expanded after, Visits heap s before w c expanded after → before <:+ after) ∧
    ∃ expanded seen,
      Visits heap {} [] v (redact heap v) expanded seen ∧
      (∀ c expanded' seen', Visits heap {} [] v c expanded' seen' →
        c = redact heap v ∧ expanded' = expanded ∧ seen' = seen) ∧
      expanded.Nodup ∧ (∀ node, node ∈ seen ↔ node ∈ expanded) ∧
      (∀ node ∈ expanded, node ∈ graph heap v) ∧
      WrittenOut (redact heap v) ∧ containers (redact heap v) = expanded.length ∧
      containers (redact heap v) ≤ (graph heap v).ncard := by
  have hfinite : (graph heap v).Finite := finite_graph heap v
  obtain ⟨expanded, seen, hvisits, -⟩ := exists_visits (exists_visits_place hheap heap.length) {} {}
    [] v (by simp [Spot.place]) (Tracks.initial heap) (Unmet.initial heap)
  have hrecords : Records [] expanded seen := visits_records hvisits
  have hgraph : ∀ node ∈ expanded, node ∈ graph heap v := visits_graph hvisits .start
  have hcount : containers (redact heap v) = expanded.length := visits_containers hvisits
  have hle : expanded.length ≤ (graph heap v).ncard := by
    rw [Set.ncard_eq_toFinset_card _ hfinite, ← Finset.length_toList]
    refine hrecords.nodup.length_le_of_subset fun node hnode => ?_
    exact Finset.mem_toList.mpr (hfinite.mem_toFinset.mpr (hgraph node hnode))
  refine ⟨hfinite, fun _ _ _ _ _ _ h => (visits_records h).suffix, expanded, seen, hvisits,
    fun _ _ _ h => visits_unique hvisits _ _ _ h, hrecords.nodup, fun node => ?_, hgraph,
    visits_writtenOut hvisits, hcount, hcount ▸ hle⟩
  rw [hrecords.mem_iff, or_iff_left List.not_mem_nil]

theorem redact_expands_once_cycle :
    let heap : Heap := [.list [.shared 1, .shared 0, .tuple []],
      .dict [(.text "a", .shared 0), (.text "path", .shared 1), (.text "b", .tuple [])]]
    HoldsContainers heap ∧
      redact heap (.shared 0) =
        .list [.dict [(.text "a", circular), (.text "path", .shared 1), (.text "b", .list [])],
          circular, circular] ∧
      containers (redact heap (.shared 0)) = 3 ∧ 3 ≤ (graph heap (.shared 0)).ncard ∧
      ∃ expanded seen, Visits heap {} [] (.shared 0) (redact heap (.shared 0)) expanded seen ∧
        expanded.Nodup ∧ expanded.length = 3 := by
  intro heap
  have hheap : HoldsContainers heap := by
    intro p v hv
    have hmem : v ∈ heap := List.mem_of_getElem? hv
    simp only [heap, List.mem_cons, List.not_mem_nil, or_false] at hmem
    rcases hmem with rfl | rfl
    · exact .inl ⟨_, rfl⟩
    · exact .inr (.inr ⟨_, rfl⟩)
  have hcount : containers (redact heap (.shared 0)) = 3 := by decide
  obtain ⟨-, -, expanded, seen, hvisits, -, hnodup, -, -, -, hlength, hle⟩ :=
    redact_expands_once heap (.shared 0) hheap
  exact ⟨hheap, rfl, hcount, hcount ▸ hle, expanded, seen, hvisits, hnodup,
    hlength.symm.trans hcount⟩

end PromptShelf.Log
