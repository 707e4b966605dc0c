/-
Which containers redaction marks.

The mark is meant for a container where it recurs inside itself: the value is written out
(`Heap.unroll`), which leaves places of the heap just there (`expand_eq_shared_iff`), and in its
copy the mark stands for them (`marked`).  Redaction remembers the containers it has met, though,
and not those it is inside of, so it also marks a container that it meets again on another way.

* **`expand_eq_marked_iff`** — what is taken over is as expected if no container recurs in it;
* **`marks_visit`**, **`marks_visitPlace`** — what is copied is as expected if nothing in it was
  met before;
* **`redact_marks_iff`** — so redaction does as expected of the values in which it meets every
  container once.
-/
import PromptShelf.Proofs.Log.Shape

namespace PromptShelf.Log

/-- The heap holds containers only. -/
def HoldsContainers (heap : Heap) : Prop :=
  ∀ (p : Nat) (v : Value), heap[p]? = some v →
    (∃ items, v = .list items) ∨ (∃ items, v = .tuple items) ∨ ∃ entries, v = .dict entries

/-- The value with a mark for each container that is still shared. -/
def marked (v : Value) : Value := v.mapShared fun _ => circular

mutual

/-- The containers that redaction meets in a value, in order, with those that it meets at a
place; only those count that are shared, and the empty tuple. -/
def metIn (inner : Nat → List (Option Nat)) : Value → List (Option Nat)
  | .list items => metInItems inner items
  | .tuple [] => [none]
  | .tuple items => metInItems inner items
  | .dict entries => metInEntries inner entries
  | .shared p => inner p
  | _ => []

def metInItems (inner : Nat → List (Option Nat)) : List Value → List (Option Nat)
  | [] => []
  | v :: rest => metIn inner v ++ metInItems inner rest

def metInEntries (inner : Nat → List (Option Nat)) : List (Value × Value) → List (Option Nat)
  | [] => []
  | (k, v) :: rest => (if isPathKey k then [] else metIn inner v) ++ metInEntries inner rest

end

/-- The containers that redaction meets at a place inside the containers at the places `above`,
as far as `depth` containers inside each other; one of those above it does not enter again. -/
def metAt (heap : Heap) : Nat → List Nat → Nat → List (Option Nat)
  | 0, _, _ => []
  | depth + 1, above, p =>
    if above.contains p then []
    else
      match heap[p]? with
      | some v => some p :: metIn (metAt heap depth (p :: above)) v
      | none => []

/-- The containers that redaction meets in a value on all ways. -/
def met (heap : Heap) (v : Value) : List (Option Nat) := metIn (metAt heap heap.length []) v

/-- Nothing that is taken over names a container that is still shared. -/
def Clean (v : Value) : Prop := ∀ u, TakenOver u v → noShared u = true

/-- The container was met, or the empty tuple. -/
def Seen.Has (seen : Seen) : Option Nat → Prop
  | some p => p ∈ seen.places
  | none => seen.emptyTuple = true

/-- The containers come once each and were not met before. -/
def Fresh (seen : Seen) (cs : List (Option Nat)) : Prop := cs.Nodup ∧ ∀ c ∈ cs, ¬ seen.Has c

/-- Between two states these containers were met and no others. -/
def Adds (seen seen' : Seen) (cs : List (Option Nat)) : Prop :=
  ∀ c, seen'.Has c ↔ seen.Has c ∨ c ∈ cs

variable {heap : Heap} {seen seen' seen'' : Seen} {cs ds : List (Option Nat)}

/-! ### What was met -/

theorem fresh_nil (seen : Seen) : Fresh seen [] := ⟨List.nodup_nil, by simp⟩

theorem adds_nil (seen : Seen) : Adds seen seen [] := by simp [Adds]

theorem Adds.append (h : Adds seen seen' cs) (h' : Adds seen' seen'' ds) :
    Adds seen seen'' (cs ++ ds) := by
  intro c
  rw [h' c, h c, List.mem_append, or_assoc]

theorem fresh_append (h : Adds seen seen' cs) :
    Fresh seen (cs ++ ds) ↔ Fresh seen cs ∧ Fresh seen' ds := by
  simp only [Fresh, List.nodup_append, List.mem_append, h _]
  constructor
  · rintro ⟨⟨hcs, hds, hne⟩, hnew⟩
    refine ⟨⟨hcs, fun c hc => hnew c (.inl hc)⟩, hds, fun d hd => ?_⟩
    rintro (hold | hd')
    · exact hnew d (.inr hd) hold
    · exact hne d hd' d hd rfl
  · rintro ⟨⟨hcs, hnew⟩, hds, hnew'⟩
    refine ⟨⟨hcs, hds, fun c hc d hd heq => ?_⟩, fun c hc => hc.elim (hnew c) fun hd hold => ?_⟩
    · exact hnew' d hd (.inr (heq ▸ hc))
    · exact hnew' c hd (.inl hold)

theorem not_fresh_append (h : ¬ Fresh seen cs) : ¬ Fresh seen (cs ++ ds) := by
  rintro ⟨hnodup, hnew⟩
  exact h ⟨(List.nodup_append.mp hnodup).1, fun c hc => hnew c (List.mem_append_left _ hc)⟩

/-- What holds of a first part and of the rest that follows it holds of both together. -/
theorem fresh_append_iff {P P' Q Q' : Prop} (h : P ↔ Fresh seen cs ∧ Q)
    (hadds : Fresh seen cs → Adds seen seen' cs)
    (h' : Fresh seen cs → (P' ↔ Fresh seen' ds ∧ Q')) :
    P ∧ P' ↔ Fresh seen (cs ++ ds) ∧ Q ∧ Q' := by
  by_cases hfresh : Fresh seen cs
  · rw [h, h' hfresh, fresh_append (hadds hfresh)]
    tauto
  · exact iff_of_false (fun hp => hfresh (h.mp hp.1).1) fun hq => not_fresh_append hfresh hq.1

/-! ### What is taken over -/

section TakenOver

variable {f g : Nat → Value}

mutual

theorem mapShared_of_noShared (f : Nat → Value) : ∀ v, noShared v = true → v.mapShared f = v
  | .none, _ | .bool _, _ | .int _, _ | .float _, _ | .decimal _ _, _ | .text _, _ | .bytes _, _
  | .set _, _ | .object _ _, _ => rfl
  | .shared _, h => absurd h (by simp [noShared])
  | .list items, h => congrArg Value.list (mapSharedItems_of_noShared f items h)
  | .tuple items, h => congrArg Value.tuple (mapSharedItems_of_noShared f items h)
  | .dict entries, h => congrArg Value.dict (mapSharedEntries_of_noShared f entries h)

theorem mapSharedItems_of_noShared (f : Nat → Value) :
    ∀ items, noSharedItems items = true → Value.mapSharedItems f items = items
  | [], _ => rfl
  | v :: rest, h => by
    rw [noSharedItems, Bool.and_eq_true] at h
    rw [Value.mapSharedItems, mapShared_of_noShared f v h.1, mapSharedItems_of_noShared f rest h.2]

theorem mapSharedEntries_of_noShared (f : Nat → Value) :
    ∀ entries, noSharedEntries entries = true → Value.mapSharedEntries f entries = entries
  | [], _ => rfl
  | (k, v) :: rest, h => by
    rw [noSharedEntries, Bool.and_eq_true] at h
    rw [Value.mapSharedEntries, mapShared_of_noShared f v h.1,
      mapSharedEntries_of_noShared f rest h.2]

end

mutual

/-- A value is the same written out twice, the second time with marks, if none is needed. -/
theorem mapShared_eq_marked_iff (h : ∀ p, g p = marked (f p) ↔ noShared (f p) = true) :
    ∀ v : Value, v.mapShared g = marked (v.mapShared f) ↔ noShared (v.mapShared f) = true
  | .none | .bool _ | .int _ | .float _ | .decimal _ _ | .text _ | .bytes _ | .set _
  | .object _ _ => iff_of_true rfl rfl
  | .shared p => h p
  | .list items => by
    show Value.list _ = Value.list _ ↔ _
    rw [Value.list.injEq]
    exact mapSharedItems_eq_marked_iff h items
  | .tuple items => by
    show Value.tuple _ = Value.tuple _ ↔ _
    rw [Value.tuple.injEq]
    exact mapSharedItems_eq_marked_iff h items
  | .dict entries => by
    show Value.dict _ = Value.dict _ ↔ _
    rw [Value.dict.injEq]
    exact mapSharedEntries_eq_marked_iff h entries

theorem mapSharedItems_eq_marked_iff (h : ∀ p, g p = marked (f p) ↔ noShared (f p) = true) :
    ∀ items, Value.mapSharedItems g items =
        Value.mapSharedItems (fun _ => circular) (Value.mapSharedItems f items) ↔
      noSharedItems (Value.mapSharedItems f items) = true
  | [] => iff_of_true rfl rfl
  | v :: rest => by
    simp only [Value.mapSharedItems, noSharedItems, List.cons.injEq, Bool.and_eq_true]
    exact and_congr (mapShared_eq_marked_iff h v) (mapSharedItems_eq_marked_iff h rest)

theorem mapSharedEntries_eq_marked_iff (h : ∀ p, g p = marked (f p) ↔ noShared (f p) = true) :
    ∀ entries, Value.mapSharedEntries g entries =
        Value.mapSharedEntries (fun _ => circular) (Value.mapSharedEntries f entries) ↔
      noSharedEntries (Value.mapSharedEntries f entries) = true
  | [] => iff_of_true rfl rfl
  | (k, v) :: rest => by
    simp only [Value.mapSharedEntries, noSharedEntries, List.cons.injEq, Prod.mk.injEq, true_and,
      Bool.and_eq_true]
    exact and_congr (mapShared_eq_marked_iff h v) (mapSharedEntries_eq_marked_iff h rest)

end

end TakenOver

/-- At a place stands the place itself or its container written out. -/
theorem expand_cases (heap : Heap) (depth : Nat) (above : List Nat) (p : Nat) :
    heap.expand depth above p = .shared p ∨
      ∃ v f, heap[p]? = some v ∧ heap.expand depth above p = v.mapShared f := by
  cases depth with
  | zero => exact .inl rfl
  | succ depth =>
    rw [Heap.expand]
    split
    · exact .inl rfl
    · cases hv : heap[p]? with
      | none => exact .inl rfl
      | some v => exact .inr ⟨v, _, rfl, rfl⟩

theorem isScalar_expand (hheap : HoldsContainers heap) (depth : Nat) (above : List Nat) (p : Nat) :
    isScalar (heap.expand depth above p) = false := by
  rcases expand_cases heap depth above p with heq | ⟨v, f, hv, heq⟩
  · rw [heq]
    rfl
  · rw [heq]
    rcases hheap p v hv with ⟨_, rfl⟩ | ⟨_, rfl⟩ | ⟨_, rfl⟩ <;> rfl

theorem expand_ne_circular (hheap : HoldsContainers heap) (depth : Nat) (above : List Nat)
    (p : Nat) : heap.expand depth above p ≠ circular := by
  intro heq
  have hscalar := isScalar_expand hheap depth above p
  rw [heq] at hscalar
  exact absurd hscalar (by simp [circular, isScalar])

/-- With depth left for all places but those above, only a place of these is left as it is, or one
without a container. -/
theorem expand_eq_shared_iff (hheap : HoldsContainers heap) {depth : Nat} {above : List Nat}
    (h : Unmet heap depth above) (p : Nat) :
    heap.expand depth above p = .shared p ↔ p ∈ above ∨ heap[p]? = none := by
  cases hv : heap[p]? with
  | none =>
    rcases expand_cases heap depth above p with heq | ⟨v, _, hv', -⟩
    · exact iff_of_true heq (.inr rfl)
    · exact absurd (hv.symm.trans hv') (by simp)
  | some v =>
    by_cases hp : p ∈ above
    · refine iff_of_true ?_ (.inl hp)
      cases depth with
      | zero => rfl
      | succ depth => rw [Heap.expand, if_pos (by simpa using hp)]
    · obtain ⟨d, rfl, -⟩ := h.cons hv hp
      refine iff_of_false (fun heq => ?_) (by simp [hp])
      rw [Heap.expand, if_neg (by simpa using hp), hv] at heq
      rcases hheap p v hv with ⟨_, rfl⟩ | ⟨_, rfl⟩ | ⟨_, rfl⟩ <;> exact Value.noConfusion heq

/-- Written out from within other containers, a container is as it is by itself, with marks, if
none of the others is named in it and none recurs. -/
theorem expand_eq_marked_iff (hheap : HoldsContainers heap) {depth n : Nat}
    {above above' : List Nat} (hdepth : depth ≤ n) (habove : above' ⊆ above) (p : Nat) :
    heap.expand n above' p = marked (heap.expand depth above p) ↔
      noShared (heap.expand depth above p) = true := by
  induction depth generalizing n above above' p with
  | zero =>
    exact iff_of_false (expand_ne_circular hheap n above' p) (by simp [Heap.expand, noShared])
  | succ depth ih =>
    have hleft : heap.expand n above' p ≠ marked (.shared p) := expand_ne_circular hheap n above' p
    obtain ⟨n, rfl⟩ : ∃ m, n = m + 1 := ⟨n - 1, by omega⟩
    rw [Heap.expand.eq_def heap (depth + 1)]
    dsimp only
    by_cases hp : p ∈ above
    · rw [if_pos (by simpa using hp)]
      exact iff_of_false hleft (by simp [noShared])
    · rw [if_neg (by simpa using hp)]
      cases hv : heap[p]? with
      | none => exact iff_of_false hleft (by simp [noShared])
      | some v =>
        have hp' : p ∉ above' := fun hmem => hp (habove hmem)
        rw [Heap.expand, if_neg (by simpa using hp'), hv]
        refine mapShared_eq_marked_iff (fun q => ih (by omega) ?_ q) v
        exact List.cons_subset_cons p habove

/-! ### Which values are clean -/

theorem clean_of_isScalar {v : Value} (h : isScalar v = true) : Clean v := fun u hu => by
  cases hu <;> exact absurd h (by simp [isScalar])

theorem clean_list_iff {items : List Value} : Clean (.list items) ↔ ∀ v ∈ items, Clean v := by
  constructor
  · exact fun h v hv u hu => h u (.inList hv hu)
  · intro h u hu
    cases hu with
    | inList hv hu => exact h _ hv u hu

theorem clean_tuple_iff {items : List Value} : Clean (.tuple items) ↔ ∀ v ∈ items, Clean v := by
  constructor
  · exact fun h v hv u hu => h u (.inTuple hv hu)
  · intro h u hu
    cases hu with
    | inTuple hv hu => exact h _ hv u hu

/-- What is clean about an entry: the value as far as it is taken over, or all inside it. -/
def CleanEntry (k v : Value) : Prop :=
  (k.display ∈ pathKeys → noShared v = true) ∧ (k.display ∉ pathKeys → Clean v)

theorem clean_dict_iff {entries : List (Value × Value)} :
    Clean (.dict entries) ↔ ∀ e ∈ entries, CleanEntry e.1 e.2 := by
  constructor
  · intro h e he
    refine ⟨fun hpath => ?_, fun hpath u hu => h u (.inEntry he hpath hu)⟩
    by_cases htext : ∃ s, e.2 = .text s
    · obtain ⟨s, hs⟩ := htext
      rw [hs]
      rfl
    · exact h e.2 (.here he hpath fun s hs => htext ⟨s, hs⟩)
  · intro h u hu
    cases hu with
    | here hentry hpath => exact (h _ hentry).1 hpath
    | inEntry hentry hpath hu => exact (h _ hentry).2 hpath u hu

theorem clean_of_noShared {v : Value} (h : noShared v = true) : Clean v := by
  intro u hu
  induction hu with
  | here hentry => exact noSharedEntries_iff.mp h _ hentry
  | inEntry hentry _ _ ih => exact ih (noSharedEntries_iff.mp h _ hentry)
  | inList hitem _ ih => exact ih (noSharedItems_iff.mp h _ hitem)
  | inTuple hitem _ ih => exact ih (noSharedItems_iff.mp h _ hitem)

/-! ### What is copied -/

/-- Redaction has come from a state to a value and another state.  The value is as expected of the
value `w`, which is written out, exactly if the containers `cs` were met for the first time and
`w` is clean; and then these were added. -/
structure Marks (heap : Heap) (seen : Seen) (r : Value × Seen) (w : Value)
    (cs : List (Option Nat)) : Prop where
  eq_iff : heap.unroll r.1 = marked (copy w) ↔ Fresh seen cs ∧ Clean w
  adds : Fresh seen cs → Adds seen r.2 cs

theorem marks_leaf {v : Value} (hv : heap.unroll v = marked (copy v)) (hclean : Clean v) :
    Marks heap seen (v, seen) v [] :=
  ⟨iff_of_true hv ⟨fresh_nil seen, hclean⟩, fun _ => adds_nil seen⟩

/-- What is needed of the places to come. -/
structure MarksPlaces (heap : Heap) (above : List Nat) (shared : Seen → Nat → Value × Seen)
    (f : Nat → Value) (inner : Nat → List (Option Nat)) : Prop where
  marks : ∀ seen p, above ⊆ seen.places → Marks heap seen (shared seen p) (f p) (inner p)
  isScalar : ∀ p, isScalar (f p) = false
  takenOver : ∀ p, heap.expand heap.length [] p = marked (f p) ↔ noShared (f p) = true

section Visit

variable {above : List Nat} {shared : Seen → Nat → Value × Seen} {f : Nat → Value}
  {inner : Nat → List (Option Nat)}

theorem MarksPlaces.isScalar_mapShared (h : MarksPlaces heap above shared f inner) (v : Value) :
    Log.isScalar (v.mapShared f) = Log.isScalar v := by
  cases v with
  | shared p => exact h.isScalar p
  | _ => rfl

theorem MarksPlaces.pathValue_iff (h : MarksPlaces heap above shared f inner) (v : Value) :
    heap.unroll (pathValue v) = marked (pathValue (v.mapShared f)) ↔
      noShared (v.mapShared f) = true := by
  cases v with
  | text s => exact iff_of_true rfl rfl
  | shared p =>
    have hpath : pathValue (f p) = f p := by
      have hscalar := h.isScalar p
      cases hf : f p with
      | text s => exact absurd hscalar (by simp [hf, Log.isScalar])
      | _ => rfl
    show heap.expand heap.length [] p = marked (pathValue (f p)) ↔ noShared (f p) = true
    rw [hpath]
    exact h.takenOver p
  | _ => exact mapShared_eq_marked_iff h.takenOver _

theorem Adds.subset (h : Adds seen seen' cs) (habove : above ⊆ seen.places) :
    above ⊆ seen'.places :=
  fun p hp => (h (some p)).mpr (.inl (habove hp))

theorem metIn_of_isScalar (inner : Nat → List (Option Nat)) {v : Value}
    (h : Log.isScalar v = true) : metIn inner v = [] := by
  cases v with
  | list | tuple | dict | shared => exact absurd h (by simp [Log.isScalar])
  | _ => rfl

/-- What an entry becomes is as expected under the same condition as a value. -/
theorem marks_visitUnder (h : MarksPlaces heap above shared f inner) (k : Value) {v : Value}
    (hv : Marks heap seen (visit shared seen v) (v.mapShared f) (metIn inner v)) :
    let cs := if isPathKey k then [] else metIn inner v
    (heap.unroll (visitUnder shared seen k v).1 = marked (copyUnder k (v.mapShared f)) ↔
        Fresh seen cs ∧ CleanEntry k (v.mapShared f)) ∧
      (Fresh seen cs → Adds seen (visitUnder shared seen k v).2 cs) := by
  intro cs
  have hscalar : Log.isScalar (v.mapShared f) = Log.isScalar v := h.isScalar_mapShared v
  rcases hides_or_path_or_looksInto k v with hhides | hpath | hlooks
  · have hout : k.display ∉ pathKeys := fun hpath => not_hides_of_path hpath hhides
    have hcs : cs = [] := by
      have hmet : metIn inner v = [] := metIn_of_isScalar inner hhides.2
      rw [← hmet]
      exact if_neg (isPathKey_iff.not.mpr hout)
    have hclean : Clean (v.mapShared f) := clean_of_isScalar (hscalar.trans hhides.2)
    rw [visitUnder_of_hides _ _ hhides, copyUnder_of_hides ⟨hhides.1, hscalar.trans hhides.2⟩, hcs]
    exact ⟨iff_of_true rfl ⟨fresh_nil seen, fun hpath => absurd hpath hout, fun _ => hclean⟩,
      fun _ => adds_nil seen⟩
  · -- What is taken over is not visited.
    have hcs : cs = [] := if_pos (isPathKey_iff.mpr hpath)
    have hentry : CleanEntry k (v.mapShared f) ↔ noShared (v.mapShared f) = true :=
      ⟨fun hclean => hclean.1 hpath, fun hno => ⟨fun _ => hno, fun hout => absurd hpath hout⟩⟩
    rw [visitUnder_of_path _ _ hpath, copyUnder_of_path hpath, hcs, hentry]
    exact ⟨by simpa [fresh_nil] using h.pathValue_iff v, fun _ => adds_nil seen⟩
  · have hcs : cs = metIn inner v := if_neg (isPathKey_iff.not.mpr hlooks.2)
    have hentry : CleanEntry k (v.mapShared f) ↔ Clean (v.mapShared f) :=
      ⟨fun hclean => hclean.2 hlooks.2,
        fun hclean => ⟨fun hpath => absurd hpath hlooks.2, fun _ => hclean⟩⟩
    have hlooks' : LooksInto k (v.mapShared f) := ⟨fun hk => hscalar.trans (hlooks.1 hk), hlooks.2⟩
    rw [visitUnder_of_looksInto _ _ hlooks, copyUnder_of_looksInto hlooks', hcs, hentry]
    exact ⟨hv.eq_iff, hv.adds⟩

mutual

theorem marks_visit (h : MarksPlaces heap above shared f inner) (seen : Seen)
    (habove : above ⊆ seen.places) :
    ∀ v, Marks heap seen (visit shared seen v) (v.mapShared f) (metIn inner v)
  | .none | .bool _ | .int _ | .float _ | .decimal _ _ | .text _ | .bytes _ | .set _
  | .object _ _ => marks_leaf rfl fun u hu => by cases hu
  | .shared p => h.marks seen p habove
  | .list items => by
    obtain ⟨hiff, hadds⟩ := marks_visitItems h seen habove items
    refine ⟨?_, hadds⟩
    show Value.list _ = Value.list _ ↔ _
    rw [Value.list.injEq, Value.mapShared, clean_list_iff]
    exact hiff
  | .tuple [] => by
    have hclean : Clean (.tuple []) := clean_tuple_iff.mpr fun v hv => absurd hv List.not_mem_nil
    rw [visit]
    cases hempty : seen.emptyTuple with
    | true =>
      have hmet : ¬ Fresh seen [none] := fun hfresh => hfresh.2 none (by simp) hempty
      exact ⟨iff_of_false (fun heq => Value.noConfusion heq) fun hq => hmet hq.1,
        fun hfresh => absurd hfresh hmet⟩
    | false =>
      have hfresh : Fresh seen [none] := ⟨by simp, by simp [Seen.Has, hempty]⟩
      refine ⟨iff_of_true rfl ⟨hfresh, hclean⟩, fun _ c => ?_⟩
      cases c <;> simp [Seen.Has, metIn]
  | .tuple (v :: rest) => by
    obtain ⟨hiff, hadds⟩ := marks_visitItems h seen habove (v :: rest)
    refine ⟨?_, hadds⟩
    show Value.list _ = Value.list _ ↔ _
    rw [Value.list.injEq, Value.mapShared, clean_tuple_iff]
    exact hiff
  | .dict entries => by
    obtain ⟨hiff, hadds⟩ := marks_visitEntries h seen habove entries
    refine ⟨?_, hadds⟩
    show Value.dict _ = Value.dict _ ↔ _
    rw [Value.dict.injEq, Value.mapShared, clean_dict_iff]
    exact hiff

theorem marks_visitItems (h : MarksPlaces heap above shared f inner) (seen : Seen)
    (habove : above ⊆ seen.places) :
    ∀ items,
      (Value.mapSharedItems (heap.expand heap.length []) (visitItems shared seen items).1 =
          Value.mapSharedItems (fun _ => circular) (copyItems (Value.mapSharedItems f items)) ↔
        Fresh seen (metInItems inner items) ∧ ∀ w ∈ Value.mapSharedItems f items, Clean w) ∧
      (Fresh seen (metInItems inner items) →
        Adds seen (visitItems shared seen items).2 (metInItems inner items))
  | [] => ⟨iff_of_true rfl ⟨fresh_nil seen, fun _ h => absurd h List.not_mem_nil⟩,
      fun _ => adds_nil seen⟩
  | v :: rest => by
    obtain ⟨hiff, hadds⟩ := marks_visit h seen habove v
    have hrest := fun hfresh => marks_visitItems h (visit shared seen v).2
      ((hadds hfresh).subset habove) rest
    simp only [visitItems, copyItems, Value.mapSharedItems, List.cons.injEq, metInItems,
      List.forall_mem_cons]
    refine ⟨fresh_append_iff hiff hadds fun hfresh => (hrest hfresh).1, fun hfresh => ?_⟩
    have hfirst : Fresh seen (metIn inner v) := by
      by_contra hnot
      exact not_fresh_append hnot hfresh
    exact (hadds hfirst).append ((hrest hfirst).2 ((fresh_append (hadds hfirst)).mp hfresh).2)

theorem marks_visitEntries (h : MarksPlaces heap above shared f inner) (seen : Seen)
    (habove : above ⊆ seen.places) :
    ∀ entries,
      (Value.mapSharedEntries (heap.expand heap.length []) (visitEntries shared seen entries).1 =
          Value.mapSharedEntries (fun _ => circular)
            (copyEntries (Value.mapSharedEntries f entries)) ↔
        Fresh seen (metInEntries inner entries) ∧
          ∀ e ∈ Value.mapSharedEntries f entries, CleanEntry e.1 e.2) ∧
      (Fresh seen (metInEntries inner entries) →
        Adds seen (visitEntries shared seen entries).2 (metInEntries inner entries))
  | [] => ⟨iff_of_true rfl ⟨fresh_nil seen, fun _ h => absurd h List.not_mem_nil⟩,
      fun _ => adds_nil seen⟩
  | (k, v) :: rest => by
    obtain ⟨hiff, hadds⟩ := marks_visitUnder h k (marks_visit h seen habove v)
    have hrest := fun hfresh => marks_visitEntries h (visitUnder shared seen k v).2
      ((hadds hfresh).subset habove) rest
    rw [visitEntries_cons]
    simp only [Value.mapSharedEntries, copyEntries_cons, List.cons.injEq, Prod.mk.injEq, true_and,
      metInEntries, List.forall_mem_cons]
    refine ⟨fresh_append_iff hiff hadds fun hfresh => (hrest hfresh).1, fun hfresh => ?_⟩
    have hfirst : Fresh seen (if isPathKey k then [] else metIn inner v) := by
      by_contra hnot
      exact not_fresh_append hnot hfresh
    exact (hadds hfirst).append ((hrest hfirst).2 ((fresh_append (hadds hfirst)).mp hfresh).2)

end

end Visit

/-! ### What redaction meets in the heap -/

/-- A container that was met before is marked, and it should not be unless it is one of those
above. -/
theorem marks_met {p : Nat} (hp : p ∈ seen.places) {v w : Value} {f : Nat → Value}
    (hheap : HoldsContainers heap) (hv : heap[p]? = some v) (hw : w = v.mapShared f) :
    Marks heap seen (circular, seen) w (some p :: cs) := by
  have hmet : ¬ Fresh seen (some p :: cs) := fun hfresh => hfresh.2 _ List.mem_cons_self hp
  refine ⟨iff_of_false (fun heq => ?_) fun hq => hmet hq.1, fun hfresh => absurd hfresh hmet⟩
  rw [hw] at heq
  rcases hheap p v hv with ⟨_, rfl⟩ | ⟨_, rfl⟩ | ⟨_, rfl⟩ <;> exact Value.noConfusion heq

/-- A container that was not met before is met, and then what is inside it. -/
theorem Marks.cons {p : Nat} (hp : p ∉ seen.places) {r : Value × Seen} {w : Value}
    (h : Marks heap { seen with places := p :: seen.places } r w cs) :
    Marks heap seen r w (some p :: cs) := by
  have hadds : Adds seen { seen with places := p :: seen.places } [some p] := by
    intro c
    cases c with
    | none => simp [Seen.Has]
    | some q => simp [Seen.Has, or_comm]
  have hfirst : Fresh seen [some p] := ⟨by simp, by simpa [Seen.Has] using hp⟩
  have hfresh : Fresh seen (some p :: cs) ↔ Fresh { seen with places := p :: seen.places } cs := by
    rw [← List.singleton_append, fresh_append hadds]
    exact and_iff_right hfirst
  exact ⟨by rw [hfresh]; exact h.eq_iff, fun hnew => hadds.append (h.adds (hfresh.mp hnew))⟩

theorem marks_visitPlace (hheap : HoldsContainers heap) {depth : Nat} (hdepth : depth ≤ heap.length)
    (above : List Nat) :
    MarksPlaces heap above (visitPlace heap depth) (heap.expand depth above)
      (metAt heap depth above) := by
  have hshared : ∀ (seen : Seen) (p : Nat), Marks heap seen (circular, seen) (.shared p) [] :=
    fun seen p => ⟨iff_of_true rfl ⟨fresh_nil seen, fun u hu => by cases hu⟩, fun _ => adds_nil seen⟩
  refine ⟨fun seen p habove => ?_, isScalar_expand hheap depth above,
    expand_eq_marked_iff hheap hdepth (List.nil_subset _)⟩
  induction depth generalizing above seen p with
  | zero => exact hshared seen p
  | succ depth ih =>
    rw [Heap.expand, metAt]
    by_cases hp : p ∈ above
    · rw [if_pos (by simpa using hp), if_pos (by simpa using hp), visitPlace,
        if_pos (by simpa using habove hp)]
      exact hshared seen p
    · rw [if_neg (by simpa using hp), if_neg (by simpa using hp)]
      cases hv : heap[p]? with
      | none =>
        simp only [visitPlace, hv, ite_self]
        exact hshared seen p
      | some v =>
        dsimp only
        by_cases hmet : p ∈ seen.places
        · rw [visitPlace, if_pos (by simpa using hmet)]
          exact marks_met hmet hheap hv rfl
        · rw [visitPlace, if_neg (by simpa using hmet), hv]
          have hinner : MarksPlaces heap (p :: above) (visitPlace heap depth)
              (heap.expand depth (p :: above)) (metAt heap depth (p :: above)) :=
            ⟨fun seen q => ih (by omega) (p :: above) seen q,
              isScalar_expand hheap depth (p :: above),
              expand_eq_marked_iff hheap (by omega) (List.nil_subset _)⟩
          exact .cons hmet (marks_visit hinner _ (List.cons_subset_cons p habove) v)

/-- Redaction of a value whose containers stand in a heap.  Written out, the result is the copy of
the value written out, with a mark for each container where it recurs inside itself, exactly if
redaction meets no container on two ways, nor the empty tuple twice, and no container that recurs
is named in what is taken over.  In particular, if no container recurs inside itself, the result
is the copy of the value written out, without any mark, exactly if redaction meets every container
once. -/
theorem redact_marks_iff (heap : Heap) (v : Value) (hheap : HoldsContainers heap) :
    (heap.unroll (redact heap v) = marked (copy (heap.unroll v)) ↔
        (met heap v).Nodup ∧ ∀ u, TakenOver u (heap.unroll v) → noShared u = true) ∧
      (noShared (heap.unroll v) = true →
        (heap.unroll (redact heap v) = copy (heap.unroll v) ↔ (met heap v).Nodup)) := by
  have hplaces := marks_visitPlace hheap (Nat.le_refl heap.length) []
  have hmarks : heap.unroll (redact heap v) = marked (copy (heap.unroll v)) ↔
      Fresh {} (met heap v) ∧ Clean (heap.unroll v) :=
    (marks_visit hplaces {} (List.nil_subset _) v).eq_iff
  have hfresh : Fresh {} (met heap v) ↔ (met heap v).Nodup := by
    refine ⟨fun h => h.1, fun h => ⟨h, fun c _ => ?_⟩⟩
    cases c <;> simp [Seen.Has]
  rw [hfresh] at hmarks
  refine ⟨hmarks, fun hno => ?_⟩
  have hcopy : marked (copy (heap.unroll v)) = copy (heap.unroll v) :=
    mapShared_of_noShared _ _ (isTree_copy_of _ hno).1
  rw [hcopy] at hmarks
  exact hmarks.trans (and_iff_left (clean_of_noShared hno))

theorem redact_marks_iff_cycle :
    let heap : Heap := [.list [.int 1, .shared 0], .dict [(.text "a", .shared 2)], .list []]
    HoldsContainers heap ∧
      heap.unroll (redact heap (.shared 0)) = .list [.int 1, circular] ∧
      noShared (heap.unroll (.shared 1)) = true ∧
      heap.unroll (redact heap (.shared 1)) = copy (heap.unroll (.shared 1)) := by
  intro heap
  have hheap : HoldsContainers heap := by
    intro p v hv
    have hmem : v ∈ heap := List.mem_of_getElem? hv
    simp only [heap, List.mem_cons, List.not_mem_nil, or_false] at hmem
    rcases hmem with rfl | rfl | rfl
    · exact .inl ⟨_, rfl⟩
    · exact .inr (.inr ⟨_, rfl⟩)
    · exact .inl ⟨_, rfl⟩
  have hunroll : heap.unroll (.shared 0) = .list [.int 1, .shared 0] := rfl
  have htree : noShared (heap.unroll (.shared 1)) = true := rfl
  have hclean : ∀ u, TakenOver u (heap.unroll (.shared 0)) → noShared u = true := by
    rw [hunroll]
    intro u hu
    cases hu with
    | inList hitem hu =>
      simp only [List.mem_cons, List.not_mem_nil, or_false] at hitem
      rcases hitem with rfl | rfl <;> cases hu
  obtain ⟨hcycle, -⟩ := redact_marks_iff heap (.shared 0) hheap
  obtain ⟨-, hacyclic⟩ := redact_marks_iff heap (.shared 1) hheap
  exact ⟨hheap, hcycle.mpr ⟨by decide, hclean⟩, htree, (hacyclic htree).mpr (by decide)⟩

/-- A container that is named twice is marked, though nothing recurs inside itself. -/
theorem redact_marks_shared :
    let heap : Heap := [.list []]
    let v : Value := .list [.shared 0, .shared 0]
    noShared (heap.unroll v) = true ∧ copy (heap.unroll v) = .list [.list [], .list []] ∧
      redact heap v = .list [.list [], circular] ∧
      heap.unroll (redact heap v) ≠ copy (heap.unroll v) := by
  intro heap v
  have hredact : redact heap v = .list [.list [], circular] := rfl
  refine ⟨rfl, rfl, hredact, fun heq => ?_⟩
  have hitems : [Value.list [], circular] = [.list [], .list []] := Value.list.inj heq
  simp [circular] at hitems

end PromptShelf.Log
