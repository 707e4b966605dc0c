/-
Which values can be written after redaction.

Redaction takes a value apart: lists, tuples and dictionaries, and the containers they name, each
of them once.  It does not look into what it hides and what it takes over from under a key for
paths.  A value is `Loggable` if all it comes by can be written: the keys of the dictionaries and
the values taken over.  Values that hold themselves are loggable, too, for where redaction comes
by a container for the second time a mark takes its place; but not where they are taken over.

* **`Loggable.writable_redact`** — what is loggable can be written after redaction;
* **`loggable_of_writable_redact`** — and nothing else can, for redaction leaves out no container;
* **`writable_redact_iff`** — both together.
-/
import PromptShelf.Proofs.JsonText.Writable
import PromptShelf.Proofs.Log.Secrets

namespace PromptShelf.Log

open JsonText

/-- Redaction copies the entry part by part: it does not hide the value and does not take it
over. -/
def LooksInto (k v : Value) : Prop := (SoundsSecret k → isScalar v = false) ∧ k.display ∉ pathKeys

/-- Redaction hides the value under the key. -/
def Hides (k v : Value) : Prop := SoundsSecret k ∧ isScalar v = true

/-- What redaction takes of a value that it comes by can be written, without what it looks into. -/
def Presentable (Fits : Binary64 → Prop) (heap : Heap) : Value → Prop
  | .float x => Fits x
  | .dict entries => ∀ e ∈ entries,
      isKey e.1 = true ∧ (e.1.display ∈ pathKeys → Writable Fits heap e.2)
  | _ => True

/-- All that redaction comes by can be written. -/
def Loggable (Fits : Binary64 → Prop) (heap : Heap) (v : Value) : Prop :=
  Throughout heap LooksInto (Presentable Fits heap) v

variable {Fits : Binary64 → Prop} {heap : Heap}

/-! ### What an entry becomes -/

theorem not_soundsSecret_of_path {k : Value} (h : k.display ∈ pathKeys) : ¬ SoundsSecret k := by
  have hall : ∀ s ∈ pathKeys, (secretMarkers.any fun m =>
      occursIn m.toList (Text.lower s).toList) = false := by decide +kernel
  rw [← isSecretKey_iff]
  exact Bool.eq_false_iff.mp (hall _ h)

/-- What redaction makes of the value of an entry, and what it has come by then. -/
def visitUnder (shared : Seen → Nat → Value × Seen) (seen : Seen) (k v : Value) : Value × Seen :=
  if isSecretKey k && isScalar v then (.text redacted, seen)
  else if isPathKey k then (pathValue v, seen)
  else visit shared seen v

theorem visitEntries_cons (shared : Seen → Nat → Value × Seen) (seen : Seen) (k v : Value)
    (rest : List (Value × Value)) :
    visitEntries shared seen ((k, v) :: rest) =
      ((k, (visitUnder shared seen k v).1) ::
          (visitEntries shared (visitUnder shared seen k v).2 rest).1,
        (visitEntries shared (visitUnder shared seen k v).2 rest).2) := by
  rw [visitEntries, visitUnder]

theorem hides_iff {k v : Value} : (isSecretKey k && isScalar v) = true ↔ Hides k v := by
  rw [Bool.and_eq_true_iff, isSecretKey_iff, Hides]

theorem not_hides_of_path {k v : Value} (h : k.display ∈ pathKeys) : ¬ Hides k v :=
  fun hhides => not_soundsSecret_of_path h hhides.1

theorem LooksInto.not_hides {k v : Value} (h : LooksInto k v) : ¬ Hides k v := fun hhides =>
  absurd (hhides.2.symm.trans (h.1 hhides.1)) (by simp)

/-- Redaction hides the value of an entry, takes it over or looks into it. -/
theorem hides_or_path_or_looksInto (k v : Value) :
    Hides k v ∨ k.display ∈ pathKeys ∨ LooksInto k v := by
  by_cases hhides : Hides k v
  · exact .inl hhides
  · by_cases hpath : k.display ∈ pathKeys
    · exact .inr (.inl hpath)
    · exact .inr (.inr ⟨fun hk => Bool.eq_false_iff.mpr fun hv => hhides ⟨hk, hv⟩, hpath⟩)

section Under

variable {k v : Value} (shared : Seen → Nat → Value × Seen) (seen : Seen)

theorem visitUnder_of_hides (h : Hides k v) :
    visitUnder shared seen k v = (.text redacted, seen) := by
  rw [visitUnder, if_pos (hides_iff.mpr h)]

theorem visitUnder_of_path (h : k.display ∈ pathKeys) :
    visitUnder shared seen k v = (pathValue v, seen) := by
  rw [visitUnder, if_neg (hides_iff.not.mpr (not_hides_of_path h)), if_pos (isPathKey_iff.mpr h)]

theorem visitUnder_of_looksInto (h : LooksInto k v) :
    visitUnder shared seen k v = visit shared seen v := by
  rw [visitUnder, if_neg (hides_iff.not.mpr h.not_hides), if_neg (isPathKey_iff.not.mpr h.2)]

theorem copyUnder_of_hides (h : Hides k v) : copyUnder k v = .text redacted := by
  rw [copyUnder, if_pos (hides_iff.mpr h)]

theorem copyUnder_of_path (h : k.display ∈ pathKeys) : copyUnder k v = pathValue v := by
  rw [copyUnder, if_neg (hides_iff.not.mpr (not_hides_of_path h)), if_pos (isPathKey_iff.mpr h)]

theorem copyUnder_of_looksInto (h : LooksInto k v) : copyUnder k v = copy v := by
  rw [copyUnder, if_neg (hides_iff.not.mpr h.not_hides), if_neg (isPathKey_iff.not.mpr h.2)]

end Under

theorem writable_pathValue_iff {v : Value} :
    Writable Fits heap (pathValue v) ↔ Writable Fits heap v := by
  cases v with
  | text s => exact iff_of_true (.leaf trivial) (.leaf trivial)
  | _ => exact Iff.rfl

theorem throughout_leaf_iff {heap' : Heap} {P : Value → Prop} {v : Value}
    (h : IsLeaf AnyDouble v) : Throughout heap' LooksInto P v ↔ P v := by
  constructor
  · exact fun hall => hall v (.refl v)
  · intro hself w hw
    rw [h.eq_of_reaches hw]
    exact hself

theorem presentable_leaf_iff {v : Value} (h : IsLeaf AnyDouble v) :
    Presentable Fits heap v ↔ IsLeaf Fits v := by
  cases v with
  | list | tuple | dict | shared => exact h.elim
  | _ => exact Iff.rfl

theorem loggable_leaf {v : Value} (h : IsLeaf Fits v) : Loggable Fits heap v := by
  have hany : IsLeaf AnyDouble v := h.mono fun _ _ => trivial
  exact (throughout_leaf_iff hany).mpr ((presentable_leaf_iff hany).mpr h)

/-! ### What is loggable can be written -/

/-- Copies of loggable containers can be written. -/
def CopiesWritable (Fits : Binary64 → Prop) (heap : Heap) (shared : Seen → Nat → Value × Seen) :
    Prop :=
  ∀ seen p, Loggable Fits heap (.shared p) → Writable Fits heap (shared seen p).1

variable {shared : Seen → Nat → Value × Seen}

mutual

theorem writable_visit (hshared : CopiesWritable Fits heap shared) (seen : Seen) :
    ∀ v, Loggable Fits heap v → Writable Fits heap (visit shared seen v).1
  | .none, _ | .bool _, _ | .int _, _ | .text _, _ | .decimal _ _, _ | .bytes _, _ | .set _, _
  | .object _ _, _ => .leaf trivial
  | .float x, h => .leaf (h _ (.refl _))
  | .shared p, h => hshared seen p h
  | .list items, h => .list (writable_visitItems hshared seen items (throughout_list_iff.mp h).2)
  | .tuple [], _ => by
    rw [visit]
    split
    · exact .leaf trivial
    · exact .list fun w hw => absurd hw List.not_mem_nil
  | .tuple (v :: rest), h =>
    .list (writable_visitItems hshared seen (v :: rest) (throughout_tuple_iff.mp h).2)
  | .dict entries, h => by
    obtain ⟨hself, hinner⟩ := throughout_dict_iff.mp h
    exact writable_dict_iff.mpr (writable_visitEntries hshared seen entries hself hinner)

theorem writable_visitItems (hshared : CopiesWritable Fits heap shared) (seen : Seen) :
    ∀ items, (∀ v ∈ items, Loggable Fits heap v) → ∀ w ∈ (visitItems shared seen items).1, Writable Fits heap w
  | [], _ => fun w hw => absurd hw List.not_mem_nil
  | v :: rest, h => by
    rw [List.forall_mem_cons] at h
    exact List.forall_mem_cons.mpr
      ⟨writable_visit hshared seen v h.1, writable_visitItems hshared _ rest h.2⟩

theorem writable_visitEntries (hshared : CopiesWritable Fits heap shared) (seen : Seen) :
    ∀ entries, Presentable Fits heap (.dict entries) →
    (∀ e ∈ entries, LooksInto e.1 e.2 → Loggable Fits heap e.2) →
    ∀ e ∈ (visitEntries shared seen entries).1, isKey e.1 = true ∧ Writable Fits heap e.2
  | [], _, _ => fun e he => absurd he List.not_mem_nil
  | (k, v) :: rest, hself, hinner => by
    obtain ⟨⟨hkey, hpath⟩, hself⟩ := List.forall_mem_cons.mp hself
    rw [List.forall_mem_cons] at hinner
    rw [visitEntries_cons]
    refine List.forall_mem_cons.mpr ⟨⟨hkey, ?_⟩, writable_visitEntries hshared _ rest hself hinner.2⟩
    rcases hides_or_path_or_looksInto k v with hhides | hmem | hlooks
    · rw [visitUnder_of_hides _ _ hhides]
      exact .leaf trivial
    · rw [visitUnder_of_path _ _ hmem]
      exact writable_pathValue_iff.mpr (hpath hmem)
    · rw [visitUnder_of_looksInto _ _ hlooks]
      exact writable_visit hshared seen v (hinner.1 hlooks)

end

theorem writable_visitPlace (depth : Nat) : CopiesWritable Fits heap (visitPlace heap depth) := by
  induction depth with
  | zero => exact fun _ _ _ => .leaf trivial
  | succ depth ih =>
    intro seen p h
    rw [visitPlace]
    split
    · exact .leaf trivial
    · cases hw : heap[p]? with
      | none => exact .leaf trivial
      | some w => exact writable_visit ih _ w ((throughout_shared_iff.mp h).2 w hw)

/-- What is loggable can be written after redaction. -/
theorem Loggable.writable_redact {v : Value} (h : Loggable Fits heap v) :
    Writable Fits heap (redact heap v) :=
  writable_visit (writable_visitPlace heap.length) {} v h

/-! ### What can be written after redaction is loggable -/

/-- All that is in the value can be written, and the containers it names are at these places. -/
def Settled (Fits : Binary64 → Prop) (heap : Heap) (places : List Nat) (v : Value) : Prop :=
  Throughout [] LooksInto (fun w => Presentable Fits heap w ∧
    ∀ p, w = .shared p → p ∈ places ∨ heap[p]? = none) v

theorem Settled.mono {places places' : List Nat} {v : Value} (h : Settled Fits heap places v)
    (hsub : places ⊆ places') : Settled Fits heap places' v :=
  h.imp fun _ ⟨hself, hnames⟩ => ⟨hself, fun p hp => (hnames p hp).imp_left fun h => hsub h⟩

/-- A value is loggable if it is settled with places whose containers are. -/
theorem loggable_of_settled {places : List Nat} {v : Value} (h : Settled Fits heap places v)
    (hplaces : ∀ p ∈ places, ∀ w, heap[p]? = some w → Settled Fits heap places w) :
    Loggable Fits heap v := by
  refine Throughout.of_closed h fun p hp w hw => ?_
  rcases hp with hp | hnone
  · exact hplaces p hp w hw
  · exact absurd (hnone.symm.trans hw) (by simp)

/-- Between two states of redaction places were added only, and the containers at the new ones are
settled. -/
structure Explored (Fits : Binary64 → Prop) (heap : Heap) (depth : Nat) (seen seen' : Seen) :
    Prop where
  subset : seen.places ⊆ seen'.places
  unmet : Unmet heap depth seen'.places
  settled : ∀ p ∈ seen'.places, p ∉ seen.places → ∀ w, heap[p]? = some w →
    Settled Fits heap seen'.places w

theorem Explored.refl {depth : Nat} {seen : Seen} (h : Unmet heap depth seen.places) :
    Explored Fits heap depth seen seen :=
  ⟨fun _ hp => hp, h, fun _ hp hnew => absurd hp hnew⟩

theorem Explored.trans {depth : Nat} {seen seen' seen'' : Seen}
    (h : Explored Fits heap depth seen seen') (h' : Explored Fits heap depth seen' seen'') :
    Explored Fits heap depth seen seen'' := by
  refine ⟨fun p hp => h'.subset (h.subset hp), h'.unmet, fun p hp hnew w hw => ?_⟩
  by_cases hmid : p ∈ seen'.places
  · exact (h.settled p hmid hnew w hw).mono h'.subset
  · exact h'.settled p hp hmid w hw

theorem settled_leaf {places : List Nat} {v : Value} (h : IsLeaf Fits v) :
    Settled Fits heap places v := by
  have hany : IsLeaf AnyDouble v := h.mono fun _ _ => trivial
  refine (throughout_leaf_iff hany).mpr ⟨(presentable_leaf_iff hany).mpr h, ?_⟩
  rintro p rfl
  exact h.elim

theorem settled_shared {places : List Nat} {p : Nat} (h : p ∈ places ∨ heap[p]? = none) :
    Settled Fits heap places (.shared p) := by
  refine throughout_shared_iff.mpr ⟨⟨trivial, fun q hq => ?_⟩, by simp⟩
  obtain rfl := Value.shared.inj hq
  exact h

/-- Containers whose copies can be written are explored. -/
def CopiesExplored (Fits : Binary64 → Prop) (heap : Heap) (depth : Nat)
    (shared : Seen → Nat → Value × Seen) : Prop :=
  ∀ seen p, Unmet heap depth seen.places → Writable Fits heap (shared seen p).1 →
    Explored Fits heap depth seen (shared seen p).2 ∧
      Settled Fits heap (shared seen p).2.places (.shared p)

variable {depth : Nat}

mutual

theorem explored_visit (hshared : CopiesExplored Fits heap depth shared) (seen : Seen)
    (hunmet : Unmet heap depth seen.places) :
    ∀ v, Writable Fits heap (visit shared seen v).1 →
      Explored Fits heap depth seen (visit shared seen v).2 ∧
        Settled Fits heap (visit shared seen v).2.places v
  | .none, _ | .bool _, _ | .int _, _ | .text _, _ | .decimal _ _, _ | .bytes _, _ | .set _, _
  | .object _ _, _ => ⟨.refl hunmet, settled_leaf trivial⟩
  | .float x, h => by
    have hleaf : IsLeaf Fits (.float x) := (writable_leaf_iff (v := .float x) trivial).mp h
    exact ⟨.refl hunmet, settled_leaf hleaf⟩
  | .shared p, h => hshared seen p hunmet h
  | .list items, h => by
    obtain ⟨hexplored, hsettled⟩ :=
      explored_visitItems hshared seen hunmet items (writable_list_iff.mp h)
    exact ⟨hexplored, throughout_list_iff.mpr ⟨⟨trivial, by simp⟩, hsettled⟩⟩
  | .tuple [], _ => by
    refine ⟨?_, throughout_tuple_iff.mpr ⟨⟨trivial, by simp⟩, by simp⟩⟩
    rw [visit]
    split
    · exact .refl hunmet
    · exact ⟨fun _ hp => hp, hunmet, fun _ hp hnew => absurd hp hnew⟩
  | .tuple (v :: rest), h => by
    obtain ⟨hexplored, hsettled⟩ :=
      explored_visitItems hshared seen hunmet (v :: rest) (writable_list_iff.mp h)
    exact ⟨hexplored, throughout_tuple_iff.mpr ⟨⟨trivial, by simp⟩, hsettled⟩⟩
  | .dict entries, h => by
    obtain ⟨hexplored, hself, hsettled⟩ :=
      explored_visitEntries hshared seen hunmet entries (writable_dict_iff.mp h)
    exact ⟨hexplored, throughout_dict_iff.mpr ⟨⟨hself, by simp⟩, hsettled⟩⟩

theorem explored_visitItems (hshared : CopiesExplored Fits heap depth shared) (seen : Seen)
    (hunmet : Unmet heap depth seen.places) :
    ∀ items, (∀ w ∈ (visitItems shared seen items).1, Writable Fits heap w) →
      Explored Fits heap depth seen (visitItems shared seen items).2 ∧
        ∀ v ∈ items, Settled Fits heap (visitItems shared seen items).2.places v
  | [], _ => ⟨.refl hunmet, fun v hv => absurd hv List.not_mem_nil⟩
  | v :: rest, h => by
    obtain ⟨hv, hrest⟩ := List.forall_mem_cons.mp h
    obtain ⟨hfirst, hsettled⟩ := explored_visit hshared seen hunmet v hv
    obtain ⟨hothers, hsettled'⟩ := explored_visitItems hshared _ hfirst.unmet rest hrest
    exact ⟨hfirst.trans hothers,
      List.forall_mem_cons.mpr ⟨hsettled.mono hothers.subset, hsettled'⟩⟩

theorem explored_visitEntries (hshared : CopiesExplored Fits heap depth shared) (seen : Seen)
    (hunmet : Unmet heap depth seen.places) :
    ∀ entries, (∀ e ∈ (visitEntries shared seen entries).1,
        isKey e.1 = true ∧ Writable Fits heap e.2) →
      Explored Fits heap depth seen (visitEntries shared seen entries).2 ∧
        Presentable Fits heap (.dict entries) ∧
        ∀ e ∈ entries, LooksInto e.1 e.2 →
          Settled Fits heap (visitEntries shared seen entries).2.places e.2
  | [], _ => ⟨.refl hunmet, fun e he => absurd he List.not_mem_nil,
      fun e he => absurd he List.not_mem_nil⟩
  | (k, v) :: rest, h => by
    rw [visitEntries_cons] at h ⊢
    obtain ⟨⟨hkey, hv⟩, hrest⟩ := List.forall_mem_cons.mp h
    -- What stands under the key is explored as far as redaction looks into it.
    have hfirst : Explored Fits heap depth seen (visitUnder shared seen k v).2 ∧
        (k.display ∈ pathKeys → Writable Fits heap v) ∧
        (LooksInto k v → Settled Fits heap (visitUnder shared seen k v).2.places v) := by
      rcases hides_or_path_or_looksInto k v with hhides | hpath | hlooks
      · rw [visitUnder_of_hides _ _ hhides]
        exact ⟨.refl hunmet, fun h => absurd hhides (not_hides_of_path h),
          fun h => absurd hhides h.not_hides⟩
      · rw [visitUnder_of_path _ _ hpath] at hv ⊢
        exact ⟨.refl hunmet, fun _ => writable_pathValue_iff.mp hv, fun h => absurd hpath h.2⟩
      · rw [visitUnder_of_looksInto _ _ hlooks] at hv ⊢
        obtain ⟨hexplored, hsettled⟩ := explored_visit hshared seen hunmet v hv
        exact ⟨hexplored, fun h => absurd h hlooks.2, fun _ => hsettled⟩
    obtain ⟨hexplored, hpath, hsettled⟩ := hfirst
    obtain ⟨hothers, hself, hsettled'⟩ :=
      explored_visitEntries hshared _ hexplored.unmet rest hrest
    exact ⟨hexplored.trans hothers, List.forall_mem_cons.mpr ⟨⟨hkey, hpath⟩, hself⟩,
      List.forall_mem_cons.mpr ⟨fun h => (hsettled h).mono hothers.subset, hsettled'⟩⟩

end

theorem explored_visitPlace (depth : Nat) :
    CopiesExplored Fits heap depth (visitPlace heap depth) := by
  induction depth with
  | zero =>
    intro seen p hunmet h
    -- Without depth left all places are met.
    refine ⟨.refl hunmet, settled_shared ?_⟩
    cases hw : heap[p]? with
    | none => exact .inr rfl
    | some w =>
      refine .inl ?_
      by_contra hnew
      obtain ⟨d, hd, -⟩ := hunmet.cons hw hnew
      omega
  | succ depth ih =>
    intro seen p hunmet h
    rw [visitPlace] at h ⊢
    by_cases hmet : p ∈ seen.places
    · rw [if_pos (by simpa using hmet)]
      exact ⟨.refl hunmet, settled_shared (.inl hmet)⟩
    · rw [if_neg (by simpa using hmet)] at h ⊢
      cases hw : heap[p]? with
      | none => exact ⟨.refl hunmet, settled_shared (.inr hw)⟩
      | some w =>
        rw [hw] at h
        obtain ⟨d, hd, hunmet'⟩ := hunmet.cons hw hmet
        obtain rfl := Nat.succ.inj hd
        obtain ⟨hexplored, hsettled⟩ :=
          explored_visit ih { seen with places := p :: seen.places } hunmet' w h
        refine ⟨⟨fun q hq => hexplored.subset (List.mem_cons_of_mem _ hq),
          hexplored.unmet.succ, fun q hq hnew u hu => ?_⟩,
          settled_shared (.inl (hexplored.subset List.mem_cons_self))⟩
        by_cases hqp : q = p
        · subst hqp
          obtain rfl := Option.some.inj (hw.symm.trans hu)
          exact hsettled
        · exact hexplored.settled q hq (by simp [hqp, hnew]) u hu

/-- What can be written after redaction is loggable. -/
theorem loggable_of_writable_redact {v : Value} (h : Writable Fits heap (redact heap v)) :
    Loggable Fits heap v := by
  obtain ⟨hexplored, hsettled⟩ := explored_visit (explored_visitPlace heap.length) {}
    (Unmet.initial heap) v h
  -- Nothing was met before, so all places that were met are settled.
  exact loggable_of_settled hsettled fun p hp w hw =>
    hexplored.settled p hp List.not_mem_nil w hw

theorem writable_redact_iff {v : Value} :
    Writable Fits heap (redact heap v) ↔ Loggable Fits heap v :=
  ⟨loggable_of_writable_redact, Loggable.writable_redact⟩

end PromptShelf.Log
