/-
Redaction as a recursion without any bound on its depth.

The recursion is a relation (`Visits`).  It carries the containers seen so far from part to part
and records those that it expands.  A container is known by where it stands (`Node`), in the value
or in the heap, and all empty tuples are one.  Keys are names and not parts of anything.

* **`visits_unique`** — the recursion comes to one result at most;
* **`visits_records`** — it expands what was not seen before, each container once, and what it
  expands has been seen afterwards;
* **`visits_graph`**, **`finite_graph`** — all of that is in the graph of the value, which has
  finitely many containers;
* **`visits_writtenOut`**, **`visits_containers`** — the result is written out, and for each
  container in it one was expanded.
-/
import Mathlib.Data.Set.Finite.Lattice
import PromptShelf.Proofs.Log.Shape

namespace PromptShelf.Log

open JsonText

/-- Where a value stands: in the value that is copied or in a container of the heap, and there
under parts at these positions, the innermost first. -/
structure Spot where
  root : Option Nat := none
  position : List Nat := []

/-- Where a part stands of what stands here. -/
def Spot.part (s : Spot) (n : Nat) : Spot := { s with position := n :: s.position }

/-- Where a container of the heap stands. -/
def Spot.place (p : Nat) : Spot := { root := some p }

/-- A container, by where it stands; all empty tuples are one. -/
inductive Node
  | standing (s : Spot)
  | emptyTuple

/-- The container that a value is where it stands. -/
def node? (s : Spot) : Value → Option Node
  | .list _ => some (.standing s)
  | .tuple [] => some .emptyTuple
  | .tuple (_ :: _) => some (.standing s)
  | .dict _ => some (.standing s)
  | _ => none

/-- A container with copies in the place of its parts: sequences become lists, and keys stay. -/
def withCopies : Value → List Value → Value
  | .dict entries, copies => .dict ((entries.map Prod.fst).zip copies)
  | _, copies => .list copies

mutual

/-- The copy of a value that stands somewhere, with the containers seen before, those expanded on
the way, in their order, and those seen afterwards. -/
inductive Visits (heap : Heap) : Spot → List Node → Value → Value → List Node → List Node → Prop
  | leaf {s : Spot} {seen : List Node} {v : Value} (hv : IsLeaf AnyDouble v) :
    Visits heap s seen v v [] seen
  | place {s : Spot} {seen expanded seen' : List Node} {p : Nat} {w c : Value}
      (hw : heap[p]? = some w) (h : Visits heap (.place p) seen w c expanded seen') :
    Visits heap s seen (.shared p) c expanded seen'
  | nowhere {s : Spot} {seen : List Node} {p : Nat} (hp : heap[p]? = none) :
    Visits heap s seen (.shared p) circular [] seen
  | again {s : Spot} {seen : List Node} {v : Value} {node : Node} (hnode : node? s v = some node)
      (hseen : node ∈ seen) :
    Visits heap s seen v circular [] seen
  | expand {s : Spot} {seen expanded seen' : List Node} {v : Value} {node : Node}
      {copies : List Value} (hnode : node? s v = some node) (hnew : node ∉ seen)
      (h : VisitsParts heap s 0 (node :: seen) (parts v) copies expanded seen') :
    Visits heap s seen v (withCopies v copies) (node :: expanded) seen'

/-- The copies of the parts from a position on of a container, each visited with what was seen up
to the one before. -/
inductive VisitsParts (heap : Heap) : Spot → Nat → List Node → List (Option Value × Value) →
    List Value → List Node → List Node → Prop
  | nil {s : Spot} {n : Nat} {seen : List Node} : VisitsParts heap s n seen [] [] [] seen
  | hidden {s : Spot} {n : Nat} {seen expanded seen' : List Node} {k v : Value}
      {rest : List (Option Value × Value)} {copies : List Value} (hhides : Hides k v)
      (h : VisitsParts heap s (n + 1) seen rest copies expanded seen') :
    VisitsParts heap s n seen ((some k, v) :: rest) (.text redacted :: copies) expanded seen'
  | path {s : Spot} {n : Nat} {seen expanded seen' : List Node} {k v : Value}
      {rest : List (Option Value × Value)} {copies : List Value} (hpath : k.display ∈ pathKeys)
      (h : VisitsParts heap s (n + 1) seen rest copies expanded seen') :
    VisitsParts heap s n seen ((some k, v) :: rest) (pathValue v :: copies) expanded seen'
  | visited {s : Spot} {n : Nat} {seen first seen' others seen'' : List Node} {key : Option Value}
      {v c : Value} {rest : List (Option Value × Value)} {copies : List Value}
      (hlooks : ∀ k, key = some k → LooksInto k v)
      (hv : Visits heap (s.part n) seen v c first seen')
      (h : VisitsParts heap s (n + 1) seen' rest copies others seen'') :
    VisitsParts heap s n seen ((key, v) :: rest) (c :: copies) (first ++ others) seen''

end

/-- What stands where in the graph of a value `start` that stands at `origin`: the value itself,
the parts of what stands somewhere, and the containers whose places do. -/
inductive Occurs (heap : Heap) (origin : Spot) (start : Value) : Spot → Value → Prop
  | start : Occurs heap origin start origin start
  | part {s : Spot} {v w : Value} {n : Nat} {key : Option Value} (h : Occurs heap origin start s v)
      (hw : (parts v)[n]? = some (key, w)) : Occurs heap origin start (s.part n) w
  | place {s : Spot} {p : Nat} {w : Value} (h : Occurs heap origin start s (.shared p))
      (hw : heap[p]? = some w) : Occurs heap origin start (.place p) w

/-- The containers in the graph of a value. -/
def graph (heap : Heap) (start : Value) : Set Node :=
  {node | ∃ s v, Occurs heap {} start s v ∧ node? s v = some node}

mutual

/-- How many containers are in a value, without what stands under keys for paths. -/
def containers : Value → Nat
  | .list items => containersIn items + 1
  | .tuple items => containersIn items + 1
  | .dict entries => containersUnder entries + 1
  | .shared _ => 1
  | _ => 0

def containersIn : List Value → Nat
  | [] => 0
  | v :: rest => containers v + containersIn rest

def containersUnder : List (Value × Value) → Nat
  | [] => 0
  | (k, v) :: rest => (if isPathKey k then 0 else containers v) + containersUnder rest

end

/-- The value is written out: no place is named in it, but in what is taken over. -/
def WrittenOut (v : Value) : Prop := Throughout [] LooksInto (fun w => ∀ p, w ≠ .shared p) v

variable {heap : Heap}

/-! ### Containers and leaves -/

section Leaves

variable {s : Spot} {v : Value}

theorem node?_leaf (h : IsLeaf AnyDouble v) : node? s v = none := by
  cases v with
  | list | tuple | dict | shared => exact h.elim
  | _ => rfl

theorem containers_leaf (h : IsLeaf AnyDouble v) : containers v = 0 := by
  cases v with
  | list | tuple | dict | shared => exact h.elim
  | _ => rfl

/-- A container is a list, a tuple or a dictionary. -/
theorem exists_node?_iff : (∃ node, node? s v = some node) ↔
    (∃ items, v = .list items) ∨ (∃ items, v = .tuple items) ∨ ∃ entries, v = .dict entries := by
  cases v with
  | tuple items => cases items <;> simp [node?]
  | _ => simp [node?]

end Leaves

/-! ### One result -/

mutual

theorem visits_unique {s : Spot} {seen seen' expanded : List Node} {v c : Value} :
    Visits heap s seen v c expanded seen' → ∀ c' expanded' seen'',
    Visits heap s seen v c' expanded' seen'' → c' = c ∧ expanded' = expanded ∧ seen'' = seen'
  | .leaf hv, _, _, _, h' => by
    cases h' with
    | leaf => exact ⟨rfl, rfl, rfl⟩
    | place | nowhere => exact hv.elim
    | again hnode | expand hnode => exact absurd hnode (by simp [node?_leaf hv])
  | .place hw h, _, _, _, h' => by
    -- Taken before the cases of the other visit, which put other spots and values in its place.
    have ih := visits_unique h
    cases h' with
    | leaf hv => exact hv.elim
    | place hw' h' =>
      obtain rfl := Option.some.inj (hw.symm.trans hw')
      exact ih _ _ _ h'
    | nowhere hp => exact absurd (hw.symm.trans hp) (by simp)
    | again hnode | expand hnode => exact absurd hnode (by simp [node?])
  | .nowhere hp, _, _, _, h' => by
    cases h' with
    | leaf hv => exact hv.elim
    | place hw => exact absurd (hp.symm.trans hw) (by simp)
    | nowhere => exact ⟨rfl, rfl, rfl⟩
    | again hnode | expand hnode => exact absurd hnode (by simp [node?])
  | .again hnode hseen, _, _, _, h' => by
    cases h' with
    | leaf hv => exact absurd hnode (by simp [node?_leaf hv])
    | place | nowhere => exact absurd hnode (by simp [node?])
    | again => exact ⟨rfl, rfl, rfl⟩
    | expand hnode' hnew =>
      obtain rfl := Option.some.inj (hnode.symm.trans hnode')
      exact absurd hseen hnew
  | .expand hnode hnew h, _, _, _, h' => by
    have ih := visitsParts_unique h
    cases h' with
    | leaf hv => exact absurd hnode (by simp [node?_leaf hv])
    | place | nowhere => exact absurd hnode (by simp [node?])
    | again hnode' hseen =>
      obtain rfl := Option.some.inj (hnode.symm.trans hnode')
      exact absurd hseen hnew
    | expand hnode' _ h' =>
      obtain rfl := Option.some.inj (hnode.symm.trans hnode')
      obtain ⟨rfl, rfl, rfl⟩ := ih _ _ _ h'
      exact ⟨rfl, rfl, rfl⟩

theorem visitsParts_unique {s : Spot} {n : Nat} {seen seen' expanded : List Node}
    {ps : List (Option Value × Value)} {copies : List Value} :
    VisitsParts heap s n seen ps copies expanded seen' → ∀ copies' expanded' seen'',
    VisitsParts heap s n seen ps copies' expanded' seen'' →
    copies' = copies ∧ expanded' = expanded ∧ seen'' = seen'
  | .nil, _, _, _, .nil => ⟨rfl, rfl, rfl⟩
  | .hidden hhides h, _, _, _, h' => by
    have ih := visitsParts_unique h
    cases h' with
    | hidden _ h' =>
      obtain ⟨rfl, rfl, rfl⟩ := ih _ _ _ h'
      exact ⟨rfl, rfl, rfl⟩
    | path hpath => exact absurd hhides (not_hides_of_path hpath)
    | visited hlooks => exact absurd hhides (hlooks _ rfl).not_hides
  | .path hpath h, _, _, _, h' => by
    have ih := visitsParts_unique h
    cases h' with
    | hidden hhides => exact absurd hhides (not_hides_of_path hpath)
    | path _ h' =>
      obtain ⟨rfl, rfl, rfl⟩ := ih _ _ _ h'
      exact ⟨rfl, rfl, rfl⟩
    | visited hlooks => exact absurd hpath (hlooks _ rfl).2
  | .visited hlooks hv h, _, _, _, h' => by
    have ihv := visits_unique hv
    have ih := visitsParts_unique h
    cases h' with
    | hidden hhides => exact absurd hhides (hlooks _ rfl).not_hides
    | path hpath => exact absurd hpath (hlooks _ rfl).2
    | visited _ hv' h' =>
      obtain ⟨rfl, rfl, rfl⟩ := ihv _ _ _ hv'
      obtain ⟨rfl, rfl, rfl⟩ := ih _ _ _ h'
      exact ⟨rfl, rfl, rfl⟩

end

/-! ### What is expanded -/

/-- These containers were not seen before, each of them comes once, and they are what is added to
those seen. -/
structure Records (seen expanded seen' : List Node) : Prop where
  nodup : expanded.Nodup
  notMem : ∀ node ∈ expanded, node ∉ seen
  eq_append : seen' = expanded.reverse ++ seen

section Records

variable {seen seen' expanded : List Node}

theorem records_nil (seen : List Node) : Records seen [] seen :=
  ⟨List.nodup_nil, fun _ h => absurd h List.not_mem_nil, rfl⟩

theorem Records.mem_iff (h : Records seen expanded seen') {node : Node} :
    node ∈ seen' ↔ node ∈ expanded ∨ node ∈ seen := by
  rw [h.eq_append, List.mem_append, List.mem_reverse]

theorem Records.suffix (h : Records seen expanded seen') : seen <:+ seen' :=
  ⟨expanded.reverse, h.eq_append.symm⟩

theorem Records.append {others seen'' : List Node} (h : Records seen expanded seen')
    (h' : Records seen' others seen'') : Records seen (expanded ++ others) seen'' := by
  refine ⟨?_, ?_, ?_⟩
  · refine List.nodup_append.mpr ⟨h.nodup, h'.nodup, fun a ha b hb heq => ?_⟩
    exact h'.notMem b hb (h.mem_iff.mpr (.inl (heq ▸ ha)))
  · intro node hnode
    rcases List.mem_append.mp hnode with hnode | hnode
    · exact h.notMem node hnode
    · exact fun hseen => h'.notMem node hnode (h.mem_iff.mpr (.inr hseen))
  · rw [h'.eq_append, h.eq_append, List.reverse_append, List.append_assoc]

theorem Records.cons {node : Node} (hnew : node ∉ seen)
    (h : Records (node :: seen) expanded seen') : Records seen (node :: expanded) seen' := by
  have hfirst : Records seen [node] (node :: seen) :=
    ⟨List.nodup_singleton node, by simpa using hnew, rfl⟩
  exact hfirst.append h

end Records

mutual

theorem visits_records {s : Spot} {seen seen' expanded : List Node} {v c : Value} :
    Visits heap s seen v c expanded seen' → Records seen expanded seen'
  | .leaf _ => records_nil _
  | .place _ h => visits_records h
  | .nowhere _ => records_nil _
  | .again _ _ => records_nil _
  | .expand _ hnew h => (visitsParts_records h).cons hnew

theorem visitsParts_records {s : Spot} {n : Nat} {seen seen' expanded : List Node}
    {ps : List (Option Value × Value)} {copies : List Value} :
    VisitsParts heap s n seen ps copies expanded seen' → Records seen expanded seen'
  | .nil => records_nil _
  | .hidden _ h => visitsParts_records h
  | .path _ h => visitsParts_records h
  | .visited _ hv h => (visits_records hv).append (visitsParts_records h)

end

/-- The parts behind the first one stand one position further. -/
theorem occurs_tail {start : Value} {s : Spot} {n : Nat} {p : Option Value × Value}
    {rest : List (Option Value × Value)}
    (h : ∀ m key w, (p :: rest)[m]? = some (key, w) → Occurs heap {} start (s.part (n + m)) w) :
    ∀ m key w, rest[m]? = some (key, w) → Occurs heap {} start (s.part (n + 1 + m)) w := by
  intro m key w hw
  rw [Nat.add_assoc, Nat.add_comm 1 m]
  exact h (m + 1) key w hw

mutual

theorem visits_graph {start : Value} {s : Spot} {seen seen' expanded : List Node} {v c : Value} :
    Visits heap s seen v c expanded seen' → Occurs heap {} start s v →
    ∀ node ∈ expanded, node ∈ graph heap start
  | .leaf _, _ => fun _ h => absurd h List.not_mem_nil
  | .place hw h, hv => visits_graph h (hv.place hw)
  | .nowhere _, _ => fun _ h => absurd h List.not_mem_nil
  | .again _ _, _ => fun _ h => absurd h List.not_mem_nil
  | .expand hnode _ h, hv => by
    have hparts := visitsParts_graph h fun m key w hw => by
      rw [Nat.zero_add]
      exact hv.part hw
    exact List.forall_mem_cons.mpr ⟨⟨s, v, hv, hnode⟩, hparts⟩

theorem visitsParts_graph {start : Value} {s : Spot} {n : Nat} {seen seen' expanded : List Node}
    {ps : List (Option Value × Value)} {copies : List Value} :
    VisitsParts heap s n seen ps copies expanded seen' →
    (∀ m key w, ps[m]? = some (key, w) → Occurs heap {} start (s.part (n + m)) w) →
    ∀ node ∈ expanded, node ∈ graph heap start
  | .nil, _ => fun _ h => absurd h List.not_mem_nil
  | .hidden _ h, hps => visitsParts_graph h (occurs_tail hps)
  | .path _ h, hps => visitsParts_graph h (occurs_tail hps)
  | .visited _ hv h, hps => fun node hnode =>
    (List.mem_append.mp hnode).elim (visits_graph hv (hps 0 _ _ rfl) node)
      (visitsParts_graph h (occurs_tail hps) node)

end

/-! ### The graph is finite -/

theorem sizeOf_lt_of_mem_parts {v : Value} {p : Option Value × Value} (hp : p ∈ parts v) :
    sizeOf p.2 < sizeOf v := by
  cases v with
  | list items | tuple items =>
    obtain ⟨w, hw, rfl⟩ := List.mem_map.mp hp
    have hlt := List.sizeOf_lt_of_mem hw
    simp only [Value.list.sizeOf_spec, Value.tuple.sizeOf_spec]
    omega
  | dict entries =>
    obtain ⟨⟨k, w⟩, hw, rfl⟩ := List.mem_map.mp hp
    have hlt := List.sizeOf_lt_of_mem hw
    simp only [Value.dict.sizeOf_spec, Prod.mk.sizeOf_spec] at hlt ⊢
    omega
  | _ => exact absurd hp List.not_mem_nil

/-- What stands in the graph of a value, with its spot. -/
def occurrences (heap : Heap) (origin : Spot) (start : Value) : Set (Spot × Value) :=
  {x | Occurs heap origin start x.1 x.2}

/-- Inside a value no place leads on. -/
theorem occurrences_inside_subset (origin : Spot) (start : Value) :
    occurrences [] origin start ⊆ {(origin, start)} ∪
      ⋃ n : Fin (parts start).length, occurrences [] (origin.part n) (parts start)[n].2 := by
  rintro ⟨s, v⟩ (h : Occurs [] origin start s v)
  simp only [Set.mem_union, Set.mem_singleton_iff, Set.mem_iUnion]
  induction h with
  | start => exact .inl rfl
  | @part s v w n key h hw ih =>
    rcases ih with heq | ⟨m, hm⟩
    · obtain ⟨rfl, rfl⟩ := Prod.mk.inj heq
      obtain ⟨hn, hget⟩ := List.getElem?_eq_some_iff.mp hw
      have hw' : (parts v)[n].2 = w := congrArg Prod.snd hget
      exact .inr ⟨⟨n, hn⟩, hw' ▸ .start⟩
    · exact .inr ⟨m, .part hm hw⟩
  | place h hw => exact absurd hw (by simp)

theorem finite_occurrences_inside (origin : Spot) (start : Value) :
    (occurrences [] origin start).Finite := by
  refine Set.Finite.subset ?_ (occurrences_inside_subset origin start)
  refine (Set.finite_singleton _).union (Set.finite_iUnion fun n => ?_)
  exact finite_occurrences_inside (origin.part n) (parts start)[n].2
termination_by sizeOf start
decreasing_by exact sizeOf_lt_of_mem_parts (List.getElem_mem _)

theorem occurrences_subset (heap : Heap) (start : Value) :
    occurrences heap {} start ⊆ occurrences [] {} start ∪
      ⋃ p : Fin heap.length, occurrences [] (.place p) heap[p] := by
  rintro ⟨s, v⟩ (h : Occurs heap {} start s v)
  simp only [Set.mem_union, Set.mem_iUnion]
  induction h with
  | start => exact .inl .start
  | part h hw ih => exact ih.imp (.part · hw) fun ⟨p, hp⟩ => ⟨p, .part hp hw⟩
  | @place s p w h hw ih =>
    obtain ⟨hp, rfl⟩ := List.getElem?_eq_some_iff.mp hw
    exact .inr ⟨⟨p, hp⟩, .start⟩

theorem finite_graph (heap : Heap) (start : Value) : (graph heap start).Finite := by
  have hplaces : (⋃ p : Fin heap.length, occurrences [] (.place p) heap[p]).Finite :=
    Set.finite_iUnion fun p => finite_occurrences_inside (.place p) heap[p]
  have hfinite : (occurrences heap {} start).Finite :=
    ((finite_occurrences_inside {} start).union hplaces).subset (occurrences_subset heap start)
  refine (hfinite.image fun x => (node? x.1 x.2).getD .emptyTuple).subset ?_
  rintro node ⟨s, v, hv, hnode⟩
  exact ⟨(s, v), hv, by simp [hnode]⟩

/-! ### The containers of the result -/

theorem writtenOut_leaf {v : Value} (h : IsLeaf AnyDouble v) : WrittenOut v := by
  refine (throughout_leaf_iff h).mpr fun p hp => ?_
  subst hp
  exact h.elim

/-- A copy of a part is written out if it is not taken over. -/
def PartWrittenOut (p : Option Value × Value) (c : Value) : Prop :=
  (∀ k, p.1 = some k → k.display ∉ pathKeys) → WrittenOut c

theorem writtenOut_items {items copies : List Value}
    (h : List.Forall₂ PartWrittenOut (items.map fun v => (none, v)) copies) :
    WrittenOut (.list copies) := by
  refine throughout_list_iff.mpr ⟨by simp, fun c hc => ?_⟩
  obtain ⟨n, hn, rfl⟩ := List.getElem_of_mem hc
  exact h.get (by rw [h.length_eq]; exact hn) hn (by simp)

theorem writtenOut_entries {entries : List (Value × Value)} {copies : List Value}
    (h : List.Forall₂ PartWrittenOut (entries.map fun e => (some e.1, e.2)) copies) :
    WrittenOut (.dict ((entries.map Prod.fst).zip copies)) := by
  refine throughout_dict_iff.mpr ⟨by simp, fun e he hlooks => ?_⟩
  rw [List.zip_map_left] at he
  obtain ⟨⟨e', c⟩, hmem, rfl⟩ := List.mem_map.mp he
  refine List.forall₂_zip (List.forall₂_map_left_iff.mp h) hmem fun k hk => ?_
  obtain rfl : e'.1 = k := Option.some.inj hk
  exact hlooks.2

theorem writtenOut_withCopies {s : Spot} {v : Value} {node : Node} {copies : List Value}
    (hnode : node? s v = some node) (h : List.Forall₂ PartWrittenOut (parts v) copies) :
    WrittenOut (withCopies v copies) := by
  rcases exists_node?_iff.mp ⟨node, hnode⟩ with ⟨items, rfl⟩ | ⟨items, rfl⟩ | ⟨entries, rfl⟩
  · exact writtenOut_items h
  · exact writtenOut_items h
  · exact writtenOut_entries h

mutual

theorem visits_writtenOut {s : Spot} {seen seen' expanded : List Node} {v c : Value} :
    Visits heap s seen v c expanded seen' → WrittenOut c
  | .leaf hv => writtenOut_leaf hv
  | .place _ h => visits_writtenOut h
  | .nowhere _ => writtenOut_leaf trivial
  | .again _ _ => writtenOut_leaf trivial
  | .expand hnode _ h => writtenOut_withCopies hnode (visitsParts_writtenOut h)

theorem visitsParts_writtenOut {s : Spot} {n : Nat} {seen seen' expanded : List Node}
    {ps : List (Option Value × Value)} {copies : List Value} :
    VisitsParts heap s n seen ps copies expanded seen' → List.Forall₂ PartWrittenOut ps copies
  | .nil => .nil
  | .hidden _ h => .cons (fun _ => writtenOut_leaf trivial) (visitsParts_writtenOut h)
  | .path hpath h => .cons (fun hout => absurd hpath (hout _ rfl)) (visitsParts_writtenOut h)
  | .visited _ hv h => .cons (fun _ => visits_writtenOut hv) (visitsParts_writtenOut h)

end

/-- How many containers are in copies of parts. -/
def containersOf : List (Option Value × Value) → List Value → Nat
  | (none, _) :: ps, c :: copies => containers c + containersOf ps copies
  | (some k, _) :: ps, c :: copies =>
    (if isPathKey k then 0 else containers c) + containersOf ps copies
  | _, _ => 0

theorem containersOf_of_looksInto {key : Option Value} {v : Value}
    (hlooks : ∀ k, key = some k → LooksInto k v) (ps : List (Option Value × Value)) (c : Value)
    (copies : List Value) :
    containersOf ((key, v) :: ps) (c :: copies) = containers c + containersOf ps copies := by
  cases key with
  | none => rfl
  | some k => rw [containersOf, if_neg (isPathKey_iff.not.mpr (hlooks k rfl).2)]

theorem containersOf_items : ∀ {items copies : List Value}, copies.length = items.length →
    containersOf (items.map fun v => (none, v)) copies = containersIn copies
  | [], [], _ => rfl
  | v :: items, c :: copies, h => by
    rw [List.map_cons, containersOf, containersIn, containersOf_items (Nat.succ.inj h)]

theorem containersOf_entries : ∀ (entries : List (Value × Value)) (copies : List Value),
    containersOf (entries.map fun e => (some e.1, e.2)) copies =
      containersUnder ((entries.map Prod.fst).zip copies)
  | [], _ => by simp [containersOf, containersUnder]
  | _ :: _, [] => by simp [containersOf, containersUnder]
  | e :: entries, c :: copies => by
    rw [List.map_cons, containersOf, List.map_cons, List.zip_cons_cons, containersUnder,
      containersOf_entries entries copies]

theorem containers_withCopies {s : Spot} {v : Value} {node : Node} {copies : List Value}
    (hnode : node? s v = some node) (hlength : copies.length = (parts v).length) :
    containers (withCopies v copies) = containersOf (parts v) copies + 1 := by
  rcases exists_node?_iff.mp ⟨node, hnode⟩ with ⟨items, rfl⟩ | ⟨items, rfl⟩ | ⟨entries, rfl⟩
  · exact congrArg (· + 1) (containersOf_items (by simpa [parts] using hlength)).symm
  · exact congrArg (· + 1) (containersOf_items (by simpa [parts] using hlength)).symm
  · exact congrArg (· + 1) (containersOf_entries entries copies).symm

mutual

/-- There are as many containers in the copy as are expanded on the way. -/
theorem visits_containers {s : Spot} {seen seen' expanded : List Node} {v c : Value} :
    Visits heap s seen v c expanded seen' → containers c = expanded.length
  | .leaf hv => containers_leaf hv
  | .place _ h => visits_containers h
  | .nowhere _ => rfl
  | .again _ _ => rfl
  | .expand hnode _ h => by
    have hlength := (visitsParts_writtenOut h).length_eq.symm
    rw [containers_withCopies hnode hlength, visitsParts_containers h, List.length_cons]

theorem visitsParts_containers {s : Spot} {n : Nat} {seen seen' expanded : List Node}
    {ps : List (Option Value × Value)} {copies : List Value} :
    VisitsParts heap s n seen ps copies expanded seen' →
    containersOf ps copies = expanded.length
  | .nil => rfl
  | .hidden _ h => by
    have htext : containers (.text redacted) = 0 := rfl
    rw [containersOf, htext, ite_self, Nat.zero_add, visitsParts_containers h]
  | .path hpath h => by
    rw [containersOf, if_pos (isPathKey_iff.mpr hpath), Nat.zero_add, visitsParts_containers h]
  | .visited hlooks hv h => by
    rw [containersOf_of_looksInto hlooks, visits_containers hv, visitsParts_containers h,
      List.length_append]

end

end PromptShelf.Log
