/-
Which values have a JSON text.

A value can be written (`Writable`) if it is built up in finitely many steps, from values that hold
no others, with keys that are texts, numbers, truth values or nothing.  A container that holds
itself is not built up so.  Which doubles may stand in it is a parameter.

* **`Writable.no_return`** — in what can be written no container is inside itself;
* **`Writable.exists_tree`** — what can be written has a tree;
* **`exists_tree_iff`** — nothing else has one;
* **`writable_iff_numbers`** — the numbers of the tree tell which doubles stand in the value;
* **`write_eq_ok`** — what is written says the tree.
-/
import PromptShelf.Proofs.JsonText.Numerals
import PromptShelf.Proofs.JsonText.Trees
import PromptShelf.Proofs.Value.Reach

namespace PromptShelf.JsonText

/-- Values that stand for themselves as keys. -/
def isKey : Value → Bool
  | .none => true
  | .bool _ => true
  | .int _ => true
  | .float _ => true
  | .text _ => true
  | _ => false

/-- Values that hold no others; of the doubles those that fit. -/
def IsLeaf (Fits : Binary64 → Prop) : Value → Prop
  | .float x => Fits x
  | .list _ => False
  | .tuple _ => False
  | .dict _ => False
  | .shared _ => False
  | _ => True

/-- The value is built up in finitely many steps of what has a JSON text. -/
inductive Writable (Fits : Binary64 → Prop) (heap : Heap) : Value → Prop
  | leaf {v : Value} (h : IsLeaf Fits v) : Writable Fits heap v
  | list {items : List Value} (h : ∀ w ∈ items, Writable Fits heap w) :
      Writable Fits heap (.list items)
  | tuple {items : List Value} (h : ∀ w ∈ items, Writable Fits heap w) :
      Writable Fits heap (.tuple items)
  | dict {entries : List (Value × Value)} (hkeys : ∀ e ∈ entries, isKey e.1 = true)
      (h : ∀ e ∈ entries, Writable Fits heap e.2) : Writable Fits heap (.dict entries)
  | shared {p : Nat} {w : Value} (hw : heap[p]? = some w) (h : Writable Fits heap w) :
      Writable Fits heap (.shared p)

/-- Any double. -/
def AnyDouble (_ : Binary64) : Prop := True

variable {Fits : Binary64 → Prop} {heap : Heap}

theorem writable_list_iff {items : List Value} :
    Writable Fits heap (.list items) ↔ ∀ w ∈ items, Writable Fits heap w := by
  constructor
  · intro h
    cases h with
    | leaf h => exact h.elim
    | list h => exact h
  · exact .list

theorem writable_tuple_iff {items : List Value} :
    Writable Fits heap (.tuple items) ↔ ∀ w ∈ items, Writable Fits heap w := by
  constructor
  · intro h
    cases h with
    | leaf h => exact h.elim
    | tuple h => exact h
  · exact .tuple

theorem writable_dict_iff {entries : List (Value × Value)} :
    Writable Fits heap (.dict entries) ↔
      ∀ e ∈ entries, isKey e.1 = true ∧ Writable Fits heap e.2 := by
  constructor
  · intro h
    cases h with
    | leaf h => exact h.elim
    | dict hkeys h => exact fun e he => ⟨hkeys e he, h e he⟩
  · exact fun h => .dict (fun e he => (h e he).1) fun e he => (h e he).2

theorem writable_shared_iff {p : Nat} :
    Writable Fits heap (.shared p) ↔ ∃ w, heap[p]? = some w ∧ Writable Fits heap w := by
  constructor
  · intro h
    cases h with
    | leaf h => exact h.elim
    | shared hw h => exact ⟨_, hw, h⟩
  · rintro ⟨w, hw, h⟩
    exact .shared hw h

theorem writable_leaf_iff {v : Value} (h : IsLeaf AnyDouble v) :
    Writable Fits heap v ↔ IsLeaf Fits v := by
  constructor
  · intro hwritable
    cases hwritable with
    | leaf h => exact h
    | list | tuple | dict | shared => exact h.elim
  · exact .leaf

theorem IsLeaf.mono {Fits' : Binary64 → Prop} (hfits : ∀ x, Fits x → Fits' x) {v : Value}
    (h : IsLeaf Fits v) : IsLeaf Fits' v := by
  cases v with
  | float x => exact hfits x h
  | _ => exact h

theorem Writable.mono {Fits' : Binary64 → Prop} (hfits : ∀ x, Fits x → Fits' x) {v : Value}
    (h : Writable Fits heap v) : Writable Fits' heap v := by
  induction h with
  | leaf h => exact .leaf (h.mono hfits)
  | list h ih => exact .list ih
  | tuple h ih => exact .tuple ih
  | dict hkeys h ih => exact .dict hkeys ih
  | shared hw h ih => exact .shared hw ih

/-! ### No container inside itself -/

theorem IsLeaf.eq_of_reaches {Through : Value → Value → Prop} {v u : Value} (h : IsLeaf Fits v)
    (hreach : Reaches heap Through v u) : u = v := by
  cases hreach with
  | refl => rfl
  | list | tuple | entry | place => exact h.elim

/-- In what can be written no container is inside itself. -/
theorem Writable.no_return {v : Value} (h : Writable Fits heap v) :
    ∀ {p : Nat} {w : Value}, Reaches heap Always v (.shared p) → heap[p]? = some w →
      ¬ Reaches heap Always w (.shared p) := by
  induction h with
  | leaf h =>
    intro p w hreach
    obtain rfl := h.eq_of_reaches hreach
    exact h.elim
  | list h ih =>
    intro p w hreach
    cases hreach with
    | list hw hreach => exact ih _ hw hreach
  | tuple h ih =>
    intro p w hreach
    cases hreach with
    | tuple hw hreach => exact ih _ hw hreach
  | dict hkeys h ih =>
    intro p w hreach
    cases hreach with
    | entry hw _ hreach => exact ih _ hw hreach
  | shared hw h ih =>
    intro p w hreach hp
    cases hreach with
    | refl =>
      -- What the container holds is built up before it, and does not lead back already.
      obtain rfl := Option.some.inj (hw.symm.trans hp)
      exact fun hback => ih hback hp hback
    | place hw' hreach =>
      obtain rfl := Option.some.inj (hw.symm.trans hw')
      exact ih hreach hp

/-! ### The tree of what can be written -/

theorem isKey_iff {k : Value} : isKey k = true ↔ ∃ key, keyText k = .ok key := by
  cases k with
  | bool b => cases b <;> simp [isKey, keyText]
  | _ => simp [isKey, keyText]

theorem exists_treeOf_leaf (f : Nat → Except WriteError Json) {v : Value} (h : IsLeaf Fits v) :
    ∃ j, treeOf f v = .ok j := by
  cases v with
  | list | tuple | dict | shared => exact h.elim
  | _ => exact ⟨_, rfl⟩

theorem exists_itemsOf {f : Nat → Except WriteError Json} {items : List Value}
    (h : ∀ w ∈ items, ∃ j, treeOf f w = .ok j) : ∃ js, itemsOf f items = .ok js := by
  induction items with
  | nil => exact ⟨[], rfl⟩
  | cons w rest ih =>
    obtain ⟨j, hj⟩ := h w List.mem_cons_self
    obtain ⟨js, hjs⟩ := ih fun u hu => h u (List.mem_cons_of_mem _ hu)
    refine ⟨j :: js, ?_⟩
    rw [itemsOf, hj, hjs]
    rfl

theorem exists_membersOf {f : Nat → Except WriteError Json} {entries : List (Value × Value)}
    (hkeys : ∀ e ∈ entries, isKey e.1 = true) (h : ∀ e ∈ entries, ∃ j, treeOf f e.2 = .ok j) :
    ∃ members, membersOf f entries = .ok members := by
  induction entries with
  | nil => exact ⟨[], rfl⟩
  | cons e rest ih =>
    obtain ⟨key, hkey⟩ := isKey_iff.mp (hkeys e List.mem_cons_self)
    obtain ⟨j, hj⟩ := h e List.mem_cons_self
    obtain ⟨members, hmembers⟩ := ih (fun u hu => hkeys u (List.mem_cons_of_mem _ hu))
      fun u hu => h u (List.mem_cons_of_mem _ hu)
    refine ⟨(String.ofList key, j) :: members, ?_⟩
    rw [membersOf, hkey, hj, hmembers]
    rfl

/-- Inside containers that what can be written does not lead back to, it has a tree. -/
theorem Writable.exists_treeOf {v : Value} (h : Writable Fits heap v) :
    ∀ {depth : Nat} {above : List Nat}, Unmet heap depth above →
      (∀ q ∈ above, ¬ Reaches heap Always v (.shared q)) →
      ∃ j, treeOf (placeTree heap depth above) v = .ok j := by
  induction h with
  | leaf h => exact fun _ _ => exists_treeOf_leaf _ h
  | list h ih =>
    intro depth above hunmet habove
    obtain ⟨js, hjs⟩ := exists_itemsOf fun w hw =>
      ih w hw hunmet fun q hq hreach => habove q hq (.list hw hreach)
    exact ⟨.array js, by rw [treeOf, hjs]; rfl⟩
  | tuple h ih =>
    intro depth above hunmet habove
    obtain ⟨js, hjs⟩ := exists_itemsOf fun w hw =>
      ih w hw hunmet fun q hq hreach => habove q hq (.tuple hw hreach)
    exact ⟨.array js, by rw [treeOf, hjs]; rfl⟩
  | dict hkeys h ih =>
    intro depth above hunmet habove
    obtain ⟨members, hmembers⟩ := exists_membersOf hkeys fun e he =>
      ih e he hunmet fun q hq hreach => habove q hq (.entry (k := e.1) he trivial hreach)
    exact ⟨.object members, by rw [treeOf, hmembers]; rfl⟩
  | @shared p w hw h ih =>
    intro depth above hunmet habove
    have hnew : p ∉ above := fun hp => habove p hp (.refl _)
    obtain ⟨d, rfl, hunmet'⟩ := hunmet.cons hw hnew
    rw [treeOf, placeTree, if_neg (by simpa using hnew), hw]
    refine ih hunmet' (List.forall_mem_cons.mpr ⟨?_, ?_⟩)
    · exact (Writable.shared hw h).no_return (.refl _) hw
    · exact fun q hq hreach => habove q hq (.place hw hreach)

/-- What can be written has a tree. -/
theorem Writable.exists_tree {v : Value} (h : Writable Fits heap v) : ∃ j, tree heap v = .ok j :=
  h.exists_treeOf (Unmet.initial heap) fun _ hq => absurd hq List.not_mem_nil

/-! ### What has a tree can be written -/

/-- The doubles that fit are those with numerals. -/
structure Fitting (Fits : Binary64 → Prop) (Numeral : List Char → Prop) : Prop where
  int : ∀ n, Numeral (Decimal.ofInt n)
  double : ∀ x, Fits x ↔ Numeral (floatChars x)

theorem fitting_any : Fitting AnyDouble fun _ => True := ⟨fun _ => trivial, fun _ => Iff.rfl⟩

theorem fitting_loose : Fitting AnyDouble IsLoose :=
  ⟨fun n => .inl (isNumeral_ofInt n), fun x => iff_of_true trivial (isLoose_floatChars x)⟩

theorem fitting_finite : Fitting (·.isFinite = true) IsNumeral :=
  ⟨isNumeral_ofInt, fun _ => isNumeral_floatChars_iff.symm⟩

variable {Numeral : List Char → Prop}

theorem writable_iff_leaf (hfit : Fitting Fits Numeral) {f : Nat → Except WriteError Json} {v : Value} {j : Json}
    (hleaf : IsLeaf AnyDouble v) (h : treeOf f v = .ok j) :
    Writable Fits heap v ↔ j.Numbers Numeral := by
  rw [writable_leaf_iff hleaf]
  cases v with
  | list | tuple | dict | shared => exact hleaf.elim
  | _ =>
    obtain rfl := Except.ok.inj h
    simp [IsLeaf, Json.Numbers, Json.lexemes, hfit.int, hfit.double]

mutual

/-- A value with a tree can be written with the doubles that fit exactly if the numbers of the tree
are theirs, as long as this is so for the containers of the heap. -/
theorem writable_iff_treeOf (hfit : Fitting Fits Numeral) {f : Nat → Except WriteError Json}
    (hf : ∀ p j, f p = .ok j → (Writable Fits heap (.shared p) ↔ j.Numbers Numeral)) :
    ∀ v j, treeOf f v = .ok j → (Writable Fits heap v ↔ j.Numbers Numeral)
  | .none, _, h | .bool _, _, h | .int _, _, h | .float _, _, h | .text _, _, h
  | .decimal _ _, _, h | .bytes _, _, h | .set _, _, h | .object _ _, _, h =>
    writable_iff_leaf hfit trivial h
  | .shared p, j, h => hf p j h
  | .list items, j, h => by
    obtain ⟨js, hjs, rfl⟩ := map_eq_ok h
    rw [writable_list_iff, Json.numbers_array_iff]
    exact writable_iff_itemsOf hfit hf items js hjs
  | .tuple items, j, h => by
    obtain ⟨js, hjs, rfl⟩ := map_eq_ok h
    rw [writable_tuple_iff, Json.numbers_array_iff]
    exact writable_iff_itemsOf hfit hf items js hjs
  | .dict entries, j, h => by
    obtain ⟨members, hmembers, rfl⟩ := map_eq_ok h
    rw [writable_dict_iff, Json.numbers_object_iff]
    exact writable_iff_membersOf hfit hf entries members hmembers

theorem writable_iff_itemsOf (hfit : Fitting Fits Numeral) {f : Nat → Except WriteError Json}
    (hf : ∀ p j, f p = .ok j → (Writable Fits heap (.shared p) ↔ j.Numbers Numeral)) :
    ∀ items js, itemsOf f items = .ok js →
      ((∀ w ∈ items, Writable Fits heap w) ↔ ∀ j ∈ js, j.Numbers Numeral)
  | [], _, h => by
    cases h
    simp
  | v :: rest, js, h => by
    obtain ⟨j, js, hj, hjs, rfl⟩ := itemsOf_cons_eq_ok h
    rw [List.forall_mem_cons, List.forall_mem_cons, writable_iff_treeOf hfit hf v j hj,
      writable_iff_itemsOf hfit hf rest js hjs]

theorem writable_iff_membersOf (hfit : Fitting Fits Numeral) {f : Nat → Except WriteError Json}
    (hf : ∀ p j, f p = .ok j → (Writable Fits heap (.shared p) ↔ j.Numbers Numeral)) :
    ∀ entries members, membersOf f entries = .ok members →
      ((∀ e ∈ entries, isKey e.1 = true ∧ Writable Fits heap e.2) ↔
        ∀ m ∈ members, m.2.Numbers Numeral)
  | [], _, h => by
    cases h
    simp
  | (k, v) :: rest, members, h => by
    obtain ⟨key, j, members, hkey, hj, hmembers, rfl⟩ := membersOf_cons_eq_ok h
    rw [List.forall_mem_cons, List.forall_mem_cons, writable_iff_treeOf hfit hf v j hj,
      writable_iff_membersOf hfit hf rest members hmembers]
    simp [isKey_iff.mpr ⟨key, hkey⟩]

end

theorem writable_iff_placeTree (hfit : Fitting Fits Numeral) (depth : Nat) (above : List Nat)
    (p : Nat) (j : Json) (h : placeTree heap depth above p = .ok j) :
    Writable Fits heap (.shared p) ↔ j.Numbers Numeral := by
  induction depth generalizing above p j with
  | zero => cases h
  | succ depth ih =>
    rw [placeTree] at h
    split at h
    · cases h
    · cases hw : heap[p]? with
      | none =>
        rw [hw] at h
        cases h
      | some w =>
        rw [hw] at h
        rw [← writable_iff_treeOf hfit (ih (p :: above)) w j h, writable_shared_iff, hw]
        simp

/-- Which doubles stand in a value can be told from the numbers of its tree. -/
theorem writable_iff_numbers (hfit : Fitting Fits Numeral) {v : Value} {j : Json} (h : tree heap v = .ok j) :
    Writable Fits heap v ↔ j.Numbers Numeral :=
  writable_iff_treeOf hfit (writable_iff_placeTree hfit heap.length []) v j h

/-- The numbers of a tree have numerals, or words of their own. -/
theorem numbers_of_tree {v : Value} {j : Json} (h : tree heap v = .ok j) : j.Numbers IsLoose := by
  have hany : Writable AnyDouble heap v :=
    (writable_iff_numbers fitting_any h).mpr fun _ _ => trivial
  exact (writable_iff_numbers fitting_loose h).mp hany

/-- A value has a tree exactly if it can be written. -/
theorem exists_tree_iff {v : Value} :
    (∃ j, tree heap v = .ok j) ↔ Writable AnyDouble heap v := by
  constructor
  · rintro ⟨j, hj⟩
    exact (writable_iff_numbers fitting_any hj).mpr fun _ _ => trivial
  · exact Writable.exists_tree

/-- What is written says the tree of the value, without a control character, and is a text of the
standard exactly if all doubles in the value are finite. -/
theorem write_eq_ok {v : Value} {text : String} (h : write heap v = .ok text) :
    ∃ j, tree heap v = .ok j ∧ Says IsLoose text j ∧ Visible text.toList ∧
      ((∃ k, Says IsNumeral text k) ↔ Writable (·.isFinite = true) heap v) := by
  rw [write_eq] at h
  obtain ⟨j, hj, rfl⟩ := map_eq_ok h
  have hnumbers := numbers_of_tree hj
  have htext := Json.says_chars hnumbers
  refine ⟨j, hj, htext, ?_, ?_⟩
  · rw [String.toList_ofList]
    exact Json.visible_chars hnumbers
  · rw [htext.standard_iff]
    exact (writable_iff_numbers fitting_finite hj).symm

end PromptShelf.JsonText
