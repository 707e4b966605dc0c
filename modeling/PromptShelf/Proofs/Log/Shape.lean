/-
What redaction leaves as it is.

A part of a value is found by its position, and it comes with the keys it stands under (`part?`).
In the redacted form of a tree all parts keep their positions and their keys.  What stands there is
the part itself, but for secrets, paths, and sequences, which become lists (`StandsFor`); and
inside a value that is taken over from under a key for paths nothing changes at all.

* **`rel_part?_standing`** — part for part, what stands for a value is as described;
* **`copy_copy`** — the copy of a copy is that copy;
* **`redact_keeps_shape`** — so redaction of a tree changes nothing else, and only once.
-/
import PromptShelf.Proofs.Log.Loggable

namespace PromptShelf

namespace Path

theorem segmentsBy_of_not {p : Char → Bool} {cs : List Char} (h : ∀ c ∈ cs, p c = false) :
    segmentsBy p cs = [cs] := by
  induction cs with
  | nil => rfl
  | cons c rest ih =>
    obtain ⟨hc, hrest⟩ := List.forall_mem_cons.mp h
    rw [segmentsBy, if_neg (by simp [hc]), ih hrest]

end Path

namespace Log

open JsonText

/-- The parts of a value in their order, those of a dictionary with their keys. -/
def parts : Value → List (Option Value × Value)
  | .list items => items.map fun v => (none, v)
  | .tuple items => items.map fun v => (none, v)
  | .dict entries => entries.map fun e => (some e.1, e.2)
  | _ => []

/-- The part at a position, with the keys it stands under behind some others, the one directly
above it first; an item of a sequence has no key. -/
def part? (keys : List (Option Value)) (v : Value) :
    List Nat → Option (List (Option Value) × Value)
  | [] => some (keys, v)
  | n :: rest =>
    match (parts v)[n]? with
    | some (key, w) => part? (key :: keys) w rest
    | none => none

/-- The keys are those of a part inside a value that stands under a key for paths. -/
def InsidePath (keys : List (Option Value)) : Prop :=
  ∃ k, some k ∈ keys.tail ∧ k.display ∈ pathKeys

/-- What stands after redaction for a value, by the key directly above it, if there is one. -/
inductive StandsFor (key : Option Value) : Value → Value → Prop
  | secret {k v : Value} (hkey : key = some k) (hsecret : SoundsSecret k)
      (hscalar : isScalar v = true) : StandsFor key v (.text redacted)
  | path {k : Value} {s : String} (hkey : key = some k) (hsecret : ¬ SoundsSecret k)
      (hpath : k.display ∈ pathKeys) : StandsFor key (.text s) (.text (lastName s))
  | takenOver {k v : Value} (hkey : key = some k) (hpath : k.display ∈ pathKeys)
      (htext : ∀ s, v ≠ .text s) : StandsFor key v v
  | leaf {v : Value} (hkey : ∀ k, key = some k → LooksInto k v) (hleaf : IsLeaf AnyDouble v) :
    StandsFor key v v
  | list {items items' : List Value} (hkey : ∀ k, key = some k → LooksInto k (.list items))
      (hlength : items'.length = items.length) : StandsFor key (.list items) (.list items')
  | tuple {items items' : List Value} (hkey : ∀ k, key = some k → LooksInto k (.tuple items))
      (hlength : items'.length = items.length) : StandsFor key (.tuple items) (.list items')
  | dict {entries entries' : List (Value × Value)}
      (hkey : ∀ k, key = some k → LooksInto k (.dict entries))
      (hkeys : entries'.map Prod.fst = entries.map Prod.fst) :
    StandsFor key (.dict entries) (.dict entries')

/-- A part and what stands in its position after redaction, each with its keys. -/
structure Kept (p q : List (Option Value) × Value) : Prop where
  keys : q.1 = p.1
  same : InsidePath p.1 → q.2 = p.2
  standsFor : ¬ InsidePath p.1 → StandsFor p.1.head?.join p.2 q.2

/-- What stands in a copy for a value under a key or under none. -/
def standing : Option Value → Value → Value
  | some k, v => copyUnder k v
  | none, v => copy v

/-! ### Part for part -/

theorem copyItems_eq_map (items : List Value) : copyItems items = items.map copy := by
  induction items with
  | nil => rfl
  | cons v rest ih => rw [copyItems, ih, List.map_cons]

theorem copyEntries_eq_map (entries : List (Value × Value)) :
    copyEntries entries = entries.map fun e => (e.1, copyUnder e.1 e.2) := by
  induction entries with
  | nil => rfl
  | cons e rest ih =>
    obtain ⟨k, v⟩ := e
    rw [copyEntries_cons, ih, List.map_cons]

/-- The parts of a copy stand for the parts of the value. -/
theorem parts_copy (v : Value) :
    parts (copy v) = (parts v).map fun p => (p.1, standing p.1 p.2) := by
  cases v with
  | list items | tuple items => simp [copy, parts, standing, copyItems_eq_map, Function.comp_def]
  | dict entries => simp [copy, parts, standing, copyEntries_eq_map, Function.comp_def]
  | _ => rfl

theorem parts_of_isScalar {v : Value} (h : isScalar v = true) : parts v = [] := by
  cases v with
  | list | tuple | dict => exact absurd h (by simp [isScalar])
  | _ => rfl

theorem parts_pathValue (v : Value) : parts (pathValue v) = parts v := by
  cases v <;> rfl

/-- A value is hidden, taken over or copied. -/
theorem standing_cases (key : Option Value) (v : Value) :
    (∃ k, key = some k ∧ Hides k v ∧ standing key v = .text redacted) ∨
      (∃ k, key = some k ∧ k.display ∈ pathKeys ∧ standing key v = pathValue v) ∨
      ((∀ k, key = some k → LooksInto k v) ∧ standing key v = copy v) := by
  cases key with
  | none => exact .inr (.inr ⟨by simp, rfl⟩)
  | some k =>
    rcases hides_or_path_or_looksInto k v with hhides | hpath | hlooks
    · exact .inl ⟨k, rfl, hhides, copyUnder_of_hides hhides⟩
    · exact .inr (.inl ⟨k, rfl, hpath, copyUnder_of_path hpath⟩)
    · refine .inr (.inr ⟨fun k' hk' => ?_, copyUnder_of_looksInto hlooks⟩)
      obtain rfl := Option.some.inj hk'
      exact hlooks

theorem standsFor_standing (key : Option Value) {v : Value} (hv : noShared v = true) :
    StandsFor key v (standing key v) := by
  rcases standing_cases key v with ⟨k, hkey, ⟨hsecret, hscalar⟩, heq⟩ | ⟨k, hkey, hpath, heq⟩ |
    ⟨hlooks, heq⟩
  · exact heq ▸ .secret hkey hsecret hscalar
  · rw [heq]
    cases v with
    | text s => exact .path hkey (not_soundsSecret_of_path hpath) hpath
    | _ => exact .takenOver hkey hpath (by simp)
  · rw [heq]
    cases v with
    | list items => exact .list hlooks (by simp [copyItems_eq_map])
    | tuple items => exact .tuple hlooks (by simp [copyItems_eq_map])
    | dict entries => exact .dict hlooks (by simp [copyEntries_eq_map, Function.comp_def])
    | shared p => exact absurd hv (by simp [noShared])
    | _ => exact .leaf hlooks trivial

theorem noSharedItems_iff {items : List Value} :
    noSharedItems items = true ↔ ∀ v ∈ items, noShared v = true := by
  induction items with
  | nil => simp [noSharedItems]
  | cons v rest ih => rw [noSharedItems, Bool.and_eq_true, ih, List.forall_mem_cons]

theorem noSharedEntries_iff {entries : List (Value × Value)} :
    noSharedEntries entries = true ↔ ∀ e ∈ entries, noShared e.2 = true := by
  induction entries with
  | nil => simp [noSharedEntries]
  | cons e rest ih =>
    obtain ⟨k, v⟩ := e
    rw [noSharedEntries, Bool.and_eq_true, ih, List.forall_mem_cons]

theorem noShared_of_mem_parts {v : Value} (hv : noShared v = true) {p : Option Value × Value}
    (hp : p ∈ parts v) : noShared p.2 = true := by
  cases v with
  | list items | tuple items =>
    obtain ⟨w, hw, rfl⟩ := List.mem_map.mp hp
    exact noSharedItems_iff.mp hv w hw
  | dict entries =>
    obtain ⟨e, he, rfl⟩ := List.mem_map.mp hp
    exact noSharedEntries_iff.mp hv e he
  | _ => exact absurd hp List.not_mem_nil

/-- Inside a value that is taken over all parts are kept as they are. -/
theorem rel_part?_self {keys : List (Option Value)} (h : InsidePath keys) (v : Value)
    (position : List Nat) : Option.Rel Kept (part? keys v position) (part? keys v position) := by
  induction position generalizing keys v with
  | nil => exact .some ⟨rfl, fun _ => rfl, fun hout => absurd h hout⟩
  | cons n rest ih =>
    rw [part?]
    cases (parts v)[n]? with
    | none => exact .none
    | some p =>
      obtain ⟨k, hk, hpath⟩ := h
      have hinside : InsidePath (p.1 :: keys) := ⟨k, List.mem_of_mem_tail hk, hpath⟩
      exact ih hinside p.2

/-- Part for part, what stands for a value is as described. -/
theorem rel_part?_standing (position : List Nat) {keys : List (Option Value)}
    (hkeys : ¬ InsidePath keys) {v : Value} (hv : noShared v = true) :
    Option.Rel Kept (part? keys v position)
      (part? keys (standing keys.head?.join v) position) := by
  induction position generalizing keys v with
  | nil =>
    exact .some ⟨rfl, fun h => absurd h hkeys, fun _ => standsFor_standing _ hv⟩
  | cons n rest ih =>
    rw [part?, part?]
    rcases standing_cases keys.head?.join v with ⟨k, hkey, ⟨-, hscalar⟩, heq⟩ |
      ⟨k, hkey, hpath, heq⟩ | ⟨hlooks, heq⟩
    · rw [heq, parts_of_isScalar hscalar]
      exact .none
    · -- The value is taken over, with the key for paths above all its parts.
      rw [heq, parts_pathValue]
      cases (parts v)[n]? with
      | none => exact .none
      | some p =>
        have hhead : some k ∈ keys := List.mem_of_head? (Option.join_eq_some_iff.mp hkey)
        have hinside : InsidePath (p.1 :: keys) := ⟨k, hhead, hpath⟩
        exact rel_part?_self hinside p.2 rest
    · rw [heq, parts_copy, List.getElem?_map]
      cases hpart : (parts v)[n]? with
      | none => exact .none
      | some p =>
        obtain ⟨key, w⟩ := p
        have hw : noShared w = true := noShared_of_mem_parts hv (List.mem_of_getElem? hpart)
        -- None of the keys above the part is one for paths.
        have hbelow : ¬ InsidePath (key :: keys) := by
          rintro ⟨k, hmem, hpath⟩
          cases keys with
          | nil => exact absurd hmem List.not_mem_nil
          | cons first above =>
            rcases List.mem_cons.mp hmem with rfl | hmem
            · exact (hlooks k rfl).2 hpath
            · exact hkeys ⟨k, hmem, hpath⟩
        exact ih hbelow hw

/-! ### Once is enough -/

theorem lastName_of_isSingleName {s : String} (h : IsSingleName s) : lastName s = s := by
  obtain ⟨hne, hslash, hback⟩ := h
  have hnot : ∀ c ∈ s.toList, (c == '/' || c == '\\') = false := by
    intro c hc
    rw [Bool.or_eq_false_iff, beq_eq_false_iff_ne, beq_eq_false_iff_ne]
    exact ⟨fun heq => hslash (heq ▸ hc), fun heq => hback (heq ▸ hc)⟩
  have hlist : s.toList ≠ [] := fun heq => hne (String.toList_eq_nil_iff.mp heq)
  rw [lastName, Path.segmentsBy_of_not hnot, List.filter_cons_of_pos (by simpa using hlist)]
  simp

theorem pathValue_pathValue (v : Value) : pathValue (pathValue v) = pathValue v := by
  cases v with
  | text s => exact congrArg Value.text (lastName_of_isSingleName (isSingleName_lastName s))
  | _ => rfl

theorem LooksInto.copy {k v : Value} (h : LooksInto k v) : LooksInto k (copy v) :=
  ⟨fun hk => (isScalar_copy v).trans (h.1 hk), h.2⟩

theorem copyUnder_copyUnder {k v : Value} (h : copy (copy v) = copy v) :
    copyUnder k (copyUnder k v) = copyUnder k v := by
  rcases hides_or_path_or_looksInto k v with ⟨hsecret, hscalar⟩ | hpath | hlooks
  · rw [copyUnder_of_hides ⟨hsecret, hscalar⟩]
    exact copyUnder_of_hides ⟨hsecret, rfl⟩
  · rw [copyUnder_of_path hpath, copyUnder_of_path hpath, pathValue_pathValue]
  · rw [copyUnder_of_looksInto hlooks, copyUnder_of_looksInto hlooks.copy, h]

mutual

/-- The copy of a copy is that copy. -/
theorem copy_copy : ∀ v, copy (copy v) = copy v
  | .none | .bool _ | .int _ | .float _ | .decimal _ _ | .text _ | .bytes _ | .set _
  | .object _ _ | .shared _ => rfl
  | .list items | .tuple items => congrArg Value.list (copyItems_copyItems items)
  | .dict entries => congrArg Value.dict (copyEntries_copyEntries entries)

theorem copyItems_copyItems : ∀ items, copyItems (copyItems items) = copyItems items
  | [] => rfl
  | v :: rest => by
    rw [copyItems, copyItems, copy_copy v, copyItems_copyItems rest]

theorem copyEntries_copyEntries : ∀ entries, copyEntries (copyEntries entries) = copyEntries entries
  | [] => rfl
  | (k, v) :: rest => by
    rw [copyEntries_cons, copyEntries_cons, copyUnder_copyUnder (copy_copy v),
      copyEntries_copyEntries rest]

end

theorem isTree_pathValue {v : Value} (h : noShared v = true) :
    noShared (pathValue v) = true ∧ emptyTuples (pathValue v) ≤ emptyTuples v := by
  cases v with
  | text s => exact ⟨rfl, Nat.zero_le _⟩
  | _ => exact ⟨h, Nat.le_refl _⟩

mutual

/-- A copy of a tree is a tree: its tuples are those that are taken over. -/
theorem isTree_copy_of : ∀ v, noShared v = true →
    noShared (copy v) = true ∧ emptyTuples (copy v) ≤ emptyTuples v
  | .none, _ | .bool _, _ | .int _, _ | .float _, _ | .decimal _ _, _ | .text _, _ | .bytes _, _
  | .set _, _ | .object _ _, _ => ⟨rfl, Nat.le_refl _⟩
  | .shared _, h => absurd h (by simp [noShared])
  | .list items, h => isTree_copyItems_of items h
  | .tuple [], _ => ⟨rfl, Nat.zero_le _⟩
  | .tuple (v :: rest), h => isTree_copyItems_of (v :: rest) h
  | .dict entries, h => isTree_copyEntries_of entries h

theorem isTree_copyItems_of : ∀ items, noSharedItems items = true →
    noSharedItems (copyItems items) = true ∧
      emptyTuplesIn (copyItems items) ≤ emptyTuplesIn items
  | [], _ => ⟨rfl, Nat.le_refl _⟩
  | v :: rest, h => by
    rw [noSharedItems, Bool.and_eq_true] at h
    obtain ⟨hfirst, hle⟩ := isTree_copy_of v h.1
    obtain ⟨hothers, hle'⟩ := isTree_copyItems_of rest h.2
    rw [copyItems, noSharedItems, hfirst, hothers, emptyTuplesIn, emptyTuplesIn]
    exact ⟨rfl, Nat.add_le_add hle hle'⟩

theorem isTree_copyEntries_of : ∀ entries, noSharedEntries entries = true →
    noSharedEntries (copyEntries entries) = true ∧
      emptyTuplesUnder (copyEntries entries) ≤ emptyTuplesUnder entries
  | [], _ => ⟨rfl, Nat.le_refl _⟩
  | (k, v) :: rest, h => by
    rw [noSharedEntries, Bool.and_eq_true] at h
    obtain ⟨hothers, hle'⟩ := isTree_copyEntries_of rest h.2
    have hfirst : noShared (copyUnder k v) = true ∧ emptyTuples (copyUnder k v) ≤ emptyTuples v := by
      rcases hides_or_path_or_looksInto k v with hhides | hpath | hlooks
      · exact copyUnder_of_hides hhides ▸ ⟨rfl, Nat.zero_le _⟩
      · rw [copyUnder_of_path hpath]
        exact isTree_pathValue h.1
      · rw [copyUnder_of_looksInto hlooks]
        exact isTree_copy_of v h.1
    rw [copyEntries_cons, noSharedEntries, hfirst.1, hothers, emptyTuplesUnder,
      emptyTuplesUnder]
    exact ⟨rfl, Nat.add_le_add hfirst.2 hle'⟩

end

theorem IsTree.copy {v : Value} (h : IsTree v) : IsTree (copy v) := by
  obtain ⟨hshared, hle⟩ := isTree_copy_of v h.no_shared
  exact ⟨hshared, Nat.le_trans hle h.emptyTuples_le⟩

/-- Redaction of a tree leaves everything as it is but secrets, paths and the kind of sequences.
Each part keeps its position and the keys above it, and no part is added.  What stands there
afterwards is the mark for a text, number or truth value directly under a key that sounds secret,
the last name for a text directly under a key for paths, a list of as many items for a sequence, a
dictionary with the same keys in the same order for a dictionary, and the part itself for all
else; inside a value under a key for paths it always is the part itself.  To redact once more
changes nothing. -/
theorem redact_keeps_shape (heap : Heap) (v : Value) (hv : IsTree v) :
    (∀ position, Option.Rel Kept (part? [] v position) (part? [] (redact heap v) position)) ∧
      redact heap (redact heap v) = redact heap v := by
  rw [redact_eq_copy heap hv, redact_eq_copy heap hv.copy, copy_copy]
  have hnone : ¬ InsidePath [] := by
    rintro ⟨_, hmem, -⟩
    exact List.not_mem_nil hmem
  exact ⟨fun position => rel_part?_standing position hnone hv.no_shared, rfl⟩

theorem redact_keeps_shape_nested :
    let v : Value := .dict [(.text "items", .tuple [.none, .dict [(.text "Token", .int 7)]]),
      (.text "path", .dict [(.text "token", .tuple [])])]
    let w := redact [] v
    IsTree v ∧
      part? [] w [0, 1, 0] =
        some ([some (.text "Token"), none, some (.text "items")], .text redacted) ∧
      part? [] w [1, 0] = some ([some (.text "token"), some (.text "path")], .tuple []) ∧
      redact [] w = w := by
  intro v w
  have hv : IsTree v := ⟨rfl, by decide⟩
  obtain ⟨hparts, honce⟩ := redact_keeps_shape [] v hv
  refine ⟨hv, ?_, ?_, honce⟩
  · have hrel : Option.Rel Kept
        (some ([some (.text "Token"), none, some (.text "items")], .int 7)) (part? [] w [0, 1, 0]) :=
      hparts [0, 1, 0]
    generalize part? [] w [0, 1, 0] = q at hrel ⊢
    cases hrel with
    | @some _ q hkept =>
      obtain ⟨keys, u⟩ := q
      obtain rfl := hkept.keys
      have hout : ¬ InsidePath [some (.text "Token"), none, some (.text "items")] := by
        rintro ⟨k, hk, hpath⟩
        simp only [List.tail_cons, List.mem_cons, reduceCtorEq, Option.some.injEq,
          List.not_mem_nil, or_false, false_or] at hk
        exact absurd (hk ▸ hpath) (by decide)
      have hsecret : SoundsSecret (.text "Token") := isSecretKey_iff.mp (by decide)
      -- Under such a key a number is hidden and nothing else.
      cases hkept.standsFor hout with
      | secret => rfl
      | takenOver hkey hpath => exact absurd (Option.some.inj hkey ▸ hpath) (by decide)
      | leaf hkey => exact absurd ((hkey _ rfl).1 hsecret) (by simp [isScalar])
  · have hrel : Option.Rel Kept (some ([some (.text "token"), some (.text "path")], .tuple []))
        (part? [] w [1, 0]) := hparts [1, 0]
    generalize part? [] w [1, 0] = q at hrel ⊢
    cases hrel with
    | @some _ q hkept =>
      obtain ⟨keys, u⟩ := q
      obtain rfl := hkept.keys
      have hinside : InsidePath [some (.text "token"), some (.text "path")] :=
        ⟨.text "path", by simp, by decide⟩
      obtain rfl := hkept.same hinside
      rfl

end Log

end PromptShelf
