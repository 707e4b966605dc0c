/-
Secrets and paths in log data.

A value is `Safe` if at every depth each entry whose key sounds secret holds no text, number
or truth value but the mark, and each text under a key for paths is a single name.  What is
redacted is safe but for one thing: a value under a key for paths that is no text is taken
over as it is (`TakenOver`), with whatever stands in it.

On a tree redaction does not depend on what was met before, so it is a copy part by part
(`copy`):

* **`redact_eq_copy`** — the redacted form of a tree is its copy;
* **`safe_copy_iff`** — the copy is safe exactly if all that is taken over is;
* **`redact_safe_iff`** — the same for redaction and for the fields of log lines.
-/
import Mathlib.Data.List.Infix
import PromptShelf.Log.Line
import PromptShelf.Proofs.Path.Normal

namespace PromptShelf.Log

mutual

/-- How often the empty tuple stands in a value. -/
def emptyTuples : Value → Nat
  | .list items => emptyTuplesIn items
  | .tuple [] => 1
  | .tuple items => emptyTuplesIn items
  | .dict entries => emptyTuplesUnder entries
  | _ => 0

def emptyTuplesIn : List Value → Nat
  | [] => 0
  | v :: rest => emptyTuples v + emptyTuplesIn rest

def emptyTuplesUnder : List (Value × Value) → Nat
  | [] => 0
  | (_, v) :: rest => emptyTuples v + emptyTuplesUnder rest

end

/-- A value in which no container stands twice.  All empty tuples are one container. -/
structure IsTree (v : Value) : Prop where
  no_shared : noShared v = true
  emptyTuples_le : emptyTuples v ≤ 1

/-- An entry of a dictionary that stands somewhere in a value. -/
inductive HasEntry (k v : Value) : Value → Prop
  | here {entries : List (Value × Value)} (hentry : (k, v) ∈ entries) :
    HasEntry k v (.dict entries)
  | inEntry {entries : List (Value × Value)} {k' v' : Value} (hentry : (k', v') ∈ entries)
      (hv : HasEntry k v v') : HasEntry k v (.dict entries)
  | inList {items : List Value} {w : Value} (hitem : w ∈ items) (hw : HasEntry k v w) :
    HasEntry k v (.list items)
  | inTuple {items : List Value} {w : Value} (hitem : w ∈ items) (hw : HasEntry k v w) :
    HasEntry k v (.tuple items)

/-- The key sounds secret: one of the markers stands in its text in small letters. -/
def SoundsSecret (k : Value) : Prop :=
  ∃ marker ∈ secretMarkers, marker.toList <:+: (Text.lower k.display).toList

def IsSingleName (s : String) : Prop := s ≠ "" ∧ '/' ∉ s.toList ∧ '\\' ∉ s.toList

/-- An entry that tells neither a secret nor where a file is. -/
structure SafeEntry (k v : Value) : Prop where
  secret : SoundsSecret k → isScalar v = true → v = .text redacted
  path : k.display ∈ pathKeys → ∀ s, v = .text s → IsSingleName s

/-- All entries are safe, at every depth. -/
def Safe (v : Value) : Prop := ∀ k w, HasEntry k w v → SafeEntry k w

/-- The value `u` stands in another one under a key for paths, is no text, and is below no
other such key. -/
inductive TakenOver (u : Value) : Value → Prop
  | here {entries : List (Value × Value)} {k : Value} (hentry : (k, u) ∈ entries)
      (hpath : k.display ∈ pathKeys) (htext : ∀ s, u ≠ .text s) : TakenOver u (.dict entries)
  | inEntry {entries : List (Value × Value)} {k v : Value} (hentry : (k, v) ∈ entries)
      (hpath : k.display ∉ pathKeys) (hv : TakenOver u v) : TakenOver u (.dict entries)
  | inList {items : List Value} {v : Value} (hitem : v ∈ items) (hv : TakenOver u v) :
    TakenOver u (.list items)
  | inTuple {items : List Value} {v : Value} (hitem : v ∈ items) (hv : TakenOver u v) :
    TakenOver u (.tuple items)

mutual

/-- The copy of a value without secrets, each part on its own. -/
def copy : Value → Value
  | .list items => .list (copyItems items)
  | .tuple items => .list (copyItems items)
  | .dict entries => .dict (copyEntries entries)
  | v => v

def copyItems : List Value → List Value
  | [] => []
  | v :: rest => copy v :: copyItems rest

def copyEntries : List (Value × Value) → List (Value × Value)
  | [] => []
  | (k, v) :: rest =>
    (k, if isSecretKey k && isScalar v then .text redacted
      else if isPathKey k then pathValue v
      else copy v) :: copyEntries rest

end

/-- What stands in a copy for a value under a key. -/
def copyUnder (k v : Value) : Value :=
  if isSecretKey k && isScalar v then .text redacted
  else if isPathKey k then pathValue v
  else copy v

/-! ### Redacting a tree -/

mutual

/-- As long as no second empty tuple is met, nothing is marked as met before. -/
theorem visit_eq_copy (shared : Seen → Nat → Value × Seen) (seen : Seen) :
    ∀ v, noShared v = true → seen.emptyTuple.toNat + emptyTuples v ≤ 1 →
      (visit shared seen v).1 = copy v ∧
        (visit shared seen v).2.emptyTuple.toNat ≤ seen.emptyTuple.toNat + emptyTuples v
  | .none, _, _ => ⟨rfl, Nat.le_refl _⟩
  | .bool _, _, _ => ⟨rfl, Nat.le_refl _⟩
  | .int _, _, _ => ⟨rfl, Nat.le_refl _⟩
  | .float _, _, _ => ⟨rfl, Nat.le_refl _⟩
  | .decimal _ _, _, _ => ⟨rfl, Nat.le_refl _⟩
  | .text _, _, _ => ⟨rfl, Nat.le_refl _⟩
  | .bytes _, _, _ => ⟨rfl, Nat.le_refl _⟩
  | .set _, _, _ => ⟨rfl, Nat.le_refl _⟩
  | .object _ _, _, _ => ⟨rfl, Nat.le_refl _⟩
  | .shared _, h, _ => by simp [noShared] at h
  | .list items, h, hempty => by
    rw [noShared] at h
    obtain ⟨hcopy, hseen⟩ := visitItems_eq_copyItems shared seen items h hempty
    exact ⟨congrArg Value.list hcopy, hseen⟩
  | .tuple [], _, hempty => by
    have hfirst : seen.emptyTuple = false := by
      cases hseen : seen.emptyTuple with
      | false => rfl
      | true => simp [hseen, emptyTuples] at hempty
    simp [visit, hfirst, copy, copyItems, emptyTuples]
  | .tuple (v :: rest), h, hempty => by
    rw [noShared] at h
    obtain ⟨hcopy, hseen⟩ := visitItems_eq_copyItems shared seen (v :: rest) h hempty
    exact ⟨congrArg Value.list hcopy, hseen⟩
  | .dict entries, h, hempty => by
    rw [noShared] at h
    obtain ⟨hcopy, hseen⟩ := visitEntries_eq_copyEntries shared seen entries h hempty
    exact ⟨congrArg Value.dict hcopy, hseen⟩

theorem visitItems_eq_copyItems (shared : Seen → Nat → Value × Seen) (seen : Seen) :
    ∀ items, noSharedItems items = true → seen.emptyTuple.toNat + emptyTuplesIn items ≤ 1 →
      (visitItems shared seen items).1 = copyItems items ∧
        (visitItems shared seen items).2.emptyTuple.toNat ≤
          seen.emptyTuple.toNat + emptyTuplesIn items
  | [], _, _ => ⟨rfl, Nat.le_refl _⟩
  | v :: rest, h, hempty => by
    rw [noSharedItems, Bool.and_eq_true] at h
    rw [emptyTuplesIn] at hempty ⊢
    obtain ⟨hfirst, hseen⟩ := visit_eq_copy shared seen v h.1 (by omega)
    obtain ⟨hothers, hseen'⟩ :=
      visitItems_eq_copyItems shared (visit shared seen v).2 rest h.2 (by omega)
    rw [visitItems, copyItems]
    exact ⟨by rw [hfirst, hothers], by dsimp only; omega⟩

theorem visitEntries_eq_copyEntries (shared : Seen → Nat → Value × Seen) (seen : Seen) :
    ∀ entries, noSharedEntries entries = true →
      seen.emptyTuple.toNat + emptyTuplesUnder entries ≤ 1 →
      (visitEntries shared seen entries).1 = copyEntries entries ∧
        (visitEntries shared seen entries).2.emptyTuple.toNat ≤
          seen.emptyTuple.toNat + emptyTuplesUnder entries
  | [], _, _ => ⟨rfl, Nat.le_refl _⟩
  | (k, v) :: rest, h, hempty => by
    rw [noSharedEntries, Bool.and_eq_true] at h
    rw [emptyTuplesUnder] at hempty ⊢
    obtain ⟨hvisit, hseen⟩ := visit_eq_copy shared seen v h.1 (by omega)
    rw [visitEntries, copyEntries]
    -- What is hidden and what is taken over is not visited, and meets nothing.
    by_cases hsecret : (isSecretKey k && isScalar v) = true
    · rw [if_pos hsecret, if_pos hsecret]
      obtain ⟨hothers, hseen'⟩ := visitEntries_eq_copyEntries shared seen rest h.2 (by omega)
      exact ⟨by rw [hothers], by dsimp only; omega⟩
    · rw [if_neg hsecret, if_neg hsecret]
      by_cases hpath : isPathKey k = true
      · rw [if_pos hpath, if_pos hpath]
        obtain ⟨hothers, hseen'⟩ := visitEntries_eq_copyEntries shared seen rest h.2 (by omega)
        exact ⟨by rw [hothers], by dsimp only; omega⟩
      · rw [if_neg hpath, if_neg hpath]
        obtain ⟨hothers, hseen'⟩ :=
          visitEntries_eq_copyEntries shared (visit shared seen v).2 rest h.2 (by omega)
        exact ⟨by rw [hvisit, hothers], by dsimp only; omega⟩

end

theorem redact_eq_copy (heap : Heap) {v : Value} (hv : IsTree v) : redact heap v = copy v := by
  have hempty : Seen.emptyTuple {} = false := rfl
  exact (visit_eq_copy _ {} v hv.no_shared (by simpa [hempty] using hv.emptyTuples_le)).1

/-! ### What stands in a copy -/

theorem mem_copyItems_iff {items : List Value} {w : Value} :
    w ∈ copyItems items ↔ ∃ v ∈ items, copy v = w := by
  induction items with
  | nil => simp [copyItems]
  | cons v rest ih => simp [copyItems, ih, eq_comm]

theorem copyEntries_cons (k v : Value) (rest : List (Value × Value)) :
    copyEntries ((k, v) :: rest) = (k, copyUnder k v) :: copyEntries rest := by
  rw [copyEntries, copyUnder]

theorem mem_copyEntries_iff {entries : List (Value × Value)} {k w : Value} :
    (k, w) ∈ copyEntries entries ↔ ∃ v, (k, v) ∈ entries ∧ copyUnder k v = w := by
  induction entries with
  | nil => simp [copyEntries]
  | cons e rest ih =>
    obtain ⟨k', v'⟩ := e
    rw [copyEntries_cons, List.mem_cons, ih]
    constructor
    · rintro (heq | ⟨v, hv, rfl⟩)
      · obtain ⟨rfl, rfl⟩ := Prod.mk.inj heq
        exact ⟨v', List.mem_cons_self, rfl⟩
      · exact ⟨v, List.mem_cons_of_mem _ hv, rfl⟩
    · rintro ⟨v, hv, rfl⟩
      rcases List.mem_cons.mp hv with heq | hv
      · obtain ⟨rfl, rfl⟩ := Prod.mk.inj heq
        exact .inl rfl
      · exact .inr ⟨v, hv, rfl⟩

theorem isScalar_copy (v : Value) : isScalar (copy v) = isScalar v := by
  cases v <;> rfl

theorem not_isScalar_of_hasEntry {k v w : Value} (h : HasEntry k v w) : isScalar w = false := by
  cases h <;> rfl

theorem not_isScalar_of_takenOver {u v : Value} (h : TakenOver u v) : isScalar v = false := by
  cases h <;> rfl

theorem occursIn_iff {marker cs : List Char} : occursIn marker cs = true ↔ marker <:+: cs := by
  induction cs with
  | nil => simp [occursIn]
  | cons c rest ih =>
    rw [occursIn, Bool.or_eq_true, ih, List.isPrefixOf_iff_prefix, List.infix_cons_iff]

theorem isSecretKey_iff {k : Value} : isSecretKey k = true ↔ SoundsSecret k := by
  simp only [isSecretKey, SoundsSecret, List.any_eq_true, occursIn_iff]

theorem isPathKey_iff {k : Value} : isPathKey k = true ↔ k.display ∈ pathKeys :=
  List.contains_iff_mem

/-! ### Which entries of a copy are safe -/

theorem isSingleName_redacted : IsSingleName redacted := by
  refine ⟨by decide, by decide, by decide⟩

theorem isSingleName_lastName (path : String) : IsSingleName (lastName path) := by
  rw [lastName]
  split
  · rename_i name hlast
    obtain ⟨hmem, hne⟩ := List.mem_filter.mp (List.mem_of_getLast? hlast)
    have hnot : ∀ c ∈ name, (c == '/' || c == '\\') = false := fun c hc =>
      Path.not_of_mem_segmentsBy hmem hc
    refine ⟨?_, ?_, ?_⟩
    · intro hempty
      exact absurd (String.ofList_eq_empty_iff.mp hempty) (by simpa using hne)
    · rw [String.toList_ofList]
      exact fun hc => absurd (hnot _ hc) (by decide)
    · rw [String.toList_ofList]
      exact fun hc => absurd (hnot _ hc) (by decide)
  · exact ⟨by decide, by decide, by decide⟩

/-- What the copy holds under a key is the mark, the copy of a value under a key that is
none for paths, the last name of a path, or a value that is no text, taken over. -/
theorem copyUnder_cases (k v : Value) :
    (copyUnder k v = .text redacted ∧ isScalar v = true) ∨
      ((SoundsSecret k → isScalar v = false) ∧
        ((k.display ∉ pathKeys ∧ copyUnder k v = copy v) ∨
          (k.display ∈ pathKeys ∧ ((∃ s, v = .text s ∧ copyUnder k v = .text (lastName s)) ∨
            ((∀ s, v ≠ .text s) ∧ copyUnder k v = v))))) := by
  rw [copyUnder]
  by_cases hsecret : (isSecretKey k && isScalar v) = true
  · rw [if_pos hsecret]
    exact .inl ⟨rfl, (Bool.and_eq_true_iff.mp hsecret).2⟩
  · rw [if_neg hsecret]
    refine .inr ⟨fun hk => ?_, ?_⟩
    · rw [isSecretKey_iff.mpr hk, Bool.true_and] at hsecret
      exact Bool.eq_false_iff.mpr hsecret
    · by_cases hpath : isPathKey k = true
      · rw [if_pos hpath]
        refine .inr ⟨isPathKey_iff.mp hpath, ?_⟩
        cases v with
        | text s => exact .inl ⟨s, rfl, rfl⟩
        | _ => exact .inr ⟨by simp, rfl⟩
      · rw [if_neg hpath]
        exact .inl ⟨fun h => hpath (isPathKey_iff.mpr h), rfl⟩

theorem safeEntry_copyUnder (k v : Value) : SafeEntry k (copyUnder k v) := by
  rcases copyUnder_cases k v with
    ⟨heq, -⟩ | ⟨hsecret, ⟨hpath, heq⟩ | ⟨hpath, ⟨s, rfl, heq⟩ | ⟨htext, heq⟩⟩⟩
  · rw [heq]
    refine ⟨fun _ _ => rfl, fun _ s hs => ?_⟩
    obtain rfl := Value.text.inj hs
    exact isSingleName_redacted
  · rw [heq]
    refine ⟨fun hk hscalar => ?_, fun h => absurd h hpath⟩
    rw [isScalar_copy, hsecret hk] at hscalar
    exact absurd hscalar (by simp)
  · rw [heq]
    refine ⟨fun hk => absurd (hsecret hk) (by simp [isScalar]), fun _ name hname => ?_⟩
    obtain rfl := Value.text.inj hname
    exact isSingleName_lastName s
  · rw [heq]
    refine ⟨fun hk hscalar => ?_, fun _ s hs => absurd hs (htext s)⟩
    rw [hsecret hk] at hscalar
    exact absurd hscalar (by simp)

/-- An entry of a copy is safe, or it stands in what was taken over. -/
theorem safeEntry_or_takenOver {k w c : Value} (h : HasEntry k w c) {v : Value}
    (hc : copy v = c) : SafeEntry k w ∨ ∃ u, TakenOver u v ∧ HasEntry k w u := by
  -- The induction is on where the entry stands in the copy.
  induction h generalizing v with
  | here hentry =>
    cases v with
    | dict entries =>
      obtain rfl := Value.dict.inj hc
      obtain ⟨v, -, rfl⟩ := mem_copyEntries_iff.mp hentry
      exact .inl (safeEntry_copyUnder k v)
    | _ => exact absurd hc (by simp [copy])
  | @inEntry _ k' v' hentry hv ih =>
    cases v with
    | dict entries =>
      obtain rfl := Value.dict.inj hc
      obtain ⟨x, hx, hcopy⟩ := mem_copyEntries_iff.mp hentry
      rcases copyUnder_cases k' x with
        ⟨heq, -⟩ | ⟨-, ⟨hpath, heq⟩ | ⟨hpath, ⟨s, -, heq⟩ | ⟨htext, heq⟩⟩⟩
      · rw [← hcopy, heq] at hv
        cases hv
      · rcases ih (heq.symm.trans hcopy) with hsafe | ⟨u, hu, hk⟩
        · exact .inl hsafe
        · exact .inr ⟨u, .inEntry hx hpath hu, hk⟩
      · rw [← hcopy, heq] at hv
        cases hv
      · exact .inr ⟨x, .here hx hpath htext, heq ▸ hcopy ▸ hv⟩
    | _ => exact absurd hc (by simp [copy])
  | inList hitem hw ih =>
    -- Lists and tuples both become lists.
    cases v with
    | list items =>
      obtain rfl := Value.list.inj hc
      obtain ⟨x, hx, hcopy⟩ := mem_copyItems_iff.mp hitem
      rcases ih hcopy with hsafe | ⟨u, hu, hk⟩
      · exact .inl hsafe
      · exact .inr ⟨u, .inList hx hu, hk⟩
    | tuple items =>
      obtain rfl := Value.list.inj hc
      obtain ⟨x, hx, hcopy⟩ := mem_copyItems_iff.mp hitem
      rcases ih hcopy with hsafe | ⟨u, hu, hk⟩
      · exact .inl hsafe
      · exact .inr ⟨u, .inTuple hx hu, hk⟩
    | _ => exact absurd hc (by simp [copy])
  | inTuple => cases v <;> exact absurd hc (by simp [copy])

/-- What is taken over stands in the copy with all its entries. -/
theorem hasEntry_copy_of_takenOver {u v k w : Value} (h : TakenOver u v) (hu : HasEntry k w u) :
    HasEntry k w (copy v) := by
  induction h with
  | @here entries k' hentry hpath htext =>
    refine .inEntry (mem_copyEntries_iff.mpr ⟨u, hentry, rfl⟩) ?_
    rcases copyUnder_cases k' u with
      ⟨-, hscalar⟩ | ⟨-, ⟨hno, -⟩ | ⟨-, ⟨s, rfl, -⟩ | ⟨-, heq⟩⟩⟩
    · exact absurd hscalar (by simp [not_isScalar_of_hasEntry hu])
    · exact absurd hpath hno
    · exact absurd rfl (htext s)
    · rw [heq]
      exact hu
  | @inEntry entries k' v' hentry hpath hv ih =>
    refine .inEntry (mem_copyEntries_iff.mpr ⟨v', hentry, rfl⟩) ?_
    rcases copyUnder_cases k' v' with ⟨-, hscalar⟩ | ⟨-, ⟨-, heq⟩ | ⟨hyes, -⟩⟩
    · exact absurd hscalar (by simp [not_isScalar_of_takenOver hv])
    · rw [heq]
      exact ih
    · exact absurd hyes hpath
  | inList hitem hv ih => exact .inList (mem_copyItems_iff.mpr ⟨_, hitem, rfl⟩) ih
  | inTuple hitem hv ih => exact .inList (mem_copyItems_iff.mpr ⟨_, hitem, rfl⟩) ih

theorem safe_copy_iff (v : Value) : Safe (copy v) ↔ ∀ u, TakenOver u v → Safe u := by
  constructor
  · intro h u hu k w hentry
    exact h k w (hasEntry_copy_of_takenOver hu hentry)
  · intro h k w hentry
    rcases safeEntry_or_takenOver hentry rfl with hsafe | ⟨u, hu, hk⟩
    · exact hsafe
    · exact h u hu k w hk

theorem eq_redact_of_mem_contextOf {heap : Heap} {r : Record} {key w : Value}
    (h : (key, w) ∈ contextOf heap r) :
    ∃ name v, key = .text name ∧ r.fields.lookup name = some v ∧ w = redact heap v := by
  obtain ⟨name, -, hname⟩ := List.mem_filterMap.mp h
  cases hfield : r.fields.lookup name with
  | none =>
    rw [hfield] at hname
    exact absurd hname (by simp)
  | some v =>
    rw [hfield] at hname
    dsimp only at hname
    split at hname
    · obtain ⟨rfl, rfl⟩ := Prod.mk.inj (Option.some.inj hname)
      exact ⟨name, v, rfl, hfield, rfl⟩
    · exact absurd hname (by simp)

/-- The redacted form of a tree is safe exactly if all values are that stand under keys for
paths and are no texts: these are taken over as they are.  So is what a log line says of
the fields of its record. -/
theorem redact_safe_iff (heap : Heap) (v : Value) (hv : IsTree v) :
    (Safe (redact heap v) ↔ ∀ u, TakenOver u v → Safe u) ∧
      ∀ (r : Record) (name : String) (w : Value), r.fields.lookup name = some v →
        (.text name, w) ∈ contextOf heap r → (Safe w ↔ ∀ u, TakenOver u v → Safe u) := by
  have h : Safe (redact heap v) ↔ ∀ u, TakenOver u v → Safe u := by
    rw [redact_eq_copy heap hv]
    exact safe_copy_iff v
  refine ⟨h, fun r name w hfield hmem => ?_⟩
  obtain ⟨name', v', hname, hfield', rfl⟩ := eq_redact_of_mem_contextOf hmem
  obtain rfl := Value.text.inj hname
  obtain rfl := Option.some.inj (hfield.symm.trans hfield')
  exact h

theorem redact_safe_nested :
    let v : Value := .dict [(.text "credentials", .list [.dict [(.text "Token", .int 7)]]),
      (.text "path", .text "/var/app/secrets.json")]
    IsTree v ∧ Safe (redact [] v) := by
  intro v
  have hv : IsTree v := ⟨rfl, by decide⟩
  refine ⟨hv, (redact_safe_iff [] v hv).1.mpr fun u hu => ?_⟩
  -- Only a text stands under a key for paths, so nothing is taken over.
  exfalso
  simp only [v] at hu
  cases hu with
  | here hentry hpath htext =>
    simp only [List.mem_cons, Prod.mk.injEq, List.not_mem_nil, or_false] at hentry
    rcases hentry with ⟨rfl, -⟩ | ⟨-, rfl⟩
    · exact absurd hpath (by decide)
    · exact htext _ rfl
  | inEntry hentry hpath hv =>
    simp only [List.mem_cons, Prod.mk.injEq, List.not_mem_nil, or_false] at hentry
    rcases hentry with ⟨-, rfl⟩ | ⟨rfl, -⟩
    · cases hv with
      | inList hitem hw =>
        obtain rfl := List.mem_singleton.mp hitem
        cases hw with
        | here hentry hpath =>
          obtain ⟨rfl, -⟩ := Prod.mk.inj (List.mem_singleton.mp hentry)
          exact absurd hpath (by decide)
        | inEntry hentry _ hx =>
          obtain ⟨-, rfl⟩ := Prod.mk.inj (List.mem_singleton.mp hentry)
          cases hx
    · exact hpath (by decide)

/-- A secret below a key for paths is not hidden. -/
theorem not_safe_redact_path :
    let v : Value := .dict [(.text "path", .dict [(.text "password", .text "hunter2")])]
    IsTree v ∧ SoundsSecret (.text "password") ∧
      HasEntry (.text "password") (.text "hunter2") (redact [] v) ∧ ¬ Safe (redact [] v) := by
  intro v
  have hv : IsTree v := ⟨rfl, by decide⟩
  have hsecret : SoundsSecret (.text "password") := isSecretKey_iff.mp (by decide)
  have hentry : HasEntry (.text "password") (.text "hunter2") (redact [] v) := by
    rw [redact_eq_copy [] hv]
    have hinner : HasEntry (.text "password") (.text "hunter2")
        (.dict [(.text "password", .text "hunter2")]) := .here (by simp)
    exact hasEntry_copy_of_takenOver (.here (k := .text "path") (by simp) (by decide) (by simp))
      hinner
  refine ⟨hv, hsecret, hentry, fun hsafe => ?_⟩
  exact absurd ((hsafe _ _ hentry).secret hsecret rfl) (by simp [redacted])

end PromptShelf.Log
