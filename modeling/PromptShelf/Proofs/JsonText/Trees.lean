/-
Writing by way of a tree.

Writing a value makes a tree of it (`tree`), or finds why there is none, and writes the tree
(`Json.chars`).

* **`write_eq`** — what is written is the tree of the value;
* **`Json.spells_chars`** — what is written of a tree spells its lexemes, whatever is spelled behind;
* **`Json.says_chars`** — what is written of a tree says the tree;
* **`Json.visible_chars`** — no control character is in it.
-/
import PromptShelf.JsonText.Writing
import PromptShelf.Proofs.JsonText.Grammar

namespace PromptShelf.JsonText

mutual

/-- How a tree is written. -/
def Json.chars : Json → List Char
  | .null => "null".toList
  | .bool b => boolWord b
  | .number numeral => numeral
  | .text s => textChars s.toList
  | .array items => '[' :: (Value.commaSeparated (itemChars items) ++ [']'])
  | .object members => '\x7b' :: (Value.commaSeparated (memberChars members) ++ ['\x7d'])

def itemChars : List Json → List (List Char)
  | [] => []
  | j :: rest => j.chars :: itemChars rest

def memberChars : List (String × Json) → List (List Char)
  | [] => []
  | (key, j) :: rest => (textChars key.toList ++ ':' :: ' ' :: j.chars) :: memberChars rest

end

theorem itemChars_eq_map (items : List Json) : itemChars items = items.map Json.chars := by
  induction items with
  | nil => rfl
  | cons j rest ih => rw [itemChars, ih, List.map_cons]

theorem memberChars_eq_map (members : List (String × Json)) :
    memberChars members = members.map fun m => textChars m.1.toList ++ ':' :: ' ' :: m.2.chars := by
  induction members with
  | nil => rfl
  | cons m rest ih =>
    obtain ⟨key, j⟩ := m
    rw [memberChars, ih, List.map_cons]

mutual

/-- The tree of a value; `shared` gives those of the containers of the heap. -/
def treeOf (shared : Nat → Except WriteError Json) : Value → Except WriteError Json
  | .none => .ok .null
  | .bool b => .ok (.bool b)
  | .int n => .ok (.number (Decimal.ofInt n))
  | .float x => .ok (.number (floatChars x))
  | .text s => .ok (.text s)
  | .decimal negative size => .ok (.text (Value.decimal negative size).display)
  | .bytes octets => .ok (.text (Value.bytes octets).display)
  | .set items => .ok (.text (Value.set items).display)
  | .object _ shown => .ok (.text shown)
  | .list items => (itemsOf shared items).map .array
  | .tuple items => (itemsOf shared items).map .array
  | .dict entries => (membersOf shared entries).map .object
  | .shared p => shared p

def itemsOf (shared : Nat → Except WriteError Json) : List Value → Except WriteError (List Json)
  | [] => .ok []
  | v :: rest => do
    let j ← treeOf shared v
    return j :: (← itemsOf shared rest)

def membersOf (shared : Nat → Except WriteError Json) :
    List (Value × Value) → Except WriteError (List (String × Json))
  | [] => .ok []
  | (k, v) :: rest => do
    let key ← keyText k
    let j ← treeOf shared v
    return (String.ofList key, j) :: (← membersOf shared rest)

end

/-- The tree of the container at a place inside those at the places `above`. -/
def placeTree (heap : Heap) : Nat → List Nat → Nat → Except WriteError Json
  | 0, _, _ => .error .circular
  | depth + 1, above, p =>
    if above.contains p then .error .circular
    else
      match heap[p]? with
      | some v => treeOf (placeTree heap depth (p :: above)) v
      | none => .error .circular

def tree (heap : Heap) (v : Value) : Except WriteError Json :=
  treeOf (placeTree heap heap.length []) v

theorem map_eq_ok {α β : Type} {x : Except WriteError α} {f : α → β} {b : β}
    (h : x.map f = .ok b) : ∃ a, x = .ok a ∧ b = f a := by
  cases x with
  | error e => cases h
  | ok a => exact ⟨a, rfl, (Except.ok.inj h).symm⟩

theorem itemsOf_cons_eq_ok {f : Nat → Except WriteError Json} {v : Value} {rest : List Value}
    {js : List Json} (h : itemsOf f (v :: rest) = .ok js) :
    ∃ j more, treeOf f v = .ok j ∧ itemsOf f rest = .ok more ∧ js = j :: more := by
  rw [itemsOf] at h
  cases hj : treeOf f v with
  | error e =>
    rw [hj] at h
    cases h
  | ok j =>
    cases hmore : itemsOf f rest with
    | error e =>
      rw [hj, hmore] at h
      cases h
    | ok more =>
      rw [hj, hmore] at h
      exact ⟨j, more, rfl, rfl, (Except.ok.inj h).symm⟩

theorem membersOf_cons_eq_ok {f : Nat → Except WriteError Json} {k v : Value}
    {rest : List (Value × Value)} {members : List (String × Json)}
    (h : membersOf f ((k, v) :: rest) = .ok members) :
    ∃ key j more, keyText k = .ok key ∧ treeOf f v = .ok j ∧ membersOf f rest = .ok more ∧
      members = (String.ofList key, j) :: more := by
  rw [membersOf] at h
  cases hkey : keyText k with
  | error e =>
    rw [hkey] at h
    cases h
  | ok key =>
    cases hj : treeOf f v with
    | error e =>
      rw [hkey, hj] at h
      cases h
    | ok j =>
      cases hmore : membersOf f rest with
      | error e =>
        rw [hkey, hj, hmore] at h
        cases h
      | ok more =>
        rw [hkey, hj, hmore] at h
        exact ⟨key, j, more, rfl, rfl, rfl, (Except.ok.inj h).symm⟩

/-! ### Writing a value is writing its tree -/

mutual

theorem writeChars_eq (f : Nat → Except WriteError Json) :
    ∀ v, writeChars (fun p => (f p).map Json.chars) v = (treeOf f v).map Json.chars
  | .none => rfl
  | .bool true => rfl
  | .bool false => rfl
  | .int _ => rfl
  | .float _ => rfl
  | .text _ => rfl
  | .decimal _ _ => by
    simp only [writeChars, treeOf, Except.map, Json.chars, Value.display, String.toList_ofList]
  | .bytes _ => rfl
  | .set _ => rfl
  | .object _ _ => rfl
  | .shared _ => rfl
  | .list items => by
    rw [writeChars, treeOf, writeItems_eq f items]
    cases itemsOf f items <;> rfl
  | .tuple items => by
    rw [writeChars, treeOf, writeItems_eq f items]
    cases itemsOf f items <;> rfl
  | .dict entries => by
    rw [writeChars, treeOf, writeEntries_eq f entries]
    cases membersOf f entries <;> rfl

theorem writeItems_eq (f : Nat → Except WriteError Json) :
    ∀ items, writeItems (fun p => (f p).map Json.chars) items = (itemsOf f items).map itemChars
  | [] => rfl
  | v :: rest => by
    rw [writeItems, itemsOf, writeChars_eq f v, writeItems_eq f rest]
    cases treeOf f v with
    | error e => rfl
    | ok j => cases itemsOf f rest <;> rfl

theorem writeEntries_eq (f : Nat → Except WriteError Json) :
    ∀ entries, writeEntries (fun p => (f p).map Json.chars) entries =
      (membersOf f entries).map memberChars
  | [] => rfl
  | (k, v) :: rest => by
    rw [writeEntries, membersOf, writeChars_eq f v, writeEntries_eq f rest]
    cases keyText k with
    | error e => rfl
    | ok key =>
      cases treeOf f v with
      | error e => rfl
      | ok j =>
        cases membersOf f rest with
        | error e => rfl
        | ok members =>
          simp [bind, Except.bind, Except.map, pure, Except.pure, memberChars]

end

theorem writePlace_eq (heap : Heap) (depth : Nat) (above : List Nat) (p : Nat) :
    writePlace heap depth above p = (placeTree heap depth above p).map Json.chars := by
  induction depth generalizing above p with
  | zero => rfl
  | succ depth ih =>
    rw [writePlace, placeTree]
    split
    · rfl
    · cases heap[p]? with
      | none => rfl
      | some v =>
        rw [funext (ih (p :: above))]
        exact writeChars_eq _ v

/-- What is written is the tree of the value. -/
theorem write_eq (heap : Heap) (v : Value) :
    write heap v = (tree heap v).map fun j => String.ofList j.chars := by
  rw [write, tree, funext (writePlace_eq heap heap.length []), writeChars_eq]
  cases treeOf (placeTree heap heap.length []) v <;> rfl

/-! ### What is written of a tree -/

/-- The characters spell the lexemes, whatever is spelled behind them. -/
def SpellsBefore (Numeral : List Char → Prop) (ls : List Lexeme) (cs : List Char) : Prop :=
  ∀ ms rest, Ends rest → Spells Numeral ms rest → Spells Numeral (ls ++ ms) (cs ++ rest)

theorem spellsChar_escapedChar (c : Char) : SpellsChar c (escapedChar c) := by
  have hcode : ∀ n < 32, Text.hexDigits 2 n = [Nat.digitChar (n / 16), Nat.digitChar (n % 16)] ∧
      hexNumber? '0' '0' (Nat.digitChar (n / 16)) (Nat.digitChar (n % 16)) = some n := by decide
  rw [escapedChar]
  iterate 7
    split
    · next h =>
      subst h
      exact .letter rfl
  split
  · next hcontrol =>
    obtain ⟨hdigits, hnumber⟩ := hcode c.toNat hcontrol
    rw [hdigits]
    exact .code hnumber
  · next hquote hescape _ _ _ _ _ hcontrol => exact .plain hquote hescape (by omega)

theorem spellsText_escaped (cs : List Char) : SpellsText cs (cs.flatMap escapedChar) := by
  induction cs with
  | nil => exact .nil
  | cons c cs ih => exact .cons (spellsChar_escapedChar c) ih

section Spelling

variable {Numeral : List Char → Prop}

theorem spellsBefore_text (s : String) : SpellsBefore Numeral [.text s] (textChars s.toList) := by
  intro ms rest hends hrest
  have h := Spells.text (spellsText_escaped s.toList) hrest
  simpa [textChars] using h

theorem SpellsBefore.append {ls ms : List Lexeme} {cs ds : List Char}
    (h : SpellsBefore Numeral ls cs) (h' : SpellsBefore Numeral ms ds)
    (hends : ∀ rest, Ends (ds ++ rest)) : SpellsBefore Numeral (ls ++ ms) (cs ++ ds) := by
  intro ns rest hrest hns
  rw [List.append_assoc, List.append_assoc]
  exact h _ _ (hends rest) (h' _ _ hrest hns)

theorem spellsBefore_mark {c : Char} (hc : c ∈ marks) {ls : List Lexeme} {cs : List Char}
    (h : SpellsBefore Numeral ls cs) : SpellsBefore Numeral (.mark c :: ls) (c :: cs) :=
  fun ms rest hends hrest => .mark hc (h ms rest hends hrest)

theorem SpellsBefore.blank {c : Char} (hc : isBlank c = true) {ls : List Lexeme} {cs : List Char}
    (h : SpellsBefore Numeral ls cs) : SpellsBefore Numeral ls (c :: cs) :=
  fun ms rest hends hrest => .blank hc (h ms rest hends hrest)

theorem spellsBefore_nil : SpellsBefore Numeral [] [] := fun _ _ _ hrest => hrest

/-- Parts with commas between them are spelled if each of them is. -/
theorem spellsBefore_separated {α : Type} {f : α → List Lexeme} {g : α → List Char} {xs : List α}
    (h : ∀ x ∈ xs, SpellsBefore Numeral (f x) (g x)) :
    SpellsBefore Numeral (separated (xs.map f)) (Value.commaSeparated (xs.map g)) := by
  induction xs with
  | nil => exact spellsBefore_nil
  | cons x xs ih =>
    have hx := h x List.mem_cons_self
    cases xs with
    | nil => simpa [separated, Value.commaSeparated] using hx
    | cons y ys =>
      have hmore := ih fun y hy => h y (List.mem_cons_of_mem _ hy)
      have hcomma := spellsBefore_mark (c := ',') (by decide) (hmore.blank (c := ' ') (by decide))
      have hends : ∀ cs rest, Ends (',' :: cs ++ rest) := by
        intro cs rest c hc
        obtain rfl := Option.some.inj hc
        rfl
      exact hx.append hcomma (hends _)

/-- What is written of a tree spells its lexemes, if its numbers are spelled by numerals. -/
theorem Json.spells_chars {j : Json} (h : j.Numbers Numeral) :
    SpellsBefore Numeral j.lexemes j.chars := by
  have hmarks : (marks.all (!isNumberChar ·)) = true := by decide
  have hbracket : ∀ {c : Char}, c ∈ marks → ∀ rest, Ends ([c] ++ rest) := by
    intro c hc rest d hd
    obtain rfl := Option.some.inj hd
    simpa using List.all_eq_true.mp hmarks _ hc
  induction j using Json.induct with
  | null => exact fun ms rest _ hrest => .word (by decide) hrest
  | bool b => exact fun ms rest _ hrest => .word (by cases b <;> decide) hrest
  | number numeral =>
    exact fun ms rest hends hrest => .number (h numeral List.mem_cons_self) hends hrest
  | text s => exact spellsBefore_text s
  | array items ih =>
    have hitems := spellsBefore_separated fun j hj => ih j hj (Json.numbers_array_iff.mp h j hj)
    rw [Json.lexemes, Json.chars, itemLexemes_eq_map, itemChars_eq_map]
    exact spellsBefore_mark (by decide)
      (hitems.append (spellsBefore_mark (by decide) spellsBefore_nil) (hbracket (by decide)))
  | object members ih =>
    have hmember : ∀ m ∈ members, SpellsBefore Numeral (.text m.1 :: .mark ':' :: m.2.lexemes)
        (textChars m.1.toList ++ ':' :: ' ' :: m.2.chars) := by
      intro m hm
      have hvalue := ih m hm (Json.numbers_object_iff.mp h m hm)
      refine (spellsBefore_text m.1).append
        (spellsBefore_mark (c := ':') (by decide) (hvalue.blank (c := ' ') (by decide))) ?_
      intro rest c hc
      obtain rfl := Option.some.inj hc
      rfl
    rw [Json.lexemes, Json.chars, memberLexemes_eq_map, memberChars_eq_map]
    exact spellsBefore_mark (by decide) ((spellsBefore_separated hmember).append
      (spellsBefore_mark (by decide) spellsBefore_nil) (hbracket (by decide)))

/-- What is written of a tree says the tree. -/
theorem Json.says_chars {j : Json} (h : j.Numbers Numeral) :
    Says Numeral (String.ofList j.chars) j := by
  have hnothing : Ends [] := fun c hc => absurd hc (by simp)
  simpa [Says] using Json.spells_chars h [] [] hnothing .nil

end Spelling

/-! ### No control characters -/

/-- None of the characters is a control character. -/
def Visible (cs : List Char) : Prop := ∀ c ∈ cs, 32 ≤ c.toNat

theorem visible_of_all {cs : List Char} (h : (cs.all fun c => 32 ≤ c.toNat) = true) :
    Visible cs :=
  fun c hc => of_decide_eq_true (List.all_eq_true.mp h c hc)

theorem visible_escapedChar (c : Char) : Visible (escapedChar c) := by
  have hcode : ∀ n < 32, (('\\' :: 'u' :: '0' :: '0' :: Text.hexDigits 2 n).all
      fun c => 32 ≤ c.toNat) = true := by decide
  rw [escapedChar]
  iterate 7
    split
    · exact visible_of_all (by decide)
  split
  · next hcontrol => exact visible_of_all (hcode c.toNat hcontrol)
  · next hcontrol =>
    intro d hd
    obtain rfl := List.mem_singleton.mp hd
    omega

theorem visible_textChars (cs : List Char) : Visible (textChars cs) := by
  refine List.forall_mem_cons.mpr ⟨by decide, List.forall_mem_append.mpr ⟨?_, visible_of_all (by decide)⟩⟩
  intro c hc
  obtain ⟨d, -, hd⟩ := List.mem_flatMap.mp hc
  exact visible_escapedChar d c hd

theorem visible_commaSeparated {ts : List (List Char)} (h : ∀ t ∈ ts, Visible t) :
    Visible (Value.commaSeparated ts) := by
  induction ts with
  | nil => exact fun c hc => absurd hc List.not_mem_nil
  | cons t rest ih =>
    have ht := h t List.mem_cons_self
    cases rest with
    | nil => exact ht
    | cons u rest =>
      have hmore := ih fun u hu => h u (List.mem_cons_of_mem _ hu)
      exact List.forall_mem_append.mpr ⟨ht, List.forall_mem_cons.mpr ⟨by decide,
        List.forall_mem_cons.mpr ⟨by decide, hmore⟩⟩⟩

theorem visible_of_isLoose {cs : List Char} (h : IsLoose cs) : Visible cs := by
  intro c hc
  refine Nat.le_of_not_lt fun hcontrol => ?_
  have hno := forall_char_lt (P := fun c => isNumberChar c = false) (by decide) c hcontrol
  exact absurd ((h.chars c hc).symm.trans hno) (by decide)

/-- No control character is in what is written of a tree. -/
theorem Json.visible_chars {j : Json} (h : j.Numbers IsLoose) : Visible j.chars := by
  have hbrackets : ∀ {b e : Char} {cs : List Char}, 32 ≤ b.toNat → 32 ≤ e.toNat → Visible cs →
      Visible (b :: (cs ++ [e])) := by
    intro b e cs hb he hcs
    refine List.forall_mem_cons.mpr ⟨hb, List.forall_mem_append.mpr ⟨hcs, ?_⟩⟩
    simpa using he
  induction j using Json.induct with
  | null => exact visible_of_all (by decide)
  | bool b => exact visible_of_all (by cases b <;> decide)
  | number numeral => exact visible_of_isLoose (h numeral List.mem_cons_self)
  | text s => exact visible_textChars s.toList
  | array items ih =>
    rw [Json.chars, itemChars_eq_map]
    refine hbrackets (by decide) (by decide) (visible_commaSeparated ?_)
    exact List.forall_mem_map.mpr fun j hj => ih j hj (Json.numbers_array_iff.mp h j hj)
  | object members ih =>
    rw [Json.chars, memberChars_eq_map]
    refine hbrackets (by decide) (by decide) (visible_commaSeparated ?_)
    refine List.forall_mem_map.mpr fun m hm => List.forall_mem_append.mpr
      ⟨visible_textChars _, List.forall_mem_cons.mpr ⟨by decide,
        List.forall_mem_cons.mpr ⟨by decide, ?_⟩⟩⟩
    exact ih m hm (Json.numbers_object_iff.mp h m hm)

end PromptShelf.JsonText
