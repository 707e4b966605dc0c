/-
Templates written as literal texts and slots.

In a context whose names hold no brace, a name in single braces is a placeholder wherever it
stands, and it is read as that name and no other.  So a template put together from literal texts
without braces and from names in braces (`Layout`) has no choices: rendering it writes the literal
texts down and puts into each slot the text of its value, whatever that text is.

* **`taken_single`** — a name in braces is read as itself;
* **`Layout.isSplit`** — a layout is split at its slots;
* **`Layout.render_template`** — rendering a layout fills its slots.
-/
import PromptShelf.Proofs.Template.Rendering

namespace PromptShelf.Template

def BraceFree (cs : List Char) : Prop := '{' ∉ cs ∧ '}' ∉ cs

instance (cs : List Char) : Decidable (BraceFree cs) :=
  inferInstanceAs (Decidable ('{' ∉ cs ∧ '}' ∉ cs))

/-- Texts up to the first closing brace are the same if all is. -/
theorem eq_of_append_brace {as bs more others : List Char} (ha : '}' ∉ as) (hb : '}' ∉ bs)
    (h : as ++ '}' :: more = bs ++ '}' :: others) : as = bs ∧ more = others := by
  induction as generalizing bs with
  | nil =>
    cases bs with
    | nil => exact ⟨rfl, (List.cons.inj h).2⟩
    | cons b bs => exact absurd ((List.cons.inj h).1 ▸ List.mem_cons_self) hb
  | cons a as ih =>
    cases bs with
    | nil => exact absurd ((List.cons.inj h).1 ▸ List.mem_cons_self) ha
    | cons b bs =>
      obtain ⟨rfl, hrest⟩ := List.cons.inj h
      obtain ⟨rfl, hmore⟩ := ih (fun hmem => ha (List.mem_cons_of_mem _ hmem))
        (fun hmem => hb (List.mem_cons_of_mem _ hmem)) hrest
      exact ⟨rfl, hmore⟩

/-! ### Names without braces -/

section Names

variable {Names : Key → Prop}

/-- Where no second brace follows, only single forms start. -/
theorem eq_single_of_startsAt {cs : List Char} {r : Reading} (hbrace : cs.head? ≠ some '{')
    (h : StartsAt Names ('{' :: cs) r) :
    ∃ key, r = .single key ∧ Names key ∧ key ++ ['}'] <+: cs := by
  cases r with
  | single key => exact ⟨key, rfl, startsAt_single_iff.mp h⟩
  | double ahead key behind =>
    obtain ⟨-, rest, hrest⟩ := h
    rw [Reading.source, List.cons_append, List.cons_append, List.cons_inj_right] at hrest
    exact absurd (hrest ▸ rfl) hbrace

/-- A name in braces is read as itself. -/
theorem taken_single (hnames : ∀ key, Names key → BraceFree key) {key : Key} (hkey : Names key)
    (hne : key ≠ []) (rest : List Char) :
    Taken Names ('{' :: (key ++ '}' :: rest)) (.single key) := by
  refine ⟨startsAt_single_iff.mpr ⟨hkey, rest, by simp⟩, ?_⟩
  intro r hr
  have hhead : (key ++ '}' :: rest).head? ≠ some '{' := by
    obtain ⟨c, more, rfl⟩ := List.exists_cons_of_ne_nil hne
    intro heq
    exact (hnames _ hkey).1 (Option.some.inj heq ▸ List.mem_cons_self)
  obtain ⟨key', rfl, hkey', others, hothers⟩ := eq_single_of_startsAt hhead hr
  rw [List.append_assoc, List.singleton_append] at hothers
  obtain ⟨rfl, -⟩ := eq_of_append_brace (hnames _ hkey').2 (hnames _ hkey).2 hothers
  exact .inl rfl

end Names

/-! ### Layouts -/

/-- A piece of a template as it is put together. -/
inductive Part
  | literal (text : String)
  | slot (name : String)

namespace Part

def source : Part → List Char
  | .literal text => text.toList
  | .slot name => '{' :: (name.toList ++ ['}'])

def filled (values : String → String) : Part → List Char
  | .literal text => text.toList
  | .slot name => (values name).toList

def pieces : Part → List Piece
  | .literal text => text.toList.map .literal
  | .slot name => [.token name.toList ('{' :: (name.toList ++ ['}']))]

/-- Literal texts hold no brace, and slots have names without one. -/
def Plain : Part → Prop
  | .literal text => BraceFree text.toList
  | .slot name => name ≠ "" ∧ BraceFree name.toList

instance (p : Part) : Decidable p.Plain :=
  match p with
  | .literal text => inferInstanceAs (Decidable (BraceFree text.toList))
  | .slot name => inferInstanceAs (Decidable (name ≠ "" ∧ BraceFree name.toList))

end Part

/-- Literal texts and slots in the order of the template. -/
abbrev Layout := List Part

namespace Layout

def template (l : Layout) : String := String.ofList (l.flatMap Part.source)

/-- The literal texts, with values in the place of the slots. -/
def filled (values : String → String) (l : Layout) : String :=
  String.ofList (l.flatMap (Part.filled values))

def slots (l : Layout) : List String :=
  l.filterMap fun
    | .slot name => some name
    | .literal _ => none

def Plain (l : Layout) : Prop := ∀ p ∈ l, p.Plain

instance (l : Layout) : Decidable l.Plain := inferInstanceAs (Decidable (∀ p ∈ l, p.Plain))

end Layout

theorem IsSplit.literals {Names : Key → Prop} {cs rest : List Char} {ps : List Piece}
    (hcs : '{' ∉ cs) (h : IsSplit Names rest ps) :
    IsSplit Names (cs ++ rest) (cs.map .literal ++ ps) := by
  induction cs with
  | nil => exact h
  | cons c cs ih =>
    refine .literal ?_ (ih fun hmem => hcs (List.mem_cons_of_mem _ hmem))
    -- Every reading starts with a brace.
    rintro r ⟨-, more, hmore⟩
    have hbrace : '{' = c := by
      cases r with
      | double => exact (List.cons.inj hmore).1
      | single => exact (List.cons.inj hmore).1
    exact hcs (hbrace ▸ List.mem_cons_self)

namespace Layout

variable {Names : Key → Prop} {c : Context} {values : String → String} {l : Layout}

/-- A layout is split at its slots. -/
theorem isSplit (hnames : ∀ key, Names key → BraceFree key) (hplain : l.Plain)
    (hslots : ∀ name ∈ l.slots, Names name.toList) :
    IsSplit Names (l.flatMap Part.source) (l.flatMap Part.pieces) := by
  induction l with
  | nil => exact .nil
  | cons p l ih =>
    have hrest : IsSplit Names (l.flatMap Part.source) (l.flatMap Part.pieces) := by
      refine ih (fun q hq => hplain q (List.mem_cons_of_mem _ hq)) ?_
      intro name hname
      refine hslots name ?_
      cases p with
      | literal text => exact hname
      | slot name' => exact List.mem_cons_of_mem _ hname
    have hp : p.Plain := hplain p List.mem_cons_self
    rw [List.flatMap_cons, List.flatMap_cons]
    cases p with
    | literal text => exact hrest.literals hp.1
    | slot name =>
      have hne : name.toList ≠ [] := by simpa using hp.1
      have hname : Names name.toList := hslots name List.mem_cons_self
      have hsource : (Part.slot name).source ++ l.flatMap Part.source =
          '{' :: (name.toList ++ '}' :: l.flatMap Part.source) := by simp [Part.source]
      rw [hsource]
      refine .token (taken_single hnames hname hne (l.flatMap Part.source)) ?_ hrest
      simp [Reading.source]

end Layout

theorem fill_append_eq_bind (c : Context) (ps qs : List Piece) :
    fill c (ps ++ qs) = do return (← fill c ps) ++ (← fill c qs) := by
  induction ps with
  | nil =>
    rw [List.nil_append, fill]
    cases fill c qs <;> rfl
  | cons p ps ih =>
    rw [List.cons_append, fill, fill, ih]
    cases fillPiece c p with
    | error e => rfl
    | ok first =>
      cases fill c ps with
      | error e => rfl
      | ok text => cases fill c qs <;> simp [bind, Except.bind, pure, Except.pure]

theorem fill_append {c : Context} {ps qs : List Piece} {text more : List Char}
    (hp : fill c ps = .ok text) (hq : fill c qs = .ok more) :
    fill c (ps ++ qs) = .ok (text ++ more) := by
  rw [fill_append_eq_bind, hp, hq]
  rfl

theorem fill_literals (c : Context) (cs : List Char) : fill c (cs.map .literal) = .ok cs := by
  induction cs with
  | nil => rfl
  | cons ch cs ih =>
    rw [List.map_cons, fill, ih]
    rfl

namespace Layout

variable {c : Context} {values : String → String} {l : Layout}

theorem fill_pieces (hvalues : ∀ name ∈ l.slots, ∃ v, Context.find? c name.toList = some v ∧
      formatValue v = .ok (values name)) :
    fill c (l.flatMap Part.pieces) = .ok (l.flatMap (Part.filled values)) := by
  induction l with
  | nil => rfl
  | cons p l ih =>
    rw [List.flatMap_cons, List.flatMap_cons]
    cases p with
    | literal text => exact fill_append (fill_literals c _) (ih hvalues)
    | slot name =>
      obtain ⟨v, hv, htext⟩ := hvalues name List.mem_cons_self
      refine fill_append ?_ (ih fun name' hname => hvalues name' (List.mem_cons_of_mem _ hname))
      simp [Part.pieces, Part.filled, fill, fillPiece, hv, htext, Except.map, bind, Except.bind,
        pure, Except.pure]

/-- Rendering a layout writes its literal texts down and fills its slots, whatever the texts of
the values hold. -/
theorem render_template (hnames : ∀ key, Context.Names c key → BraceFree key) (hplain : l.Plain)
    (hvalues : ∀ name ∈ l.slots, ∃ v, Context.find? c name.toList = some v ∧
      formatValue v = .ok (values name)) :
    render l.template c = .ok (l.filled values) := by
  have hslots : ∀ name ∈ l.slots, Context.Names c name.toList := by
    intro name hname
    obtain ⟨v, hv, -⟩ := hvalues name hname
    obtain ⟨p, hp, hslot⟩ := List.mem_filterMap.mp hname
    cases p with
    | literal text => exact absurd hslot (by simp)
    | slot name' =>
      obtain rfl := Option.some.inj hslot
      have hne : name' ≠ "" := (hplain _ hp).1
      exact Context.names_iff.mpr ⟨by simpa using hne, v, hv⟩
  have hs : IsSplit (Context.Names c) l.template.toList (l.flatMap Part.pieces) := by
    rw [template, String.toList_ofList]
    exact isSplit hnames hplain hslots
  rw [render, ← isSplit_names_iff.mp hs, fill_pieces hvalues]
  rfl

end Layout

end PromptShelf.Template
