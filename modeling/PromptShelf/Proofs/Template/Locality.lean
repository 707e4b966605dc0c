/-
Rendering looks only at keys that occur in the template.

A key can be read at a place of a template only if it stands there.  So names that stand nowhere
in the template take part in no reading, whatever their values, and neither does the order of the
context count: two contexts with the same values for the keys that occur cannot be told apart.

* **`IsSplit.restrict`** — the pieces of a text depend only on which of the keys in it are names;
* **`render_congr_occurring`** — rendering depends only on the values of the keys that occur.
-/
import PromptShelf.Proofs.Template.Rendering

namespace PromptShelf.Template

variable {Names Names' : Key → Prop} {cs : List Char} {ps : List Piece}

theorem Reading.key_occurs_source (r : Reading) : r.key <:+: r.source := by
  cases r with
  | double ahead key behind =>
    refine ⟨'{' :: '{' :: ahead, behind ++ ['}', '}'], ?_⟩
    simp [Reading.key, Reading.source]
  | single key =>
    refine ⟨['{'], ['}'], ?_⟩
    simp [Reading.key, Reading.source]

theorem Reading.allowed_iff_of_key {r : Reading} (h : Names r.key ↔ Names' r.key) :
    r.Allowed Names ↔ r.Allowed Names' := by
  cases r with
  | double ahead key behind => exact and_congr_left fun _ => h
  | single key => exact h

theorem StartsAt.key_occurs {r : Reading} (h : StartsAt Names cs r) : r.key <:+: cs :=
  r.key_occurs_source.trans h.2.isInfix

/-- What starts at a place depends only on which keys ahead are names. -/
theorem startsAt_iff_of_occurring (h : ∀ key, key <:+: cs → (Names key ↔ Names' key)) (r : Reading) :
    StartsAt Names cs r ↔ StartsAt Names' cs r := by
  constructor
  · intro hstart
    exact ⟨(Reading.allowed_iff_of_key (h _ hstart.key_occurs)).mp hstart.1, hstart.2⟩
  · intro hstart
    exact ⟨(Reading.allowed_iff_of_key (h _ hstart.key_occurs)).mpr hstart.1, hstart.2⟩

/-- The pieces of a text depend only on which of the keys in it are names. -/
theorem IsSplit.restrict (hs : IsSplit Names cs ps)
    (h : ∀ key, key <:+: cs → (Names key ↔ Names' key)) : IsSplit Names' cs ps := by
  induction hs with
  | nil => exact .nil
  | @literal c rest ps hnone _ ih =>
    refine .literal (fun r hr => hnone r ((startsAt_iff_of_occurring h r).mpr hr)) (ih ?_)
    intro key hkey
    exact h key (hkey.trans (List.suffix_cons c rest).isInfix)
  | @token r cs rest ps htaken hcs _ ih =>
    have htaken' : Taken Names' cs r := by
      refine ⟨(startsAt_iff_of_occurring h r).mp htaken.1, ?_⟩
      intro r' hr'
      exact htaken.2 r' ((startsAt_iff_of_occurring h r').mpr hr')
    refine .token htaken' hcs (ih ?_)
    intro key hkey
    exact h key (hkey.trans (hcs ▸ (List.suffix_append _ rest).isInfix))

/-- The key of a token stands in the text. -/
theorem IsSplit.key_occurs (hs : IsSplit Names cs ps) {key : Key} {source : List Char}
    (hmem : Piece.token key source ∈ ps) : key <:+: cs := by
  induction hs with
  | nil => exact absurd hmem List.not_mem_nil
  | @literal c rest _ _ _ ih =>
    have hrest : Piece.token key source ∈ _ := (List.mem_cons.mp hmem).resolve_left (by simp)
    exact (ih hrest).trans (List.suffix_cons c rest).isInfix
  | @token r cs rest _ htaken hcs _ ih =>
    rcases List.mem_cons.mp hmem with heq | hrest
    · obtain ⟨rfl, -⟩ := Piece.token.inj heq
      exact htaken.1.key_occurs
    · exact (ih hrest).trans (hcs ▸ (List.suffix_append _ rest).isInfix)

/-! ### Contexts with the same values -/

variable {c c' : Context}

theorem fill_congr (h : ∀ p ∈ ps, fillPiece c p = fillPiece c' p) : fill c ps = fill c' ps := by
  induction ps with
  | nil => rfl
  | cons p ps ih =>
    have hrest : fill c ps = fill c' ps := ih fun q hq => h q (List.mem_cons_of_mem _ hq)
    rw [fill, fill, h p List.mem_cons_self, hrest]

/-- Two contexts with the same values for all keys that occur in a template, whatever other
entries they have and in whatever order, give the same text or the same error. -/
theorem render_congr_occurring (template : String) (c c' : Context)
    (h : ∀ key : Key, key ≠ [] → key <:+: template.toList →
      Context.find? c key = Context.find? c' key) :
    render template c = render template c' := by
  have hnames : ∀ key, key <:+: template.toList →
      (Context.Names c key ↔ Context.Names c' key) := by
    intro key hkey
    rw [Context.names_iff, Context.names_iff]
    refine and_congr_right ?_
    intro hne
    rw [h key hne hkey]
  have hs : IsSplit (Context.Names c) template.toList (split (Context.keys c) template.toList) :=
    isSplit_names_iff.mpr rfl
  have hsplit : split (Context.keys c) template.toList = split (Context.keys c') template.toList :=
    isSplit_names_iff.mp (hs.restrict hnames)
  rw [render, render, ← hsplit]
  refine congrArg _ (fill_congr ?_)
  intro p hp
  cases p with
  | literal ch => rfl
  | token key source =>
    have hne : key ≠ [] := (hs.names hp).1
    rw [fillPiece, fillPiece, h key hne (hs.key_occurs hp)]

/-- A key that does not occur may have a value without a text. -/
theorem render_congr_occurring_unused :
    let c : Context := [(.text "ab", .float .nan), (.text "a", .int 2)]
    let c' : Context := [(.text "a", .int 2), (.text "ba", .list [])]
    render "\x7ba\x7d, \x7b\x7b a \x7d\x7d" c = render "\x7ba\x7d, \x7b\x7b a \x7d\x7d" c' := by
  intro c c'
  refine render_congr_occurring _ c c' ?_
  intro key _ hkey
  have hb : 'b' ∉ key := fun hmem => absurd (hkey.subset hmem) (by decide)
  have hab : ['a', 'b'] ≠ key := fun heq => hb (heq ▸ by simp)
  have hba : ['b', 'a'] ≠ key := fun heq => hb (heq ▸ by simp)
  by_cases ha : ['a'] = key
  · simp [c, c', Context.find?, hab, ha]
  · simp [c, c', Context.find?, hab, hba, ha]

end PromptShelf.Template
