/-
Templates put one behind the other.

A placeholder closes with the first closing brace behind its opening ones, or with the first two.
So none can cross the border between two texts if every opening brace of the first has a closing
one behind it, unless a closing brace stands on both sides of the border (`Border`).  A text is
then split in front of another as it is split alone, and rendering the whole is rendering the parts.

* **`startsAt_append_iff`** — what starts in front of such a border ends there;
* **`IsSplit.append`** — the pieces of both texts are the pieces of the whole;
* **`render_append_iff`** — what rendering two templates in one gives.
-/
import PromptShelf.Proofs.Template.Layout

namespace PromptShelf.Template

def isBrace (c : Char) : Bool := c == '{' || c == '}'

/-- The last brace of the first text, if it has one, is a closing one, and it does not stand at
the border together with another in the second text. -/
structure Border (cs ds : List Char) : Prop where
  closed : (cs.filter isBrace).getLast? ≠ some '{'
  apart : ¬ (cs.getLast? = some '}' ∧ ds.head? = some '}')

instance (cs ds : List Char) : Decidable (Border cs ds) :=
  decidable_of_iff ((cs.filter isBrace).getLast? ≠ some '{' ∧
    ¬ (cs.getLast? = some '}' ∧ ds.head? = some '}')) ⟨fun h => ⟨h.1, h.2⟩, fun h => ⟨h.1, h.2⟩⟩

/-- The border is the same for what is left of the first text. -/
theorem Border.of_append {cs more ds : List Char} (h : Border (cs ++ more) ds) :
    Border more ds := by
  refine ⟨fun hopen => h.closed ?_, fun hboth => h.apart ⟨?_, hboth.2⟩⟩
  · rw [List.filter_append, List.getLast?_append, hopen, Option.some_or]
  · rw [List.getLast?_append, hboth.1, Option.some_or]

/-- An opening brace has a closing one behind it. -/
theorem Border.mem_closing {cs ds : List Char} (h : Border ('{' :: cs) ds) : '}' ∈ cs := by
  have hlast := h.closed
  rw [List.filter_cons_of_pos (by decide), List.getLast?_cons] at hlast
  cases hbraces : (cs.filter isBrace).getLast? with
  | none => simp [hbraces] at hlast
  | some c =>
    have hmem : c ∈ cs.filter isBrace := List.mem_of_getLast? hbraces
    obtain ⟨hc, hbrace⟩ := List.mem_filter.mp hmem
    have hne : c ≠ '{' := by
      rintro rfl
      simp [hbraces] at hlast
    obtain rfl : c = '}' := by simpa [isBrace, hne] using hbrace
    exact hc

section Names

variable {Names : Key → Prop} {cs ds : List Char} {ps qs : List Piece}

/-! ### No placeholder crosses a border -/

/-- Behind its key a placeholder holds nothing but closing braces. -/
theorem Reading.exists_closing (hnames : ∀ key, Names key → BraceFree key) {r : Reading}
    (hr : r.Allowed Names) : ∃ inner closing, r.source = '{' :: (inner ++ closing) ∧
      '}' ∉ inner ∧ ∀ c ∈ closing, c = '}' := by
  cases r with
  | single key => exact ⟨key, ['}'], rfl, (hnames key hr).2, by simp⟩
  | double ahead key behind =>
    obtain ⟨hkey, hahead, hbehind⟩ := hr
    have hblank : ∀ {blanks : List Char}, (∀ c ∈ blanks, Text.isBlank c = true) → '}' ∉ blanks := by
      intro blanks hblanks hmem
      exact absurd (hblanks _ hmem) (by simp [Text.not_isBlank_brace.2])
    refine ⟨'{' :: (ahead ++ (key ++ behind)), ['}', '}'], by simp [Reading.source], ?_, by simp⟩
    simp only [List.mem_cons, List.mem_append, not_or]
    exact ⟨by decide, hblank hahead, (hnames key hkey).2, hblank hbehind⟩

/-- A cut behind the first of the closing braces, but in front of the last, is between two. -/
theorem closing_of_append_eq {inner closing front back : List Char}
    (h : inner ++ closing = front ++ back) (hinner : '}' ∉ inner)
    (hclosing : ∀ c ∈ closing, c = '}') (hfront : '}' ∈ front) (hback : back ≠ []) :
    front.getLast? = some '}' ∧ back.head? = some '}' := by
  rcases List.append_eq_append_iff.mp h with ⟨more, hmore, hclose⟩ | ⟨more, hmore, -⟩
  · obtain ⟨c, back, rfl⟩ := List.exists_cons_of_ne_nil hback
    have hc : c = '}' := hclosing c (by simp [hclose])
    have hne : more ≠ [] := by
      rintro rfl
      rw [hmore, List.append_nil] at hfront
      exact hinner hfront
    have hlast : more.getLast hne = '}' := by
      refine hclosing _ ?_
      rw [hclose]
      exact List.mem_append_left _ (List.getLast_mem hne)
    rw [hmore, List.getLast?_append, List.getLast?_eq_some_getLast hne, hlast, hc]
    exact ⟨rfl, rfl⟩
  · rw [hmore] at hinner
    exact absurd (List.mem_append_left more hfront) hinner

/-- What starts in front of a border ends there. -/
theorem startsAt_append_iff (hnames : ∀ key, Names key → BraceFree key) (hborder : Border cs ds)
    (hne : cs ≠ []) {r : Reading} : StartsAt Names (cs ++ ds) r ↔ StartsAt Names cs r := by
  refine ⟨fun h => ⟨h.1, ?_⟩, fun h => ⟨h.1, h.2.trans (List.prefix_append cs ds)⟩⟩
  rcases List.prefix_or_prefix_of_prefix h.2 (List.prefix_append cs ds) with hin | ⟨back, hback⟩
  · exact hin
  · by_cases hend : back = []
    · rw [hend, List.append_nil] at hback
      exact hback ▸ List.prefix_rfl
    · -- Otherwise the border is inside of the placeholder, and both its sides are closing braces.
      obtain ⟨inner, closing, hsource, hinner, hclosing⟩ := Reading.exists_closing hnames h.1
      obtain ⟨c, front, rfl⟩ := List.exists_cons_of_ne_nil hne
      rw [hsource, List.cons_append, List.cons.injEq] at hback
      obtain ⟨rfl, hcut⟩ := hback
      obtain ⟨hfront, hhead⟩ :=
        closing_of_append_eq hcut.symm hinner hclosing hborder.mem_closing hend
      have hds : back <+: ds := by
        have hprefix := h.2
        rw [hsource, ← hcut, List.cons_append, List.cons_prefix_cons] at hprefix
        exact (List.prefix_append_right_inj front).mp hprefix.2
      obtain ⟨rest, rfl⟩ := hds
      refine absurd ⟨?_, ?_⟩ hborder.apart
      · rw [List.getLast?_cons, hfront, Option.getD_some]
      · rw [List.head?_append, hhead, Option.some_or]

theorem Taken.append (hnames : ∀ key, Names key → BraceFree key) (hborder : Border cs ds)
    (hne : cs ≠ []) {r : Reading} (h : Taken Names cs r) : Taken Names (cs ++ ds) r := by
  refine ⟨(startsAt_append_iff hnames hborder hne).mpr h.1, fun r' hr' => ?_⟩
  exact h.2 r' ((startsAt_append_iff hnames hborder hne).mp hr')

/-- The pieces of both texts are the pieces of the whole. -/
theorem IsSplit.append (hnames : ∀ key, Names key → BraceFree key) (hborder : Border cs ds)
    (hs : IsSplit Names cs ps) (hs' : IsSplit Names ds qs) :
    IsSplit Names (cs ++ ds) (ps ++ qs) := by
  -- The border stays what it is while the first text is read.
  induction hs with
  | nil => exact hs'
  | @literal c rest ps hnone _ ih =>
    have hrest : Border rest ds := Border.of_append (show Border ([c] ++ rest) ds from hborder)
    refine .literal (fun r hr => ?_) (ih hrest)
    exact hnone r ((startsAt_append_iff hnames hborder (by simp)).mp hr)
  | @token r cs rest ps htaken hcs _ ih =>
    have hne : cs ≠ [] := by
      rintro rfl
      exact not_startsAt_nil r htaken.1
    have hwhole : cs ++ ds = r.source ++ (rest ++ ds) := by rw [hcs, List.append_assoc]
    refine .token (htaken.append hnames hborder hne) hwhole (ih ?_)
    rw [hcs] at hborder
    exact hborder.of_append

end Names

/-! ### Rendering -/

theorem render_append {c : Context} (hbraces : ∀ key, Context.Names c key → BraceFree key)
    {a b : String} (hborder : Border a.toList b.toList) :
    render (a ++ b) c = do return (← render a c) ++ (← render b c) := by
  have hsplit : split (Context.keys c) (a ++ b).toList =
      split (Context.keys c) a.toList ++ split (Context.keys c) b.toList := by
    refine (isSplit_names_iff.mp ?_).symm
    rw [String.toList_append]
    exact IsSplit.append hbraces hborder (isSplit_names_iff.mpr rfl) (isSplit_names_iff.mpr rfl)
  rw [render, hsplit, fill_append_eq_bind, render, render]
  cases fill c (split (Context.keys c) a.toList) with
  | error e => rfl
  | ok text =>
    cases fill c (split (Context.keys c) b.toList) with
    | error e => rfl
    | ok more => exact congrArg Except.ok String.ofList_append

/-- If no name of a context holds a brace, and no placeholder can cross the border of two
templates, rendering both in one succeeds exactly if each is rendered, and gives their texts one
behind the other.  It fails as the first one does, or else as the second one does. -/
theorem render_append_iff (c : Context) (hbraces : ∀ key, Context.Names c key → BraceFree key)
    (a b : String) (hborder : Border a.toList b.toList) :
    (∀ s, render (a ++ b) c = .ok s ↔
        ∃ x y, render a c = .ok x ∧ render b c = .ok y ∧ s = x ++ y) ∧
      ∀ e, render (a ++ b) c = .error e ↔
        render a c = .error e ∨ (∃ x, render a c = .ok x) ∧ render b c = .error e := by
  rw [render_append hbraces hborder]
  cases render a c with
  | error e' => simp [bind, Except.bind]
  | ok x =>
    cases render b c with
    | error e' => simp [bind, Except.bind]
    | ok y => simp [bind, Except.bind, pure, Except.pure, eq_comm]

/-- A closing brace may stand at the border, and braces that close nothing may lie on both sides. -/
theorem render_append_iff_closing :
    let c : Context := [(.text "x", .text "\x7b\x7bx"), (.int 1, .float .nan)]
    let a := "\x7d\x7b\x7b x\x7d"
    let b := " \x7d\x7bx\x7d"
    (∀ key, Context.Names c key → BraceFree key) ∧ Border a.toList b.toList ∧
      render (a ++ b) c = .ok "\x7d\x7b\x7b x\x7d \x7d\x7b\x7bx" := by
  intro c a b
  have hbraces : ∀ key, Context.Names c key → BraceFree key := by
    intro key h
    have hkey : key = ['x'] := by simpa [c, Context.keys] using Context.mem_keys.mpr h
    rw [hkey]
    decide
  have hborder : Border a.toList b.toList := by decide
  have hkeys : Context.keys c = [['x']] := by simp [c, Context.keys]
  have ha : render a c = .ok "\x7d\x7b\x7b x\x7d" := by
    have hsplit : split [['x']] a.toList = a.toList.map .literal := by decide +kernel
    rw [render, hkeys, hsplit, fill_literals]
    exact congrArg Except.ok String.ofList_toList
  have hb : render b c = .ok " \x7d\x7b\x7bx" := by
    have hsplit : split [['x']] b.toList =
        [.literal ' ', .literal '\x7d', .token ['x'] ['\x7b', 'x', '\x7d']] := by decide +kernel
    have hfound : Context.find? c ['x'] = some (.text "\x7b\x7bx") := by simp [c, Context.find?]
    rw [render, hkeys, hsplit]
    simp only [fill, fillPiece, hfound]
    rfl
  obtain ⟨hok, -⟩ := render_append_iff c hbraces a b hborder
  exact ⟨hbraces, hborder, (hok _).mpr ⟨_, _, ha, hb, by decide⟩⟩

end PromptShelf.Template
