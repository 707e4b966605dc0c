/-
Which key a placeholder names.

If no name of a context holds a brace, a name in single braces is replaced by its value.  In double
braces blanks around a name do not count, so a name that begins or ends with blanks can be taken
for a shorter one: `Padded` says that a text is a name with blanks around it, and of all ways to
see a text so the one with the most blanks ahead is taken, and then the one with the longest name
(`Outermost`).  A name that ends with blanks is safe from this, as it is longer than the name it
could be taken for; one that begins with blanks is not.

* **`startsAt_doubled_iff`** — the readings of a text in double braces;
* **`render_placeholder`** — what is put in the place of a name in single and in double braces;
* **`placeholder_shadowed`** — a name that is never put in the place of its double form.
-/
import PromptShelf.Proofs.Template.Layout

namespace PromptShelf.Template

/-- The text is a name with blanks around it. -/
structure Padded (Names : Key → Prop) (cs ahead : List Char) (key : Key) (behind : List Char) :
    Prop where
  named : Names key
  blank_ahead : ∀ c ∈ ahead, Text.isBlank c = true
  blank_behind : ∀ c ∈ behind, Text.isBlank c = true
  eq : cs = ahead ++ (key ++ behind)

/-- There is no way to see the text as a name with more blanks ahead, and none with as many and a
longer name. -/
structure Outermost (Names : Key → Prop) (cs ahead : List Char) (key : Key)
    (behind : List Char) : Prop extends Padded Names cs ahead key behind where
  most : ∀ ahead' key' behind', Padded Names cs ahead' key' behind' →
    ahead'.length < ahead.length ∨ ahead'.length = ahead.length ∧ key'.length ≤ key.length

variable {Names : Key → Prop} {cs : List Char}

theorem padded_self (h : Names cs) : Padded Names cs [] cs [] where
  named := h
  blank_ahead := by simp
  blank_behind := by simp
  eq := by simp

theorem not_mem_of_isBlank {blanks : List Char} (h : ∀ c ∈ blanks, Text.isBlank c = true) :
    '}' ∉ blanks := by
  intro hmem
  have hblank := h _ hmem
  rw [Text.not_isBlank_brace.2] at hblank
  exact absurd hblank (by simp)

/-- The readings of a text in double braces are the ways to see it as a name with blanks. -/
theorem startsAt_doubled_iff (hnames : ∀ key, Names key → BraceFree key) (hcs : '}' ∉ cs)
    {ahead behind : List Char} {key : Key} :
    StartsAt Names ('{' :: '{' :: (cs ++ ['}', '}'])) (.double ahead key behind) ↔
      Padded Names cs ahead key behind := by
  rw [startsAt_double_iff]
  constructor
  · rintro ⟨⟨hkey, hahead, hbehind⟩, rest, hrest⟩
    have hclosed : '}' ∉ ahead ++ (key ++ behind) := by
      simp only [List.mem_append, not_or]
      exact ⟨not_mem_of_isBlank hahead, (hnames key hkey).2, not_mem_of_isBlank hbehind⟩
    have hsame : (ahead ++ (key ++ behind)) ++ '}' :: '}' :: rest = cs ++ '}' :: ['}'] := by
      simpa using hrest
    exact ⟨hkey, hahead, hbehind, (eq_of_append_brace hclosed hcs hsame).1.symm⟩
  · intro h
    refine ⟨⟨h.named, h.blank_ahead, h.blank_behind⟩, [], ?_⟩
    simp [h.eq]

/-- A text in double braces with a name in it is one placeholder. -/
theorem isSplit_doubled (hnames : ∀ key, Names key → BraceFree key) (hcs : BraceFree cs)
    (hname : Names cs) {ps : List Piece}
    (h : IsSplit Names ('{' :: '{' :: (cs ++ ['}', '}'])) ps) :
    ∃ ahead key behind source, Outermost Names cs ahead key behind ∧
      ps = [.token key source] := by
  have hself := (startsAt_doubled_iff hnames hcs.2).mpr (padded_self hname)
  cases h with
  | literal hnone => exact absurd hself (hnone _)
  | @token r _ rest ps htaken hrest htail =>
    cases r with
    | single key =>
      -- A single form is not taken where a double one starts.
      rcases htaken.2 _ hself with heq | hbetter
      · exact absurd heq (by simp)
      · exact absurd hbetter fun h => h
    | double ahead key behind =>
      have hpadded : Padded Names cs ahead key behind :=
        (startsAt_doubled_iff hnames hcs.2).mp htaken.1
      have hend : rest = [] := by
        rw [hpadded.eq] at hrest
        simpa [Reading.source] using hrest.symm
      subst hend
      cases htail with
      | token htaken' => exact absurd htaken'.1 (not_startsAt_nil _)
      | nil =>
        refine ⟨ahead, key, behind, _, ⟨hpadded, ?_⟩, rfl⟩
        intro ahead' key' behind' hpadded'
        have hstart := (startsAt_doubled_iff hnames hcs.2).mpr hpadded'
        rcases htaken.2 _ hstart with heq | hbetter
        · obtain ⟨rfl, rfl, rfl⟩ := Reading.double.inj heq
          exact .inr ⟨rfl, le_rfl⟩
        · rcases hbetter with hless | ⟨hsame, hshorter⟩
          · exact .inl hless
          · exact .inr ⟨hsame, hshorter.le⟩

theorem Outermost.eq_self {ahead behind : List Char} {key : Key}
    (h : Outermost Names cs ahead key behind) (hname : Names cs) (hahead : ahead = []) :
    key = cs := by
  have hlength : cs.length ≤ key.length := by
    rcases h.most _ _ _ (padded_self hname) with hless | ⟨-, hle⟩
    · rw [hahead] at hless
      exact absurd hless (by simp)
    · exact hle
  have hfront : key <+: cs := by
    rw [h.eq, hahead]
    exact List.prefix_append key behind
  exact hfront.eq_of_length_le hlength

/-! ### Rendering one placeholder -/

theorem render_eq_formatValue {template : String} {c : Context} {key : Key}
    {source : List Char} {v : Value}
    (h : IsSplit (Context.Names c) template.toList [.token key source])
    (hv : Context.find? c key = some v) : render template c = formatValue v := by
  rw [render, ← isSplit_names_iff.mp h, fill, fillPiece, hv]
  cases hformat : formatValue v with
  | error e => simp [hformat, Except.map, bind, Except.bind]
  | ok s => simp [hformat, fill, Except.map, bind, Except.bind, pure, Except.pure]

/-- If no name of a context holds a brace, each of its names in single braces is replaced by its
value.  In double braces it is replaced by the value of the outermost name in it, which is the
name itself unless another one is in it behind some blanks. -/
theorem render_placeholder (c : Context) (hbraces : ∀ key, Context.Names c key → BraceFree key)
    (k : String) (hk : k ≠ "") {v : Value} (hv : Context.find? c k.toList = some v) :
    render ("\x7b" ++ k ++ "\x7d") c = formatValue v ∧
      (∃ ahead key behind w, Outermost (Context.Names c) k.toList ahead key behind ∧
        Context.find? c key = some w ∧
        render ("\x7b\x7b" ++ k ++ "\x7d\x7d") c = formatValue w) ∧
      ((∀ ahead key behind, Padded (Context.Names c) k.toList ahead key behind → ahead = []) →
        render ("\x7b\x7b" ++ k ++ "\x7d\x7d") c = formatValue v) := by
  have hne : k.toList ≠ [] := by simpa using hk
  have hname : Context.Names c k.toList := Context.names_iff.mpr ⟨hne, v, hv⟩
  have hsingle : IsSplit (Context.Names c) ("\x7b" ++ k ++ "\x7d").toList
      [.token k.toList (Reading.single k.toList).source] := by
    have hlist : ("\x7b" ++ k ++ "\x7d").toList = '{' :: (k.toList ++ '}' :: []) := by simp
    rw [hlist]
    exact .token (taken_single hbraces hname hne []) (by simp [Reading.source]) .nil
  have hdouble : ∃ ahead key behind w, Outermost (Context.Names c) k.toList ahead key behind ∧
      Context.find? c key = some w ∧
      render ("\x7b\x7b" ++ k ++ "\x7d\x7d") c = formatValue w := by
    have hlist : ("\x7b\x7b" ++ k ++ "\x7d\x7d").toList =
        '{' :: '{' :: (k.toList ++ ['}', '}']) := by simp
    obtain ⟨ps, hs⟩ : ∃ ps, IsSplit (Context.Names c)
        ("\x7b\x7b" ++ k ++ "\x7d\x7d").toList ps := ⟨_, isSplit_names_iff.mpr rfl⟩
    obtain ⟨ahead, key, behind, source, houter, rfl⟩ :=
      isSplit_doubled hbraces (hbraces _ hname) hname (hlist ▸ hs)
    obtain ⟨w, hw⟩ := Context.exists_find? houter.named
    exact ⟨ahead, key, behind, w, houter, hw, render_eq_formatValue hs hw⟩
  refine ⟨render_eq_formatValue hsingle hv, hdouble, ?_⟩
  intro hahead
  obtain ⟨ahead, key, behind, w, houter, hw, hrender⟩ := hdouble
  obtain rfl := houter.eq_self hname (hahead _ _ _ houter.toPadded)
  obtain rfl := Option.some.inj (hv.symm.trans hw)
  exact hrender

/-- A name that ends with a blank is not taken for the shorter one, in single or double braces. -/
theorem render_placeholder_trailing :
    let c : Context := [(.text "a", .int 2), (.text "a ", .bool true)]
    render "\x7ba \x7d" c = .ok "true" ∧ render "\x7b\x7ba \x7d\x7d" c = .ok "true" := by
  intro c
  have hnames : ∀ key, Context.Names c key → key = ['a'] ∨ key = ['a', ' '] := by
    intro key h
    have hmem := Context.mem_keys.mpr h
    simpa [c, Context.keys] using hmem
  have hbraces : ∀ key, Context.Names c key → BraceFree key := by
    intro key h
    rcases hnames key h with rfl | rfl <;> decide
  obtain ⟨hsingle, -, hdouble⟩ :=
    render_placeholder c hbraces "a " (by decide) (v := .bool true)
      (by simp [c, Context.find?])
  refine ⟨hsingle, hdouble ?_⟩
  intro ahead key behind h
  cases ahead with
  | nil => rfl
  | cons b ahead =>
    have hb : 'a' = b := (List.cons.inj h.eq).1
    have hblank := h.blank_ahead b List.mem_cons_self
    rw [← hb] at hblank
    exact absurd hblank (by decide)

/-- A name that begins with a blank is not put in the place of its double form, if what is behind
the blank is a name, too. -/
theorem placeholder_shadowed :
    let c : Context := [(.text " a", .text "1"), (.text "a", .text "2")]
    (∀ key, Context.Names c key → BraceFree key) ∧
      Context.find? c " a".toList = some (.text "1") ∧ formatValue (.text "1") = .ok "1" ∧
      render "\x7b\x7b a\x7d\x7d" c = .ok "2" := by
  intro c
  have hbraces : ∀ key, Context.Names c key → BraceFree key := by
    intro key h
    have hmem := Context.mem_keys.mpr h
    have hkey : key = [' ', 'a'] ∨ key = ['a'] := by simpa [c, Context.keys] using hmem
    rcases hkey with rfl | rfl <;> decide
  have hkeys : Context.keys c = [[' ', 'a'], ['a']] := by simp [c, Context.keys]
  have hsorted : longestFirst [[' ', 'a'], ['a']] = [[' ', 'a'], ['a']] :=
    List.mergeSort_of_pairwise (by decide)
  have htoken : token? [[' ', 'a'], ['a']] ['\x7b', '\x7b', ' ', 'a', '\x7d', '\x7d'] =
      some ⟨['a'], 6⟩ := by decide
  have hsplit : split [[' ', 'a'], ['a']] ['\x7b', '\x7b', ' ', 'a', '\x7d', '\x7d'] =
      [.token ['a'] ['\x7b', '\x7b', ' ', 'a', '\x7d', '\x7d']] := by
    rw [split, hsorted, pieces, htoken]
    simp [pieces]
  have hrender : render "\x7b\x7b a\x7d\x7d" c = .ok "2" := by
    have hfound : Context.find? c ['a'] = some (.text "2") := by simp [c, Context.find?]
    rw [render, hkeys, String.toList_ofList, hsplit]
    simp only [fill, fillPiece, hfound]
    rfl
  exact ⟨hbraces, by simp [c, Context.find?], rfl, hrender⟩

end PromptShelf.Template
