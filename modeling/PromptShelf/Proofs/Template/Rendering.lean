/-
What rendering does to a template.

`IsSplit` says which pieces a template has, without a search: from left to right, a
character where no placeholder starts is literal text, and where one starts the best
reading is a token.  Rendering keeps the literal text (`Replaces`), puts the text of
its value in the place of each token, and fails for the leftmost token whose value has
none (`Rejects`).

* **`isSplit_iff`** — a template has exactly one split, the one that `split` computes;
* **`render_iff_of_isSplit`** — what rendering gives is determined, piece by piece, by that
  split, which depends on the names of the context and on none of its values.
-/
import Mathlib.Data.List.Forall2
import PromptShelf.Error
import PromptShelf.Proofs.Template.Reading

namespace PromptShelf.Template

/-- The pieces of a text for some keys. -/
inductive IsSplit (Names : Key → Prop) : List Char → List Piece → Prop
  | nil : IsSplit Names [] []
  | literal {c : Char} {rest : List Char} {ps : List Piece}
      (hnone : ∀ r, ¬ StartsAt Names (c :: rest) r) (hrest : IsSplit Names rest ps) :
      IsSplit Names (c :: rest) (.literal c :: ps)
  | token {r : Reading} {cs rest : List Char} {ps : List Piece}
      (htaken : Taken Names cs r) (hcs : cs = r.source ++ rest) (hrest : IsSplit Names rest ps) :
      IsSplit Names cs (.token r.key r.source :: ps)

/-! ### A template has exactly one split -/

theorem source_ne_nil (r : Reading) : r.source ≠ [] := by
  cases r <;> simp [Reading.source]

theorem not_startsAt_nil {Names : Key → Prop} (r : Reading) : ¬ StartsAt Names [] r := by
  rintro ⟨-, hfront⟩
  exact source_ne_nil r (List.prefix_nil.mp hfront)

theorem IsSplit.unique {Names : Key → Prop} {cs : List Char} {ps qs : List Piece}
    (hp : IsSplit Names cs ps) (hq : IsSplit Names cs qs) : ps = qs := by
  -- What starts at a place decides of which kind the piece there is.
  induction hp generalizing qs with
  | nil =>
    cases hq with
    | nil => rfl
    | token htaken => exact absurd htaken.1 (not_startsAt_nil _)
  | literal hnone _ ih =>
    cases hq with
    | literal _ hrest => rw [ih hrest]
    | token htaken => exact absurd htaken.1 (hnone _)
  | token htaken hcs _ ih =>
    cases hq with
    | nil => exact absurd htaken.1 (not_startsAt_nil _)
    | literal hnone => exact absurd htaken.1 (hnone _)
    | token htaken' hcs' hrest =>
      obtain rfl := htaken.unique htaken'
      obtain rfl := List.append_cancel_left (hcs.symm.trans hcs')
      rw [ih hrest]

theorem Taken.congr {Names Names' : Key → Prop} (h : ∀ k, Names k ↔ Names' k)
    {cs : List Char} {r : Reading} (ht : Taken Names cs r) : Taken Names' cs r :=
  ⟨(StartsAt.congr h cs r).mp ht.1, fun r' hr' => ht.2 r' ((StartsAt.congr h cs r').mpr hr')⟩

theorem IsSplit.congr {Names Names' : Key → Prop} (h : ∀ k, Names k ↔ Names' k)
    {cs : List Char} {ps : List Piece} (hs : IsSplit Names cs ps) : IsSplit Names' cs ps := by
  induction hs with
  | nil => exact .nil
  | literal hnone _ ih =>
    exact .literal (fun r hr => hnone r ((StartsAt.congr h _ r).mpr hr)) ih
  | token htaken hcs _ ih => exact .token (htaken.congr h) hcs ih

/-- With longer keys first, the pieces that are computed are a split. -/
theorem isSplit_pieces {keys : List Key} (hsorted : keys.Pairwise fun a b => b.length ≤ a.length)
    (cs : List Char) : IsSplit (· ∈ keys) cs (pieces keys cs) := by
  fun_induction pieces keys cs with
  | case1 => exact .nil
  | case2 c rest t hfound ih =>
    obtain ⟨r, htaken, rfl⟩ := taken_of_token? hsorted hfound
    obtain ⟨tail, htail⟩ := htaken.1.2
    -- The reading covers the first character and as many others as its length says.
    obtain ⟨c', more, hsource⟩ := List.exists_cons_of_ne_nil (source_ne_nil r)
    rw [hsource, List.cons_append, List.cons.injEq] at htail
    obtain ⟨rfl, rfl⟩ := htail
    have hlength : r.token.length - 1 = more.length := by
      rw [Reading.token, hsource, List.length_cons, Nat.add_sub_cancel]
    rw [hlength, List.drop_left] at ih
    rw [hlength, List.take_left, List.drop_left, ← hsource]
    exact .token htaken (by rw [hsource, List.cons_append]) ih
  | case3 c rest hfound ih => exact .literal (not_startsAt_of_token? hfound) ih

theorem pairwise_longestFirst (keys : List Key) :
    (longestFirst keys).Pairwise fun a b => b.length ≤ a.length := by
  have htrans : ∀ a b c : Key, decide (b.length ≤ a.length) = true →
      decide (c.length ≤ b.length) = true → decide (c.length ≤ a.length) = true := by
    intro a b c hab hbc
    simp only [decide_eq_true_eq] at hab hbc ⊢
    omega
  have htotal : ∀ a b : Key,
      (decide (b.length ≤ a.length) || decide (a.length ≤ b.length)) = true := by
    intro a b
    simp only [Bool.or_eq_true, decide_eq_true_eq]
    omega
  exact (List.pairwise_mergeSort htrans htotal keys).imp fun hab => of_decide_eq_true hab

/-- A text has exactly one split, the one that is computed. -/
theorem isSplit_iff {keys : List Key} {cs : List Char} {ps : List Piece} :
    IsSplit (· ∈ keys) cs ps ↔ ps = split keys cs := by
  have hsplit : IsSplit (· ∈ keys) cs (split keys cs) :=
    (isSplit_pieces (pairwise_longestFirst keys) cs).congr fun _ => List.mem_mergeSort
  constructor
  · intro h
    exact h.unique hsplit
  · rintro rfl
    exact hsplit

theorem IsSplit.names {Names : Key → Prop} {cs : List Char} {ps : List Piece}
    (h : IsSplit Names cs ps) {key : Key} {source : List Char}
    (hmem : Piece.token key source ∈ ps) : Names key := by
  induction h with
  | nil => exact absurd hmem (by simp)
  | literal _ _ ih => exact ih (by simpa using hmem)
  | @token r _ _ _ htaken _ _ ih =>
    rcases List.mem_cons.mp hmem with heq | hrest
    · obtain ⟨rfl, -⟩ := Piece.token.inj heq
      have hallowed := htaken.1.1
      cases r with
      | double _ _ _ => exact hallowed.1
      | single _ => exact hallowed
    · exact ih hrest

/-! ### The names of a context -/

/-- The keys that name placeholders: texts that are not empty. -/
def Context.Names (c : Context) (key : Key) : Prop :=
  key ≠ [] ∧ ∃ v, (Value.text (String.ofList key), v) ∈ c

theorem Context.mem_keys {c : Context} {key : Key} :
    key ∈ Context.keys c ↔ Context.Names c key := by
  rw [Context.keys, List.mem_filterMap, Context.Names]
  constructor
  · rintro ⟨⟨k, v⟩, hmem, hk⟩
    cases k with
    | text s =>
      by_cases hs : s.isEmpty
      · simp [hs] at hk
      · obtain rfl : s.toList = key := by simpa [hs] using hk
        refine ⟨?_, v, by rwa [String.ofList_toList]⟩
        simpa [String.isEmpty_iff] using hs
    | _ => exact absurd hk (by simp)
  · rintro ⟨hne, v, hmem⟩
    refine ⟨_, hmem, ?_⟩
    simp [String.isEmpty_iff, hne]

theorem Context.exists_find? {c : Context} {key : Key} (h : Context.Names c key) :
    ∃ v, Context.find? c key = some v := by
  obtain ⟨-, v, hmem⟩ := h
  rw [← Option.isSome_iff_exists, Context.find?, List.findSome?_isSome_iff]
  exact ⟨_, hmem, by simp⟩

/-- A key is a name exactly if it is not empty and has a value. -/
theorem Context.names_iff {c : Context} {key : Key} :
    Context.Names c key ↔ key ≠ [] ∧ ∃ v, Context.find? c key = some v := by
  constructor
  · intro h
    exact ⟨h.1, Context.exists_find? h⟩
  · rintro ⟨hne, v, hv⟩
    refine ⟨hne, ?_⟩
    obtain ⟨⟨k, w⟩, hmem, hfound⟩ := List.exists_of_findSome?_eq_some hv
    cases k with
    | text s =>
      by_cases hs : s.toList = key
      · refine ⟨w, ?_⟩
        rw [← hs, String.ofList_toList]
        exact hmem
      · simp [hs] at hfound
    | _ => simp at hfound

/-! ### Filling in -/

/-- Text that stands for a piece once values are filled in. -/
def Replaces (c : Context) : Piece → List Char → Prop
  | .literal ch, text => text = [ch]
  | .token key _, text =>
    ∃ v s, Context.find? c key = some v ∧ formatValue v = .ok s ∧ text = s.toList

/-- The piece is a token whose value has no text. -/
def Rejects (c : Context) : Piece → RenderError → Prop
  | .literal _, _ => False
  | .token key _, e => ∃ v, Context.find? c key = some v ∧ formatValue v = .error e

theorem Replaces.not_rejects {c : Context} {p : Piece} {text : List Char}
    (h : Replaces c p text) (e : RenderError) : ¬ Rejects c p e := by
  cases p with
  | literal ch => exact fun hreject => hreject
  | token key source =>
    obtain ⟨v, s, hv, hs, -⟩ := h
    rintro ⟨v', hv', he⟩
    obtain rfl := Option.some.inj (hv.symm.trans hv')
    exact absurd (hs.symm.trans he) (by simp)

/-- The piece is literal text or a token of a name that has a value. -/
def Known (c : Context) : Piece → Prop
  | .literal _ => True
  | .token key _ => ∃ v, Context.find? c key = some v

theorem fillPiece_eq_ok_iff {c : Context} {p : Piece} (hp : Known c p) {text : List Char} :
    fillPiece c p = .ok text ↔ Replaces c p text := by
  cases p with
  | literal ch =>
    rw [fillPiece, Replaces, Except.ok.injEq]
    exact eq_comm
  | token key source =>
    obtain ⟨v, hv⟩ := hp
    rw [fillPiece, hv, Replaces]
    cases hformat : formatValue v with
    | error e => simp [Except.map, hv, hformat]
    | ok s => simp [Except.map, hv, hformat, eq_comm]

theorem fillPiece_eq_error_iff {c : Context} {p : Piece} (hp : Known c p) {e : RenderError} :
    fillPiece c p = .error e ↔ Rejects c p e := by
  cases p with
  | literal ch => simp [fillPiece, Rejects]
  | token key source =>
    obtain ⟨v, hv⟩ := hp
    rw [fillPiece, hv, Rejects]
    cases hformat : formatValue v with
    | error e' => simp [Except.map, hv, hformat]
    | ok s => simp [Except.map, hv, hformat]

theorem fill_eq_ok_iff {c : Context} {ps : List Piece} (hps : ∀ p ∈ ps, Known c p)
    {text : List Char} :
    fill c ps = .ok text ↔ ∃ texts, List.Forall₂ (Replaces c) ps texts ∧ text = texts.flatten := by
  induction ps generalizing text with
  | nil =>
    rw [fill, Except.ok.injEq]
    constructor
    · rintro rfl
      exact ⟨[], .nil, rfl⟩
    · rintro ⟨texts, hall, rfl⟩
      cases hall
      rfl
  | cons p ps ih =>
    have ih := @ih fun q hq => hps q (List.mem_cons_of_mem _ hq)
    have hp : ∀ {first}, fillPiece c p = .ok first ↔ Replaces c p first :=
      fillPiece_eq_ok_iff (hps p List.mem_cons_self)
    constructor
    · intro h
      rw [fill] at h
      cases hfirst : fillPiece c p with
      | error e => exact absurd h (by simp [hfirst, bind, Except.bind])
      | ok first =>
        cases hmore : fill c ps with
        | error e => exact absurd h (by simp [hfirst, hmore, bind, Except.bind])
        | ok more =>
          obtain ⟨texts, hall, rfl⟩ := ih.mp hmore
          refine ⟨first :: texts, .cons (hp.mp hfirst) hall, ?_⟩
          simpa [hfirst, hmore, bind, Except.bind, pure, Except.pure, eq_comm] using h
    · rintro ⟨texts, hall, rfl⟩
      cases hall with
      | cons hfirst hrest =>
        rw [fill, hp.mpr hfirst, ih.mpr ⟨_, hrest, rfl⟩]
        rfl

/-- The leftmost piece without a text has this error. -/
def FailsFirst (c : Context) (ps : List Piece) (e : RenderError) : Prop :=
  ∃ before p after, ps = before ++ p :: after ∧ Rejects c p e ∧
    ∀ q ∈ before, ∀ e', ¬ Rejects c q e'

theorem not_failsFirst_nil {c : Context} (e : RenderError) : ¬ FailsFirst c [] e := by
  rintro ⟨before, p, after, hnil, -, -⟩
  exact absurd hnil (by simp)

theorem failsFirst_cons_iff {c : Context} {p : Piece} {ps : List Piece} {e : RenderError} :
    FailsFirst c (p :: ps) e ↔
      Rejects c p e ∨ (∀ e', ¬ Rejects c p e') ∧ FailsFirst c ps e := by
  constructor
  · rintro ⟨before, q, after, hcons, hreject, hbefore⟩
    cases before with
    | nil =>
      obtain ⟨rfl, -⟩ := List.cons.inj hcons
      exact .inl hreject
    | cons q' before =>
      obtain ⟨rfl, rfl⟩ := List.cons.inj hcons
      exact .inr ⟨hbefore p List.mem_cons_self, before, q, after, rfl, hreject,
        fun q'' hmem => hbefore q'' (List.mem_cons_of_mem _ hmem)⟩
  · rintro (hreject | ⟨haccept, before, q, after, rfl, hreject, hbefore⟩)
    · exact ⟨[], p, ps, rfl, hreject, by simp⟩
    · refine ⟨p :: before, q, after, rfl, hreject, fun q' hmem => ?_⟩
      rcases List.mem_cons.mp hmem with rfl | hmem
      · exact haccept
      · exact hbefore q' hmem

/-- The error is that of the leftmost token without a text. -/
theorem fill_eq_error_iff {c : Context} {ps : List Piece} (hps : ∀ p ∈ ps, Known c p)
    {e : RenderError} : fill c ps = .error e ↔ FailsFirst c ps e := by
  induction ps with
  | nil =>
    rw [fill]
    exact ⟨fun h => absurd h (by simp), fun h => absurd h (not_failsFirst_nil e)⟩
  | cons p ps ih =>
    have ih := ih fun q hq => hps q (List.mem_cons_of_mem _ hq)
    have hp : ∀ {e'}, fillPiece c p = .error e' ↔ Rejects c p e' :=
      fillPiece_eq_error_iff (hps p List.mem_cons_self)
    rw [fill, failsFirst_cons_iff, ← ih, ← hp]
    cases hfirst : fillPiece c p with
    | error e' =>
      have hreject : ¬ ∀ e'', ¬ Rejects c p e'' := fun h => h e' (hp.mp hfirst)
      simp [bind, Except.bind, hreject]
    | ok first =>
      have haccept : ∀ e', ¬ Rejects c p e' := by
        intro e' hreject
        exact absurd (hfirst.symm.trans (hp.mpr hreject)) (by simp)
      cases fill c ps <;> simp [bind, Except.bind, pure, Except.pure, haccept]

theorem eq_unsupported_of_formatValue {v : Value} {e : RenderError}
    (h : formatValue v = .error e) : e = .unsupported v.kind := by
  cases v with
  | float x =>
    rw [formatValue] at h
    cases hx : x.plain? with
    | none => simpa [hx, eq_comm] using h
    | some s => simp [hx] at h
  | _ => simp_all [formatValue]

/-! ### Rendering -/

theorem isSplit_names_iff {c : Context} {cs : List Char} {ps : List Piece} :
    IsSplit (Context.Names c) cs ps ↔ ps = split (Context.keys c) cs := by
  have hnames : ∀ key, key ∈ Context.keys c ↔ Context.Names c key := fun _ => Context.mem_keys
  rw [← isSplit_iff]
  exact ⟨fun h => h.congr fun key => (hnames key).symm, fun h => h.congr hnames⟩

theorem IsSplit.known {c : Context} {cs : List Char} {ps : List Piece}
    (h : IsSplit (Context.Names c) cs ps) : ∀ p ∈ ps, Known c p := by
  intro p hp
  cases p with
  | literal ch => exact trivial
  | token key source => exact Context.exists_find? (h.names hp)

theorem render_eq_ok_iff {template : String} {c : Context} {ps : List Piece}
    (h : IsSplit (Context.Names c) template.toList ps) {s : String} :
    render template c = .ok s ↔
      ∃ texts, List.Forall₂ (Replaces c) ps texts ∧ s.toList = texts.flatten := by
  rw [render, ← isSplit_names_iff.mp h, ← fill_eq_ok_iff h.known]
  cases fill c ps with
  | error e => simp [Except.map]
  | ok text =>
    simp only [Except.map, Except.ok.injEq]
    exact ⟨fun hs => by rw [← hs, String.toList_ofList], fun hs => by rw [hs, String.ofList_toList]⟩

theorem render_eq_error_iff {template : String} {c : Context} {ps : List Piece}
    (h : IsSplit (Context.Names c) template.toList ps) {e : RenderError} :
    render template c = .error e ↔ FailsFirst c ps e := by
  rw [render, ← isSplit_names_iff.mp h, ← fill_eq_error_iff h.known]
  cases fill c ps <;> simp [Except.map]

theorem exists_rejects_iff {template : String} {c : Context} {ps : List Piece}
    (h : IsSplit (Context.Names c) template.toList ps) :
    (∃ e, render template c = .error e) ↔ ∃ p ∈ ps, ∃ e, Rejects c p e := by
  constructor
  · rintro ⟨e, he⟩
    obtain ⟨before, p, after, rfl, hreject, -⟩ := (render_eq_error_iff h).mp he
    exact ⟨p, by simp, e, hreject⟩
  · rintro ⟨p, hp, e, hreject⟩
    cases hrender : render template c with
    | error e' => exact ⟨e', rfl⟩
    | ok s =>
      -- Everything has been replaced, also the token that cannot be.
      obtain ⟨texts, hall, -⟩ := (render_eq_ok_iff h).mp hrender
      obtain ⟨⟨i, hi⟩, rfl⟩ := List.get_of_mem hp
      have hreplace := hall.get hi (hall.length_eq ▸ hi)
      exact absurd hreject (hreplace.not_rejects e)

/-- A template and the names of a context determine one split.  With any values under these
names, rendering keeps its literal text and replaces each of its tokens by the text of the
value, and it fails exactly if some value has no text, with the type error of the leftmost
such token. -/
theorem render_iff_of_isSplit (template : String) (context : Context) :
    ∃ ps, (∀ qs, IsSplit (Context.Names context) template.toList qs ↔ qs = ps) ∧
      ∀ c : Context, (∀ key, Context.Names c key ↔ Context.Names context key) →
        (∀ s, render template c = .ok s ↔
          ∃ texts, List.Forall₂ (Replaces c) ps texts ∧ s.toList = texts.flatten) ∧
        ((∃ e, render template c = .error e) ↔ ∃ p ∈ ps, ∃ e, Rejects c p e) ∧
        (∀ e, render template c = .error e ↔ FailsFirst c ps e) ∧
        ∀ e, render template c = .error e →
          (∃ kind, e = .unsupported kind) ∧ (Error.unrendered e).name = "TypeError" := by
  have hsplit : IsSplit (Context.Names context) template.toList
      (split (Context.keys context) template.toList) := isSplit_names_iff.mpr rfl
  refine ⟨_, fun qs => isSplit_names_iff, fun c hc => ?_⟩
  -- The same pieces are the split for any values under the same names.
  have hsplit' := hsplit.congr fun key => (hc key).symm
  refine ⟨fun s => render_eq_ok_iff hsplit', exists_rejects_iff hsplit',
    fun e => render_eq_error_iff hsplit', fun e he => ?_⟩
  obtain ⟨_, p, _, -, hreject, -⟩ := (render_eq_error_iff hsplit').mp he
  cases p with
  | literal ch => exact absurd hreject fun h => h
  | token key source =>
    obtain ⟨v, -, hformat⟩ := hreject
    exact ⟨⟨v.kind, eq_unsupported_of_formatValue hformat⟩, rfl⟩

end PromptShelf.Template
