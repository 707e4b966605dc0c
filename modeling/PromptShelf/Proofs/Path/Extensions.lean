/-
The extension of a request is that of its path.

The test for an extension looks at the requested text in small letters, and the path is put
together from the names of the request.  Both agree because small letters do not reach across a
separator: what stands before one has no part in how the text behind it is written
(`lowerFrom_append_separator`), and no letter becomes a separator or stops being one.  So an
extension, which has no separator, is found in the last segment of the request, and a segment
that ends in an extension is not one of those that are dropped.

* **`suffix_lower_lastRequested`** — what the small letters of a request end in is what those
  of its last segment end in;
* **`allowed_of_resolve`** — a resolved path is below the root, and its last segment has one of
  the extensions.
-/
import PromptShelf.Proofs.Path.Keys

namespace PromptShelf.Text

open PromptShelf.Path (isSeparator)

theorem isSeparator_iff {c : Char} : isSeparator c = true ↔ c = '/' ∨ c = '\\' := by
  rw [isSeparator, Bool.or_eq_true, beq_iff_eq, beq_iff_eq]

/-! ### Separators and small letters -/

theorem le_toNat_of_upper {c : Char} (h : c.val ≥ 'A'.val ∧ c.val ≤ 'Z'.val) :
    0x61 ≤ (c.toLower).toNat := by
  delta Char.toLower
  rw [dif_pos h]
  obtain ⟨hfirst, hlast⟩ := h
  rw [ge_iff_le, UInt32.le_iff_toNat_le] at hfirst
  rw [UInt32.le_iff_toNat_le] at hlast
  show 0x61 ≤ (c.val + ('a'.val - 'A'.val)).toNat
  rw [UInt32.toNat_add]
  simp at hfirst hlast ⊢
  omega

theorem not_isSeparator_of_le {c : Char} (hc : 0x61 ≤ c.toNat) : isSeparator c = false := by
  rw [Bool.eq_false_iff, Ne, isSeparator_iff]
  rintro (rfl | rfl)
  · exact absurd hc (by decide)
  · exact absurd hc (by decide)

/-- Beyond ASCII no small letter lies among the ASCII punctuation. -/
theorem le_add_of_mem_lowerSpans : ∀ span ∈ lowerSpans, 128 ≤ span.2.1 →
    (0x61 : Int) ≤ span.1 + span.2.2.2 := by
  decide +kernel

theorem not_isSeparator_ofNat {n : Nat} (hn : 0x61 ≤ n) : isSeparator (Char.ofNat n) = false := by
  by_cases hvalid : n.isValidChar
  · refine not_isSeparator_of_le ?_
    rw [Char.ofNat, dif_pos hvalid]
    exact hn
  · -- What is no code point becomes the null character.
    rw [Char.ofNat, dif_neg hvalid]
    decide

/-- No letter becomes a separator. -/
theorem isSeparator_lowerChar {c : Char} (h : isSeparator (lowerChar c) = true) :
    isSeparator c = true := by
  rw [lowerChar] at h
  split at h
  · by_cases hupper : c.val ≥ 'A'.val ∧ c.val ≤ 'Z'.val
    · rw [not_isSeparator_of_le (le_toNat_of_upper hupper)] at h
      exact absurd h (by simp)
    · delta Char.toLower at h
      rw [dif_neg hupper] at h
      exact h
  · rename_i hascii
    split at h
    · rename_i first last gap distance hspan
      have hmem := le_add_of_mem_lowerSpans _ (List.mem_of_find?_eq_some hspan)
      have hrange := List.find?_some hspan
      simp only [Bool.and_eq_true, decide_eq_true_eq] at hmem hrange
      rw [not_isSeparator_ofNat (by omega)] at h
      exact absurd h (by simp)
    · exact h

theorem lowerChar_of_isSeparator {c : Char} (h : isSeparator c = true) : lowerChar c = c := by
  rcases isSeparator_iff.mp h with rfl | rfl <;> decide

/-- Case is not looked for past a separator, and it has none itself. -/
theorem caseless_of_isSeparator {c : Char} (h : isSeparator c = true) :
    caseIgnorable.has c = false ∧ cased.has c = false := by
  rcases isSeparator_iff.mp h with rfl | rfl <;> decide +kernel

theorem caseBefore_of_isSeparator {c : Char} (h : isSeparator c = true) (before : Bool) :
    caseBefore before c = false := by
  obtain ⟨hignorable, hcased⟩ := caseless_of_isSeparator h
  rw [caseBefore, if_neg (by simp [hignorable]), hcased]

theorem followedByCased_append {c : Char} (hc : isSeparator c = true) (rest behind : List Char) :
    followedByCased (rest ++ c :: behind) = followedByCased rest := by
  induction rest with
  | nil => simp [followedByCased, caseless_of_isSeparator hc]
  | cons d rest ih =>
    simp only [followedByCased] at ih ⊢
    by_cases hd : caseIgnorable.has d = true
    · simpa [List.dropWhile_cons, hd] using ih
    · simp [hd]

/-! ### Small letters of the parts of a text -/

/-- Small letters are made on each side of a separator on its own. -/
theorem lowerFrom_append_separator {c : Char} (hc : isSeparator c = true) (before : Bool)
    (front behind : List Char) :
    lowerFrom before (front ++ c :: behind) = lowerFrom before front ++ c :: lowerFrom false behind := by
  induction front generalizing before with
  | nil =>
    have hsigma : c ≠ 'Σ' ∧ c ≠ 'İ' := by
      rcases isSeparator_iff.mp hc with rfl | rfl <;> decide
    rw [List.nil_append, lowerFrom.eq_2, caseBefore_of_isSeparator hc]
    simp only [if_neg hsigma.1, if_neg hsigma.2, lowerChar_of_isSeparator hc]
    rfl
  | cons d rest ih =>
    -- Whether a sigma is the last letter of a word is decided before the separator.
    rw [List.cons_append, lowerFrom, lowerFrom, ih, followedByCased_append hc, List.append_assoc]

theorem exists_lowerFrom_cons (before : Bool) (c : Char) (rest : List Char) :
    ∃ d small, lowerFrom before (c :: rest) = d :: small ++ lowerFrom (caseBefore before c) rest ∧
      ∀ e ∈ d :: small, isSeparator e = true → isSeparator c = true := by
  rw [lowerFrom]
  by_cases hsigma : c = 'Σ'
  · simp only [if_pos hsigma]
    refine ⟨_, [], rfl, ?_⟩
    intro e he
    obtain rfl := List.mem_singleton.mp he
    split <;> exact fun h => absurd h (by decide)
  · by_cases hdot : c = 'İ'
    · simp only [if_neg hsigma, if_pos hdot]
      refine ⟨_, _, rfl, fun e he h => ?_⟩
      simp only [List.mem_cons, List.not_mem_nil, or_false] at he
      rcases he with rfl | rfl <;> exact absurd h (by decide)
    · simp only [if_neg hsigma, if_neg hdot]
      refine ⟨_, [], rfl, fun e he h => ?_⟩
      obtain rfl := List.mem_singleton.mp he
      exact isSeparator_lowerChar h

theorem length_le_length_lowerFrom (before : Bool) (cs : List Char) :
    cs.length ≤ (lowerFrom before cs).length := by
  induction cs generalizing before with
  | nil => exact Nat.zero_le _
  | cons c rest ih =>
    obtain ⟨d, small, hlower, -⟩ := exists_lowerFrom_cons before c rest
    have hrest := ih (caseBefore before c)
    rw [hlower, List.length_append, List.length_cons, List.length_cons]
    omega

theorem not_isSeparator_of_mem_lowerFrom {cs : List Char}
    (hcs : ∀ c ∈ cs, isSeparator c = false) (before : Bool) :
    ∀ d ∈ lowerFrom before cs, isSeparator d = false := by
  induction cs generalizing before with
  | nil => exact fun d hd => absurd hd List.not_mem_nil
  | cons c rest ih =>
    obtain ⟨e, small, hlower, hsmall⟩ := exists_lowerFrom_cons before c rest
    intro d hd
    rw [hlower] at hd
    rcases List.mem_append.mp hd with hd | hd
    · by_contra hsep
      exact absurd (hsmall d hd (by simpa using hsep)) (by simp [hcs c List.mem_cons_self])
    · exact ih (fun c hc => hcs c (List.mem_cons_of_mem _ hc)) _ d hd

end PromptShelf.Text

namespace PromptShelf.Path

/-- A dot and something behind it, all in one segment. -/
structure IsExtension (e : String) : Prop where
  dotted : ∃ c rest, e.toList = '.' :: c :: rest
  no_separator : ∀ c ∈ e.toList, c ≠ '/' ∧ c ≠ '\\'

/-- The path is below the root, and its last segment has one of the extensions. -/
structure Allowed (root : List Char) (extensions : List String) (path : String) : Prop where
  below : below root <+: path.toList
  ne_root : path.toList ≠ root
  extension : ∃ e ∈ extensions,
    (Text.lower e).toList <:+ (Text.lower (String.ofList (lastSegment path.toList))).toList

/-! ### The last segment of a request -/

/-- A text has no separator, or it has a last one. -/
theorem exists_behind_separator (cs : List Char) :
    ∃ seg, (∀ c ∈ seg, isSeparator c = false) ∧
      (cs = seg ∨ ∃ front c, isSeparator c = true ∧ cs = front ++ c :: seg) := by
  induction cs with
  | nil => exact ⟨[], by simp, .inl rfl⟩
  | cons c rest ih =>
    obtain ⟨seg, hseg, rfl | ⟨front, d, hd, rfl⟩⟩ := ih
    · by_cases hc : isSeparator c = true
      · exact ⟨rest, hseg, .inr ⟨[], c, hc, rfl⟩⟩
      · refine ⟨c :: rest, fun d hd => ?_, .inl rfl⟩
        rcases List.mem_cons.mp hd with rfl | hd
        · simpa using hc
        · exact hseg d hd
    · exact ⟨seg, hseg, .inr ⟨c :: front, d, hd, rfl⟩⟩

theorem requestedSegments_of_no_separator {seg : Segment}
    (hseg : ∀ c ∈ seg, isSeparator c = false) : requestedSegments seg = [seg] := by
  rw [requestedSegments, segmentsBy_eq_splitOnP]
  exact List.splitOnP_eq_singleton fun c hc => by simp [hseg c hc]

theorem requestedSegments_append {front seg : List Char} {c : Char}
    (hc : isSeparator c = true) :
    requestedSegments (front ++ c :: seg) = requestedSegments front ++ requestedSegments seg := by
  simp only [requestedSegments, segmentsBy_eq_splitOnP]
  exact List.splitOnP_append_cons _ _ hc

/-- What the small letters of a request end in is what those of its last segment end in, as
far as there is no separator in it. -/
theorem suffix_lower_lastRequested (cs : List Char) {end_ : List Char}
    (hend : ∀ c ∈ end_, isSeparator c = false) (h : end_ <:+ Text.lowerFrom false cs) :
    ∃ segs seg, requestedSegments cs = segs ++ [seg] ∧ end_ <:+ Text.lowerFrom false seg := by
  obtain ⟨seg, hseg, rfl | ⟨front, c, hc, rfl⟩⟩ := exists_behind_separator cs
  · exact ⟨[], cs, requestedSegments_of_no_separator hseg, h⟩
  · refine ⟨requestedSegments front, seg, ?_, ?_⟩
    · rw [requestedSegments_append hc, requestedSegments_of_no_separator hseg]
    · rw [Text.lowerFrom_append_separator hc] at h
      have hbehind : Text.lowerFrom false seg <:+
          Text.lowerFrom false front ++ c :: Text.lowerFrom false seg :=
        (List.suffix_cons _ _).trans (List.suffix_append _ _)
      rcases Nat.lt_or_ge (Text.lowerFrom false seg).length end_.length with hlt | hge
      · -- Otherwise the separator would be in it.
        have hsep : c :: Text.lowerFrom false seg <:+ end_ :=
          List.suffix_of_suffix_length_le (List.suffix_append _ _) h hlt
        rw [hend c (hsep.subset List.mem_cons_self)] at hc
        exact absurd hc (by simp)
      · exact List.suffix_of_suffix_length_le h hbehind hge

theorem lastSegment_text {p : Path} (hp : Rooted p) : lastSegment p.text = p.names.getLastD [] := by
  have hjoined : (segments (joined p.names)).getLastD [] = p.names.getLastD [] := by
    by_cases hne : p.names = []
    · rw [hne]
      rfl
    · rw [segments_joined p.names hne fun s hs => (hp.isName s hs).no_slash]
  have hanchor := hp.anchor_ne
  rw [lastSegment, hp.text_eq]
  cases ha : p.anchor with
  | here => exact absurd ha hanchor
  | root => rw [Anchor.text, List.singleton_append, segments_cons_slash, List.getLastD_cons, hjoined]
  | twinRoot =>
    show (segments ('/' :: '/' :: joined p.names)).getLastD [] = _
    rw [segments_cons_slash, segments_cons_slash, List.getLastD_cons, List.getLastD_cons, hjoined]

/-! ### Resolved requests -/

theorem exists_of_hasExtension {requested : String} {extensions : List String}
    (h : hasExtension requested extensions = true) :
    ∃ e ∈ extensions, (Text.lower e).toList <:+ (Text.lower requested).toList := by
  obtain ⟨e, he, hsuffix⟩ := List.any_eq_true.mp h
  exact ⟨e, he, List.isSuffixOf_iff_suffix.mp hsuffix⟩

/-- The last segment of a request with an extension is among the names that are kept. -/
theorem exists_kept_of_hasExtension {requested : String} {extensions : List String}
    (hextensions : ∀ e ∈ extensions, IsExtension e)
    (h : hasExtension requested extensions = true) :
    ∃ names seg, kept requested.toList = names ++ [seg] ∧ ∃ e ∈ extensions,
      (Text.lower e).toList <:+ (Text.lower (String.ofList seg)).toList := by
  obtain ⟨e, he, hsuffix⟩ := exists_of_hasExtension h
  obtain ⟨⟨c, rest, hdotted⟩, hno⟩ := hextensions e he
  rw [Text.lower, Text.lower, String.toList_ofList, String.toList_ofList] at hsuffix
  have hsep : ∀ c ∈ e.toList, isSeparator c = false := by
    intro c hc
    rw [Bool.eq_false_iff, Ne, Text.isSeparator_iff]
    exact not_or.mpr (hno c hc)
  obtain ⟨segs, seg, hsegs, hseg⟩ := suffix_lower_lastRequested requested.toList
    (Text.not_isSeparator_of_mem_lowerFrom hsep false) hsuffix
  -- The segment is longer than a dot, so it is not dropped.
  have hlength : 2 ≤ (Text.lowerFrom false seg).length := by
    have hsmall := Text.length_le_length_lowerFrom false e.toList
    rw [hdotted, List.length_cons, List.length_cons] at hsmall
    exact Nat.le_trans (by rw [hdotted]; omega) hseg.length_le
  have hkept : seg ≠ [] ∧ seg ≠ dot := by
    constructor
    · rintro rfl
      exact absurd hlength (by decide)
    · rintro rfl
      exact absurd hlength (by decide +kernel)
  refine ⟨segs.filter fun s => s ≠ [] ∧ s ≠ dot, seg, ?_, e, he, ?_⟩
  · rw [kept, ← requestedSegments_eq, hsegs, List.filter_append]
    simp [hkept]
  · rw [Text.lower, Text.lower, String.toList_ofList, String.toList_ofList, String.toList_ofList]
    exact hseg

theorem allowed_placed {p : Path} (hp : Rooted p) {names : List Segment} {seg : Segment}
    (hnames : ∀ s ∈ names ++ [seg], IsName s) {extensions : List String} {e : String}
    (he : e ∈ extensions)
    (hsuffix : (Text.lower e).toList <:+ (Text.lower (String.ofList seg)).toList) :
    Allowed p.text extensions (String.ofList (placed p.text (names ++ [seg]))) := by
  have hplaced : placed p.text (names ++ [seg]) = Path.below p.text ++ joined (names ++ [seg]) :=
    if_neg (by simp)
  constructor
  · rw [String.toList_ofList, hplaced]
    exact List.prefix_append _ _
  · rw [String.toList_ofList, hplaced]
    intro heq
    -- The path is longer than the root, since the names are not empty.
    obtain ⟨⟨c, rest, -, hjoined⟩, -⟩ := joined_ends (show names ++ [seg] ≠ [] by simp) hnames
    have hlength := congrArg List.length heq
    rw [hjoined, Path.below, List.length_append, List.length_cons] at hlength
    split at hlength
    · omega
    · rw [List.length_append] at hlength
      omega
  · refine ⟨e, he, ?_⟩
    rw [String.toList_ofList, placed_text hp hnames, lastSegment_text (hp.extended hnames), extended,
      ← List.append_assoc, List.getLastD_concat]
    exact hsuffix

/-- A resolved request leads below the root, to a path with one of the extensions. -/
theorem allowed_of_resolve {directory root requested path : String}
    (hdirectory : isAbsolute directory.toList = true) {extensions : List String}
    (hextensions : ∀ e ∈ extensions, IsExtension e)
    (h : resolve directory root requested (some extensions) = .ok path) :
    Allowed (absolute directory.toList root.toList) extensions path := by
  obtain ⟨hsanitize, hcheck⟩ := resolve_eq_ok_iff.mp h
  obtain ⟨haccept, rfl⟩ := eq_of_sanitize hdirectory hsanitize
  have hextension : hasExtension requested extensions = true := by
    by_contra hno
    rw [checkExtension, if_neg hno] at hcheck
    exact absurd hcheck (by simp)
  obtain ⟨names, seg, hkept, e, he, hsuffix⟩ := exists_kept_of_hasExtension hextensions hextension
  have hnames := isName_of_mem_kept haccept
  rw [hkept] at hnames ⊢
  exact allowed_placed (rooted_read (isAbsolute_append hdirectory root.toList)) hnames he hsuffix

end PromptShelf.Path
