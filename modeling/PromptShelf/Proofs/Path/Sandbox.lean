/-
Requests stay under their root.

`Acceptable` says which requests are answered, by their text alone; `kept` are the names
that a request goes through, and `placed` is where they lead from a root.

* **`sanitizeChars_eq`** — acceptable requests lead from the root to their names, and all
  others are refused for one of three reasons; the last comparison with the root never
  fails;
* **`sanitize_iff_acceptable`** — the same for requests as they come in, with the root read from
  any absolute directory.
-/
import PromptShelf.Proofs.Path.Normal

namespace PromptShelf.Path

/-- The requests that are answered: without a null character, relative in both ways of
writing separators, without a drive, and without a parent segment. -/
structure Acceptable (cs : List Char) : Prop where
  no_null : '\x00' ∉ cs
  not_rooted : ∀ c ∈ cs.head?, c ≠ '/' ∧ c ≠ '\\'
  no_drive : ∀ c rest, cs = c :: ':' :: rest → c.isAlpha = false
  no_parent : dotDot ∉ cs.splitOnP fun c => c == '/' || c == '\\'

def kept (cs : List Char) : List Segment :=
  (cs.splitOnP fun c => c == '/' || c == '\\').filter fun s => s ≠ [] ∧ s ≠ dot

/-- Names behind a root, which is the root itself if there are none. -/
def placed (root : List Char) (ss : List Segment) : List Char :=
  if ss = [] then root else below root ++ joined ss

/-! ### Which requests are accepted -/

theorem requestedSegments_eq (cs : List Char) :
    requestedSegments cs = cs.splitOnP fun c => c == '/' || c == '\\' :=
  segmentsBy_eq_splitOnP isSeparator cs

theorem startsAtRoot_eq_false_iff {cs : List Char} :
    startsAtRoot cs = false ↔ ∀ c ∈ cs.head?, c ≠ '/' ∧ c ≠ '\\' := by
  cases cs with
  | nil => simp [startsAtRoot]
  | cons c rest => simp [startsAtRoot, isSeparator]

theorem hasDrive_eq_false_iff {cs : List Char} :
    hasDrive cs = false ↔ ∀ c rest, cs = c :: ':' :: rest → c.isAlpha = false := by
  rw [hasDrive.eq_def]
  split
  · rename_i c rest
    constructor
    · rintro h c' rest' heq
      obtain ⟨rfl, -⟩ := List.cons.inj heq
      exact h
    · intro h
      exact h c rest rfl
  · rename_i hno
    exact ⟨fun _ c rest heq => absurd heq (hno c rest), fun _ => rfl⟩

/-- A request is accepted with the names it keeps, or refused for what it looks like. -/
theorem acceptedSegments_cases (cs : List Char) :
    (Acceptable cs ∧ acceptedSegments cs = .ok (kept cs)) ∨
      (¬ Acceptable cs ∧ ∃ denial ∈ [Denial.nullByte, .notRelative, .parentSegment],
        acceptedSegments cs = .error denial) := by
  rw [acceptedSegments]
  by_cases hnull : cs.contains '\x00' = true
  · refine Or.inr ⟨fun h => h.no_null (List.contains_iff_mem.mp hnull), .nullByte, by simp, ?_⟩
    rw [if_pos hnull]
  · rw [if_neg hnull]
    by_cases hstart : (startsAtRoot cs || hasDrive cs) = true
    · refine Or.inr ⟨fun h => ?_, .notRelative, by simp, if_pos hstart⟩
      rw [startsAtRoot_eq_false_iff.mpr h.not_rooted,
        hasDrive_eq_false_iff.mpr h.no_drive] at hstart
      exact absurd hstart (by simp)
    · rw [if_neg hstart]
      obtain ⟨hroot, hdrive⟩ := Bool.or_eq_false_iff.mp (Bool.not_eq_true _ ▸ hstart)
      by_cases hparent : (requestedSegments cs).contains dotDot = true
      · refine Or.inr ⟨fun h => h.no_parent ?_, .parentSegment, by simp, if_pos hparent⟩
        rw [← requestedSegments_eq]
        exact List.contains_iff_mem.mp hparent
      · rw [if_neg hparent, requestedSegments_eq]
        refine Or.inl ⟨⟨?_, ?_, ?_, ?_⟩, rfl⟩
        · exact fun h => hnull (List.contains_iff_mem.mpr h)
        · exact startsAtRoot_eq_false_iff.mp hroot
        · exact hasDrive_eq_false_iff.mp hdrive
        · rw [← requestedSegments_eq]
          exact fun h => hparent (List.contains_iff_mem.mpr h)

theorem isName_of_mem_kept {cs : List Char} (h : Acceptable cs) : ∀ s ∈ kept cs, IsName s := by
  intro s hs
  obtain ⟨hmem, hkept⟩ := List.mem_filter.mp hs
  obtain ⟨hne, hdot⟩ := of_decide_eq_true hkept
  refine ⟨hne, hdot, fun hparent => h.no_parent (hparent ▸ hmem), fun hslash => ?_⟩
  rw [← requestedSegments_eq] at hmem
  exact absurd (not_of_mem_segmentsBy hmem hslash) (by decide)

/-! ### Where a request leads -/

theorem absolute_eq_text (directory root : List Char) :
    absolute directory root = (read (append directory root)).text := rfl

theorem placed_text {p : Path} (hp : Rooted p) {ss : List Segment} (hss : ∀ s ∈ ss, IsName s) :
    placed p.text ss = (p.extended ss).text := by
  rw [placed]
  by_cases hne : ss = []
  · rw [if_pos hne, hne, extended_nil]
  · rw [if_neg hne, text_extended hp hne hss]

theorem isWithin_placed (root : List Char) (ss : List Segment) :
    isWithin root (placed root ss) = true := by
  rw [placed, isWithin, Bool.or_eq_true]
  by_cases hne : ss = []
  · rw [if_pos hne]
    exact Or.inl (beq_self_eq_true root)
  · rw [if_neg hne, List.isPrefixOf_iff_prefix]
    exact Or.inr (List.prefix_append _ _)

section Sanitize

variable {directory : List Char} (hdirectory : isAbsolute directory = true)

include hdirectory

theorem normalize_appendAll (root : List Char) {ss : List Segment} (hss : ∀ s ∈ ss, IsName s) :
    normalize (appendAll (absolute directory root) ss) = placed (absolute directory root) ss := by
  have hrooted : Rooted (read (append directory root)) :=
    rooted_read (isAbsolute_append hdirectory root)
  rw [absolute_eq_text, appendAll_text hrooted hss, placed_text hrooted hss,
    normalize_text (hrooted.extended hss)]

theorem sanitizeChars_eq (root cs : List Char) :
    (Acceptable cs ∧
        sanitizeChars directory root cs = .ok (placed (absolute directory root) (kept cs))) ∨
      (¬ Acceptable cs ∧ ∃ denial ∈ [Denial.nullByte, .notRelative, .parentSegment],
        sanitizeChars directory root cs = .error denial) := by
  rcases acceptedSegments_cases cs with ⟨haccept, hok⟩ | ⟨hrefuse, denial, hmem, herror⟩
  · refine Or.inl ⟨haccept, ?_⟩
    have hresolved := normalize_appendAll hdirectory root (isName_of_mem_kept haccept)
    rw [sanitizeChars, hok]
    -- The comparison with the root has nothing left to refuse.
    show (if isWithin _ (normalize _) = true then _ else _) = _
    rw [hresolved, if_pos (isWithin_placed _ _)]
    rfl
  · refine Or.inr ⟨hrefuse, denial, hmem, ?_⟩
    rw [sanitizeChars, herror]
    rfl

end Sanitize

/-- A request is resolved by its text, and the root only says where its names are put. -/
theorem sanitize_eq {directory : String} (hdirectory : isAbsolute directory.toList = true)
    (root requested : String) :
    sanitize directory root requested =
      match acceptedSegments requested.toList with
      | .ok ss => .ok (String.ofList (placed (absolute directory.toList root.toList) ss))
      | .error denial => .error (.accessDenied requested denial) := by
  rw [sanitize]
  rcases acceptedSegments_cases requested.toList with ⟨haccept, hok⟩ | ⟨-, denial, -, herror⟩
  · rcases sanitizeChars_eq hdirectory root.toList requested.toList with
      ⟨-, hresolved⟩ | ⟨hrefuse, -⟩
    · rw [hresolved, hok]
    · exact absurd haccept hrefuse
  · rw [sanitizeChars, herror]
    rfl

theorem eq_of_sanitize {directory root requested path : String}
    (hdirectory : isAbsolute directory.toList = true)
    (h : sanitize directory root requested = .ok path) :
    Acceptable requested.toList ∧
      path = String.ofList (placed (absolute directory.toList root.toList)
        (kept requested.toList)) := by
  rw [sanitize_eq hdirectory] at h
  rcases acceptedSegments_cases requested.toList with ⟨haccept, hok⟩ | ⟨-, denial, -, herror⟩
  · rw [hok] at h
    exact ⟨haccept, (Except.ok.inj h).symm⟩
  · rw [herror] at h
    exact absurd h (by simp)

/-- A request is answered exactly if it is acceptable.  The answer is in normal form: the
root, then the names of the request, so it is the root or lies below it between two
segments.  A request that is not answered is named by the error, with one of three reasons;
that it leads out of the root is none of them, because what is accepted stays there. -/
theorem sanitize_iff_acceptable (directory root requested : String)
    (hdirectory : isAbsolute directory.toList = true) :
    let base := absolute directory.toList root.toList
    let names := kept requested.toList
    ((∃ path, sanitize directory root requested = .ok path) ↔ Acceptable requested.toList) ∧
      (∀ path, sanitize directory root requested = .ok path →
        path.toList = placed base names ∧ normalize path.toList = path.toList ∧
          read path.toList = (read base).extended names ∧
          (path.toList = base ∨ below base <+: path.toList)) ∧
      (∀ e, sanitize directory root requested = .error e →
        ∃ denial ∈ [Denial.nullByte, .notRelative, .parentSegment],
          e = .accessDenied requested denial) ∧
      ∀ ss, acceptedSegments requested.toList = .ok ss →
        isWithin base (normalize (appendAll base ss)) = true := by
  intro base names
  have hrooted : Rooted (read (append directory.toList root.toList)) :=
    rooted_read (isAbsolute_append hdirectory root.toList)
  -- Accepted segments are the names that are kept, and with these nothing leads out.
  have hwithin : ∀ ss, acceptedSegments requested.toList = .ok ss →
      isWithin base (normalize (appendAll base ss)) = true := by
    intro ss hss
    rcases acceptedSegments_cases requested.toList with ⟨haccept, hok⟩ | ⟨-, denial, -, herror⟩
    · obtain rfl := Except.ok.inj (hok.symm.trans hss)
      rw [normalize_appendAll hdirectory root.toList (isName_of_mem_kept haccept)]
      exact isWithin_placed _ _
    · exact absurd (herror.symm.trans hss) (by simp)
  rcases sanitizeChars_eq hdirectory root.toList requested.toList with
    ⟨haccept, hok⟩ | ⟨hrefuse, denial, hmem, herror⟩
  · have hanswer : sanitize directory root requested = .ok (String.ofList (placed base names)) := by
      rw [sanitize, hok]
    have hnames := isName_of_mem_kept haccept
    have hplaced : placed base names = ((read (append directory.toList root.toList)).extended
        names).text := placed_text hrooted hnames
    have hbase : read base = read (append directory.toList root.toList) := read_text hrooted
    refine ⟨⟨fun _ => haccept, fun _ => ⟨_, hanswer⟩⟩, fun path hpath => ?_, fun e he => ?_, hwithin⟩
    · obtain rfl := Except.ok.inj (hanswer.symm.trans hpath)
      rw [String.toList_ofList]
      refine ⟨rfl, ?_, ?_, ?_⟩
      · rw [hplaced, normalize_text (hrooted.extended hnames)]
      · rw [hplaced, read_text (hrooted.extended hnames), hbase]
      · have h := isWithin_placed base names
        rw [isWithin, Bool.or_eq_true, List.isPrefixOf_iff_prefix, beq_iff_eq] at h
        exact h
    · exact absurd (hanswer.symm.trans he) (by simp)
  · have hanswer : sanitize directory root requested =
        .error (.accessDenied requested denial) := by
      rw [sanitize, herror]
    refine ⟨⟨?_, fun haccept => absurd haccept hrefuse⟩, fun path hpath => ?_, fun e he => ?_,
      hwithin⟩
    · rintro ⟨path, hpath⟩
      exact absurd (hanswer.symm.trans hpath) (by simp)
    · exact absurd (hanswer.symm.trans hpath) (by simp)
    · exact ⟨denial, hmem, (Except.error.inj (hanswer.symm.trans he)).symm⟩

theorem sanitize_climbing_root :
    isAbsolute "/srv".toList = true ∧
      sanitize "/srv" "../app//./data/" "a\\b//./c.md" = .ok "/app/data/a/b/c.md" := by
  have hdirectory : isAbsolute "/srv".toList = true := by decide
  obtain ⟨hiff, hanswer, -, -⟩ :=
    sanitize_iff_acceptable "/srv" "../app//./data/" "a\\b//./c.md" hdirectory
  obtain ⟨path, hpath⟩ := hiff.mpr ⟨by decide, by simp, by simp, by decide⟩
  obtain ⟨hplaced, -⟩ := hanswer path hpath
  have hvalue : placed (absolute "/srv".toList "../app//./data/".toList)
      (kept "a\\b//./c.md".toList) = "/app/data/a/b/c.md".toList := by decide
  refine ⟨hdirectory, ?_⟩
  rw [hpath, ← String.ofList_toList (s := path), hplaced, hvalue, String.ofList_toList]

end PromptShelf.Path
