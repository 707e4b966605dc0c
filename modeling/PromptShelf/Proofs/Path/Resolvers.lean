/-
What a resolver answers, and what it makes of its own keys.

A resolver puts its root into normal form when it is made, and each request reads that root once
more.  Normal forms are fixed points and do not depend on where they are read from, so a resolver
answers a request as it would be answered under the root in its first spelling.

The key of an answer consists of the names that the request keeps.  Requested in its turn, a key
keeps all of them, and it ends in what the request ends in; so it is an answer to itself, unless it
begins like a drive.  No request that is answered does, but its first name can, behind a dot
segment.

* **`resolve_make_eq`** — a resolver and its root in any spelling give the same answers, and what
  these answers are;
* **`acceptedSegments_keyOf`** — a key keeps its names, or it is refused for its drive;
* **`resolve_key_iff`** — the key of an answer is a request for the same path with the same key,
  exactly if it does not begin like a drive;
* **`key_refused`** — a key that is refused.
-/
import PromptShelf.Proofs.Path.Extensions

namespace PromptShelf.Path

/-! ### Names of requests -/

/-- A name that a request can ask for. -/
structure IsRequestable (s : Segment) : Prop extends IsName s where
  no_separator : ∀ c ∈ s, isSeparator c = false
  no_null : '\x00' ∉ s

theorem isRequestable_of_mem_kept {cs : List Char} (h : Acceptable cs) :
    ∀ s ∈ kept cs, IsRequestable s := by
  intro s hs
  have hmem : s ∈ requestedSegments cs := by
    rw [requestedSegments_eq]
    exact (List.mem_filter.mp hs).1
  exact ⟨isName_of_mem_kept h s hs, fun c hc => not_of_mem_segmentsBy hmem hc,
    fun hnull => h.no_null (mem_of_mem_segmentsBy hmem hnull)⟩

theorem requestedSegments_joined {ss : List Segment} (hne : ss ≠ [])
    (hss : ∀ s ∈ ss, IsRequestable s) : requestedSegments (joined ss) = ss := by
  induction ss with
  | nil => exact absurd rfl hne
  | cons s rest ih =>
    have hs : requestedSegments s = [s] :=
      requestedSegments_of_no_separator (hss s List.mem_cons_self).no_separator
    cases rest with
    | nil => exact hs
    | cons t rest =>
      rw [joined_cons_cons, requestedSegments_append (by decide), hs,
        ih (by simp) fun u hu => hss u (List.mem_cons_of_mem _ hu), List.singleton_append]

theorem not_mem_keyOf {ss : List Segment} {c : Char} (hc : c ≠ '/' ∧ c ≠ '.')
    (hss : ∀ s ∈ ss, c ∉ s) : c ∉ keyOf ss := by
  have hjoined : c ∉ joined ss := by
    induction ss with
    | nil => simp
    | cons s rest ih =>
      obtain ⟨hs, hrest⟩ := List.forall_mem_cons.mp hss
      cases rest with
      | nil => exact hs
      | cons t rest =>
        rw [joined_cons_cons, List.mem_append, List.mem_cons, not_or, not_or]
        exact ⟨hs, hc.1, ih hrest⟩
  rw [keyOf]
  split
  · simpa [dot] using hc.2
  · exact hjoined

theorem startsAtRoot_keyOf {ss : List Segment} (hss : ∀ s ∈ ss, IsRequestable s) :
    startsAtRoot (keyOf ss) = false := by
  cases ss with
  | nil => decide
  | cons s rest =>
    have hs := hss s List.mem_cons_self
    obtain ⟨c, more, rfl⟩ := List.exists_cons_of_ne_nil hs.ne_nil
    have hc : isSeparator c = false := hs.no_separator c List.mem_cons_self
    cases rest with
    | nil => exact hc
    | cons t rest => exact hc

/-- A key is a request for its names, unless it begins like a drive. -/
theorem acceptedSegments_keyOf {ss : List Segment} (hss : ∀ s ∈ ss, IsRequestable s) :
    acceptedSegments (keyOf ss) =
      if hasDrive (keyOf ss) = true then .error .notRelative else .ok ss := by
  have hnull : ¬ (keyOf ss).contains '\x00' = true := by
    rw [List.contains_iff_mem]
    exact not_mem_keyOf (by decide) fun s hs => (hss s hs).no_null
  rw [acceptedSegments, if_neg hnull, startsAtRoot_keyOf hss, Bool.false_or]
  by_cases hne : ss = []
  · subst hne
    decide
  · have hsegments : requestedSegments (keyOf ss) = ss := by
      rw [keyOf, if_neg hne, requestedSegments_joined hne hss]
    have hparent : ¬ ss.contains dotDot = true := by
      rw [List.contains_iff_mem]
      exact fun hmem => (hss dotDot hmem).ne_dotDot rfl
    have hkept : (ss.filter fun s => s ≠ [] ∧ s ≠ dot) = ss := by
      rw [List.filter_eq_self]
      intro s hs
      simpa using And.intro (hss s hs).ne_nil (hss s hs).ne_dot
    rw [hsegments, if_neg hparent, hkept]

/-! ### Drives and dot segments -/

theorem requestedSegments_cons_cons {c d : Char} (hc : isSeparator c = false) (tail : List Char) :
    (isSeparator d = true ∧ requestedSegments (c :: d :: tail) = [c] :: requestedSegments tail) ∨
      ∃ seg more, requestedSegments (c :: d :: tail) = (c :: d :: seg) :: more := by
  cases htail : segmentsBy isSeparator tail with
  | nil => exact absurd htail (segmentsBy_ne_nil _ _)
  | cons seg more =>
    cases hd : isSeparator d with
    | true => exact .inl ⟨rfl, by simp [requestedSegments, segmentsBy, hc, hd]⟩
    | false => exact .inr ⟨seg, more, by simp [requestedSegments, segmentsBy, hc, hd, htail]⟩

theorem hasDrive_cons_cons (c d : Char) (rest : List Char) :
    hasDrive (c :: d :: rest) = (d == ':' && c.isAlpha) := by
  by_cases hd : d = ':'
  · simp [hasDrive, hd]
  · simp [hasDrive, hd]

/-- No name goes on with a colon behind its end. -/
theorem hasDrive_keyOf_cons {s : Segment} (hne : s ≠ []) (rest : List Segment) :
    hasDrive (keyOf (s :: rest)) = hasDrive s := by
  obtain ⟨c, more, rfl⟩ := List.exists_cons_of_ne_nil hne
  rw [keyOf, if_neg (by simp)]
  cases rest with
  | nil => rfl
  | cons t rest =>
    cases more with
    | nil => exact hasDrive_cons_cons c '/' _
    | cons d more =>
      rw [hasDrive_cons_cons]
      exact hasDrive_cons_cons c d _

/-- Only behind a dot segment can the first name of a request begin like a drive. -/
theorem dot_of_hasDrive_keyOf {cs : List Char} (h : Acceptable cs)
    (hdrive : hasDrive (keyOf (kept cs)) = true) :
    ∃ c rest, cs = '.' :: c :: rest ∧ (c = '/' ∨ c = '\\') := by
  rw [kept, ← requestedSegments_eq] at hdrive
  cases cs with
  | nil => exact absurd hdrive (by decide)
  | cons c rest =>
    have hc : isSeparator c = false := startsAtRoot_eq_false_iff.mpr h.not_rooted
    cases rest with
    | nil =>
      rw [requestedSegments_of_no_separator (by simpa using hc)] at hdrive
      by_cases hdot : [c] = dot
      · rw [hdot] at hdrive
        exact absurd hdrive (by decide)
      · rw [List.filter_cons_of_pos (by simpa using hdot), hasDrive_keyOf_cons (by simp)] at hdrive
        exact absurd hdrive (by simp [hasDrive])
    | cons d tail =>
      rcases requestedSegments_cons_cons hc tail (d := d) with
        ⟨hd, hsegments⟩ | ⟨seg, more, hsegments⟩
      · by_cases hdot : [c] = dot
        · obtain rfl : c = '.' := List.singleton_inj.mp hdot
          exact ⟨d, tail, rfl, Text.isSeparator_iff.mp hd⟩
        · -- The first name is a single character.
          rw [hsegments, List.filter_cons_of_pos (by simpa using hdot),
            hasDrive_keyOf_cons (by simp)] at hdrive
          exact absurd hdrive (by simp [hasDrive])
      · -- The first name begins as the request does, which does not begin like a drive.
        have hno : hasDrive (c :: d :: tail) = false := hasDrive_eq_false_iff.mpr h.no_drive
        rw [hsegments, List.filter_cons_of_pos (by simp [dot]), hasDrive_keyOf_cons (by simp),
          hasDrive_cons_cons, ← hasDrive_cons_cons c d tail, hno] at hdrive
        exact absurd hdrive (by simp)

/-! ### Extensions of keys -/

theorem suffix_lower_keyOf (names : List Segment) {seg end_ : List Char}
    (h : end_ <:+ Text.lowerFrom false seg) :
    end_ <:+ Text.lowerFrom false (keyOf (names ++ [seg])) := by
  rw [keyOf, if_neg (by simp)]
  by_cases hne : names = []
  · rw [hne]
    exact h
  · rw [joined_append hne (by simp), joined_singleton,
      Text.lowerFrom_append_separator (by decide)]
    exact (h.trans (List.suffix_cons _ _)).trans (List.suffix_append _ _)

/-- The key of a request ends in what the request ends in. -/
theorem hasExtension_keyOf {requested : String} {extensions : List String}
    (hextensions : ∀ e ∈ extensions, IsExtension e)
    (h : hasExtension requested extensions = true) :
    hasExtension (String.ofList (keyOf (kept requested.toList))) extensions = true := by
  obtain ⟨names, seg, hkept, e, he, hsuffix⟩ := exists_kept_of_hasExtension hextensions h
  rw [hasExtension, List.any_eq_true]
  refine ⟨e, he, List.isSuffixOf_iff_suffix.mpr ?_⟩
  rw [Text.lower, Text.lower, String.toList_ofList, String.toList_ofList, String.toList_ofList]
    at hsuffix
  rw [Text.lower, Text.lower, String.toList_ofList, String.toList_ofList, String.toList_ofList, hkept]
  exact suffix_lower_keyOf names hsuffix

/-! ### The answers to a request -/

/-- The request ends in one of the extensions, if there is a list of them. -/
def Permits (extensions : Option (List String)) (requested : String) : Prop :=
  ∀ es ∈ extensions, hasExtension requested es = true

theorem checkExtension_cases (requested : String) (extensions : Option (List String)) :
    (Permits extensions requested ∧ checkExtension requested extensions = .ok ()) ∨
      ¬ Permits extensions requested ∧
        checkExtension requested extensions = .error (.accessDenied requested .extension) := by
  cases extensions with
  | none => exact .inl ⟨by simp [Permits], rfl⟩
  | some es =>
    rw [checkExtension]
    by_cases h : hasExtension requested es = true
    · exact .inl ⟨by simpa [Permits] using h, if_pos h⟩
    · exact .inr ⟨by simpa [Permits] using h, if_neg h⟩

/-- A request is denied for what it looks like, or else for its extension, or it is answered. -/
theorem resolve_cases {directory : String} (hdirectory : isAbsolute directory.toList = true)
    (root requested : String) (extensions : Option (List String)) :
    (¬ Acceptable requested.toList ∧ ∃ denial ∈ [Denial.nullByte, .notRelative, .parentSegment],
        resolve directory root requested extensions = .error (.accessDenied requested denial)) ∨
      (Acceptable requested.toList ∧ ¬ Permits extensions requested ∧
        resolve directory root requested extensions =
          .error (.accessDenied requested .extension)) ∨
      Acceptable requested.toList ∧ Permits extensions requested ∧
        resolve directory root requested extensions = .ok (String.ofList
          (placed (absolute directory.toList root.toList) (kept requested.toList))) := by
  rw [resolve_eq hdirectory]
  rcases acceptedSegments_cases requested.toList with
    ⟨haccept, hok⟩ | ⟨hrefuse, denial, hmem, herror⟩
  · rw [hok]
    rcases checkExtension_cases requested extensions with ⟨hpermits, hcheck⟩ | ⟨hpermits, hcheck⟩
    · exact .inr (.inr ⟨haccept, hpermits, by rw [hcheck]; rfl⟩)
    · exact .inr (.inl ⟨haccept, hpermits, by rw [hcheck]; rfl⟩)
  · exact .inl ⟨hrefuse, denial, hmem, by rw [herror]⟩

end PromptShelf.Path

namespace PromptShelf.Resolver

open PromptShelf.Path

section Make

variable {directory root : String} {extensions : Option (List String)}
  (hdirectory : isAbsolute directory.toList = true)

include hdirectory

/-- The root of a resolver is in normal form, so it reads the same from everywhere. -/
theorem absolute_root_make (elsewhere : String) :
    absolute elsewhere.toList (make directory root extensions).root.toList =
      absolute directory.toList root.toList := by
  rw [make, String.toList_ofList, absolute_eq_text directory.toList root.toList,
    absolute_text (rooted_read (isAbsolute_append hdirectory root.toList))]

theorem resolve_root_make {elsewhere : String} (helsewhere : isAbsolute elsewhere.toList = true)
    (requested : String) :
    Path.resolve elsewhere (make directory root extensions).root requested extensions =
      Path.resolve directory root requested extensions := by
  rw [resolve_eq helsewhere, resolve_eq hdirectory, absolute_root_make hdirectory]

theorem resolve_make_eq_ok_iff {requested path : String} :
    (make directory root extensions).resolve requested = .ok path ↔
      Acceptable requested.toList ∧ Permits extensions requested ∧
        path = String.ofList (placed (absolute directory.toList root.toList)
          (kept requested.toList)) := by
  have hroot : (make directory root extensions).resolve requested =
      Path.resolve directory root requested extensions :=
    resolve_root_make hdirectory hdirectory requested
  rw [hroot]
  rcases resolve_cases hdirectory root requested extensions with
    ⟨hrefuse, denial, -, hvalue⟩ | ⟨haccept, hpermits, hvalue⟩ | ⟨haccept, hpermits, hvalue⟩
  · simp [hvalue, hrefuse]
  · simp [hvalue, hpermits]
  · simp [hvalue, haccept, hpermits, eq_comm]

end Make

/-- A resolver gives the answers that its root gives in the spelling in which the resolver was
made, although it has put the root into normal form; so it does from every other directory, too.
A request is answered if it is acceptable and permitted by the extensions.  If not, it is denied
for what it looks like, and only an acceptable one is denied for its extension. -/
theorem resolve_make_eq (directory root requested : String) (extensions : Option (List String))
    (hdirectory : isAbsolute directory.toList = true) :
    let r := make directory root extensions
    let base := absolute directory.toList root.toList
    r.resolve requested = Path.resolve directory root requested extensions ∧
      (∀ elsewhere : String, isAbsolute elsewhere.toList = true →
        absolute elsewhere.toList r.root.toList = base ∧
          Resolver.resolve ⟨elsewhere, r.root, extensions⟩ requested = r.resolve requested) ∧
      (∀ path, r.resolve requested = .ok path ↔
        Acceptable requested.toList ∧ Permits extensions requested ∧
          path = String.ofList (placed base (kept requested.toList))) ∧
      ∀ e, r.resolve requested = .error e → ∃ denial, e = .accessDenied requested denial ∧
        (denial = .extension ↔ Acceptable requested.toList) := by
  intro r base
  have hsame : r.resolve requested = Path.resolve directory root requested extensions :=
    resolve_root_make hdirectory hdirectory requested
  refine ⟨hsame, fun elsewhere helsewhere => ⟨absolute_root_make hdirectory elsewhere, ?_⟩,
    fun path => resolve_make_eq_ok_iff hdirectory, fun e he => ?_⟩
  · rw [hsame]
    exact resolve_root_make hdirectory helsewhere requested
  · rw [hsame] at he
    rcases resolve_cases hdirectory root requested extensions with
      ⟨hrefuse, denial, hmem, hvalue⟩ | ⟨haccept, -, hvalue⟩ | ⟨-, -, hvalue⟩
    · have hdenial : denial ≠ .extension := by
        rintro rfl
        exact absurd hmem (by decide)
      exact ⟨denial, Except.error.inj (he.symm.trans hvalue), by simp [hdenial, hrefuse]⟩
    · exact ⟨.extension, Except.error.inj (he.symm.trans hvalue), by simp [haccept]⟩
    · exact absurd (he.symm.trans hvalue) (by simp)

theorem permits_md {requested : String} (h : hasExtension requested [".md"] = true) :
    Permits (some [".md"]) requested := by
  intro es hes
  obtain rfl := Option.some.inj hes
  exact h

/-- A root that climbs above its two slashes, and a request that is denied for two reasons. -/
theorem resolve_make_eq_twinRoot :
    let r := make "/srv" "//data/../../x//." (some [".md"])
    isAbsolute "/srv".toList = true ∧ r.resolve "a\\.//B.MD" = .ok "//x/a/B.MD" ∧
      Path.resolve "/srv" "//data/../../x//." "a\\.//B.MD" (some [".md"]) = .ok "//x/a/B.MD" ∧
      Path.resolve "/srv" r.root "../B" (some [".md"]) =
        .error (.accessDenied "../B" .parentSegment) := by
  intro r
  have hdirectory : isAbsolute "/srv".toList = true := by decide
  obtain ⟨hsame, -, hanswer, -⟩ :=
    resolve_make_eq "/srv" "//data/../../x//." "a\\.//B.MD" (some [".md"]) hdirectory
  have hok : r.resolve "a\\.//B.MD" = .ok "//x/a/B.MD" :=
    (hanswer _).mpr
      ⟨⟨by decide, by simp, by simp, by decide⟩, permits_md (by decide +kernel), by decide⟩
  exact ⟨hdirectory, hok, hsame ▸ hok, by cbv⟩

/-! ### Keys as requests -/

/-- The key of an answer is a request for the same path, and its own key, unless it begins like a
drive.  A key that does is denied; then the request began with a dot segment. -/
theorem resolve_key_iff {directory root requested path : String}
    {extensions : Option (List String)} (hdirectory : isAbsolute directory.toList = true)
    (hextensions : ∀ es ∈ extensions, ∀ e ∈ es, IsExtension e)
    (h : (make directory root extensions).resolve requested = .ok path) :
    let r := make directory root extensions
    let key := r.key path
    r.requestKey requested = .ok key ∧
      (hasDrive key.toList = false → r.resolve key = .ok path ∧ r.requestKey key = .ok key) ∧
      (hasDrive key.toList = true → r.resolve key = .error (.accessDenied key .notRelative) ∧
        ∃ c rest, requested.toList = '.' :: c :: rest ∧ (c = '/' ∨ c = '\\')) := by
  intro r key
  obtain ⟨haccept, hpermits, hpath⟩ := (resolve_make_eq_ok_iff hdirectory).mp h
  have hkey : key = String.ofList (keyOf (kept requested.toList)) := key_of_resolve hdirectory h
  have hkeyChars : key.toList = keyOf (kept requested.toList) := by
    rw [hkey, String.toList_ofList]
  have hnames := acceptedSegments_keyOf (isRequestable_of_mem_kept haccept)
  rw [← hkeyChars] at hnames
  refine ⟨requestKey_of_resolve hdirectory h, fun hdrive => ?_, fun hdrive => ⟨?_, ?_⟩⟩
  · rw [if_neg (by simp [hdrive])] at hnames
    -- The key is accepted with the names of the request, and its end is permitted.
    have hpermitsKey : Permits extensions key := by
      intro es hes
      rw [hkey]
      exact hasExtension_keyOf (hextensions es hes) (hpermits es hes)
    have hresolve : r.resolve key = .ok path := by
      refine (resolve_make_eq_ok_iff hdirectory).mpr ?_
      rcases acceptedSegments_cases key.toList with ⟨hacceptKey, hok⟩ | ⟨-, denial, -, herror⟩
      · have hkept : kept key.toList = kept requested.toList :=
          Except.ok.inj (hok.symm.trans hnames)
        refine ⟨hacceptKey, hpermitsKey, ?_⟩
        rw [hkept]
        exact hpath
      · exact absurd (herror.symm.trans hnames) (by simp)
    exact ⟨hresolve, requestKey_of_resolve hdirectory hresolve⟩
  · rw [if_pos hdrive] at hnames
    have hsame : r.resolve key = Path.resolve directory root key extensions :=
      resolve_root_make hdirectory hdirectory key
    rw [hsame, resolve_eq hdirectory, hnames]
  · exact dot_of_hasDrive_keyOf haccept (hkeyChars ▸ hdrive)

theorem isExtension_md : ∀ es ∈ some [".md"], ∀ e ∈ es, IsExtension e := by
  intro es hes e he
  obtain rfl := Option.some.inj hes
  obtain rfl := List.mem_singleton.mp he
  exact ⟨⟨'m', ['d'], by decide⟩, by simp⟩

/-- A drive inside of a request is a name like others. -/
theorem resolve_key_iff_inner :
    let r := make "/srv" "data" (some [".md"])
    isAbsolute "/srv".toList = true ∧ (∀ es ∈ some [".md"], ∀ e ∈ es, IsExtension e) ∧
      r.resolve ".\\a//C:/x.MD" = .ok "/srv/data/a/C:/x.MD" ∧
      r.requestKey ".\\a//C:/x.MD" = .ok "a/C:/x.MD" ∧
      r.resolve "a/C:/x.MD" = .ok "/srv/data/a/C:/x.MD" ∧
      r.requestKey "a/C:/x.MD" = .ok "a/C:/x.MD" := by
  intro r
  have hdirectory : isAbsolute "/srv".toList = true := by decide
  have h : r.resolve ".\\a//C:/x.MD" = .ok "/srv/data/a/C:/x.MD" :=
    (resolve_make_eq_ok_iff hdirectory).mpr
      ⟨⟨by decide, by simp, by simp, by decide⟩, permits_md (by decide +kernel), by decide⟩
  have hvalue : r.key "/srv/data/a/C:/x.MD" = "a/C:/x.MD" := by decide
  obtain ⟨hkey, hagain, -⟩ := resolve_key_iff hdirectory isExtension_md h
  rw [show (make "/srv" "data" (some [".md"])).key _ = _ from hvalue] at hkey hagain
  obtain ⟨hresolve, hself⟩ := hagain (by decide)
  exact ⟨hdirectory, isExtension_md, h, hkey, hresolve, hself⟩

/-- The first name of a request may begin like a drive behind a dot segment, but a key may not. -/
theorem key_refused :
    let r := make "/" "/srv" (some [".md"])
    isAbsolute "/".toList = true ∧ (∀ es ∈ some [".md"], ∀ e ∈ es, IsExtension e) ∧
      r.resolve "./C:/x.md" = .ok "/srv/C:/x.md" ∧ r.requestKey "./C:/x.md" = .ok "C:/x.md" ∧
      r.resolve "C:/x.md" = .error (.accessDenied "C:/x.md" .notRelative) := by
  intro r
  have hdirectory : isAbsolute "/".toList = true := by decide
  have h : r.resolve "./C:/x.md" = .ok "/srv/C:/x.md" :=
    (resolve_make_eq_ok_iff hdirectory).mpr
      ⟨⟨by decide, by simp, by simp, by decide⟩, permits_md (by decide +kernel), by decide⟩
  have hvalue : r.key "/srv/C:/x.md" = "C:/x.md" := by decide
  have hkey : r.requestKey "./C:/x.md" = .ok "C:/x.md" := by
    rw [requestKey_of_resolve hdirectory h]
    exact congrArg _ hvalue
  exact ⟨hdirectory, isExtension_md, h, hkey, rfl⟩

end PromptShelf.Resolver
