/-
Keys of resolved requests.

A resolver that is made for a root reads it from its directory.  The path of a request
is then the root with the names of the request behind it, and the key of that path is
these names alone (`keyOf`), whatever the root.

* **`resolve_make`** — which path a resolved request has;
* **`key_of_resolve`** — the key of a resolved request;
* **`key_injective`** — different paths have different keys;
* **`key_canonical`** — requests share a key exactly if they share a path, and a path exactly
  if they name the same segments.
-/
import PromptShelf.FileTree.Basic
import PromptShelf.Path.Resolver
import PromptShelf.Proofs.Path.Sandbox

namespace PromptShelf.Path

/-- The way to names below a root. -/
def keyOf (ss : List Segment) : List Char := if ss = [] then dot else joined ss

theorem keyOf_injective {ss ts : List Segment} (hs : ∀ s ∈ ss, IsName s)
    (ht : ∀ t ∈ ts, IsName t) (h : keyOf ss = keyOf ts) : ss = ts := by
  -- Names that are joined can be cut again, and a dot is not among the names.
  have hcut : ∀ us : List Segment, us ≠ [] → (∀ u ∈ us, IsName u) → segments (keyOf us) = us := by
    intro us hne hus
    rw [keyOf, if_neg hne, segments_joined us hne fun u hu => (hus u hu).no_slash]
  have hdot : ∀ us : List Segment, us ≠ [] → (∀ u ∈ us, IsName u) → keyOf us ≠ keyOf [] := by
    intro us hne hus heq
    have hsegments := hcut us hne hus
    rw [heq] at hsegments
    exact (hus dot (hsegments ▸ by decide)).ne_dot rfl
  by_cases hss : ss = []
  · by_cases hts : ts = []
    · rw [hss, hts]
    · exact absurd (h.symm.trans (by rw [hss])) (hdot ts hts ht)
  · by_cases hts : ts = []
    · exact absurd (h.trans (by rw [hts])) (hdot ss hss hs)
    · rw [← hcut ss hss hs, h, hcut ts hts ht]

/-- A key is a relative path without anything to drop: its names are those it was made of. -/
theorem ofChars_keyOf {ss : List Segment} (hss : ∀ s ∈ ss, IsName s) :
    FilePath.ofChars (keyOf ss) = ⟨false, ss⟩ := by
  by_cases hne : ss = []
  · subst hne
    decide
  · have hrelative : isAbsolute (joined ss) = false := by
      obtain ⟨⟨c, rest, hc, hjoined⟩, -⟩ := joined_ends hne hss
      rw [Bool.eq_false_iff, Ne, isAbsolute_iff]
      rintro ⟨rest', hslash⟩
      exact hc (List.cons.inj (hjoined.symm.trans hslash)).1
    rw [keyOf, if_neg hne, FilePath.ofChars, hrelative,
      segments_joined ss hne fun s hs => (hss s hs).no_slash, List.filter_eq_self.mpr]
    intro s hs
    simpa using And.intro (hss s hs).ne_nil (hss s hs).ne_dot

theorem properSegments_text {p : Path} (hp : Rooted p) : properSegments p.text = p.names := by
  have hslash : ∀ cs, properSegments ('/' :: cs) = properSegments cs := by
    intro cs
    rw [properSegments, segments_cons_slash, List.filter_cons_of_neg (by simp), properSegments]
  have hjoined : properSegments (joined p.names) = p.names := by
    by_cases hne : p.names = []
    · rw [hne]
      rfl
    · rw [properSegments, segments_joined p.names hne fun s hs => (hp.isName s hs).no_slash,
        List.filter_eq_self]
      intro s hs
      simpa using (hp.isName s hs).ne_nil
  rw [hp.text_eq]
  have hanchor := hp.anchor_ne
  cases ha : p.anchor with
  | here => exact absurd ha hanchor
  | root => rw [Anchor.text, List.singleton_append, hslash, hjoined]
  | twinRoot =>
    show properSegments ('/' :: '/' :: joined p.names) = p.names
    rw [hslash, hslash, hjoined]

theorem withoutCommon_append (ss ts : List Segment) : withoutCommon ss (ss ++ ts) = ([], ts) := by
  induction ss with
  | nil => cases ts <;> rfl
  | cons s rest ih =>
    rw [List.cons_append, withoutCommon, if_pos rfl, ih]

theorem relative_extended {p : Path} (hp : Rooted p) {ss : List Segment}
    (hss : ∀ s ∈ ss, IsName s) : relative p.text (p.extended ss).text = keyOf ss := by
  rw [relative, properSegments_text hp, properSegments_text (hp.extended hss), extended,
    withoutCommon_append]
  cases ss <;> rfl

/-! ### Resolving -/

/-- A request is resolved by its text and the extensions; the root is only where it is put. -/
theorem resolve_eq {directory : String}
    (hdirectory : isAbsolute directory.toList = true) (root requested : String)
    (extensions : Option (List String)) :
    resolve directory root requested extensions =
      match acceptedSegments requested.toList with
      | .error denial => .error (.accessDenied requested denial)
      | .ok ss => (checkExtension requested extensions).map fun _ =>
          String.ofList (placed (absolute directory.toList root.toList) ss) := by
  rw [resolve, sanitize_eq hdirectory]
  cases acceptedSegments requested.toList with
  | error denial => rfl
  | ok ss => cases checkExtension requested extensions <;> rfl

theorem resolve_eq_ok_iff {directory root requested path : String}
    {extensions : Option (List String)} :
    resolve directory root requested extensions = .ok path ↔
      sanitize directory root requested = .ok path ∧
        checkExtension requested extensions = .ok () := by
  rw [resolve]
  cases sanitize directory root requested with
  | error e => simp [bind, Except.bind]
  | ok path' =>
    cases checkExtension requested extensions <;> simp [bind, Except.bind, pure, Except.pure]

theorem resolve_eq_error {directory root requested : String}
    {extensions : Option (List String)} {e : Error}
    (h : resolve directory root requested extensions = .error e) :
    sanitize directory root requested = .error e ∨
      checkExtension requested extensions = .error e := by
  rw [resolve] at h
  cases hsanitize : sanitize directory root requested with
  | error e' =>
    rw [hsanitize] at h
    exact Or.inl h
  | ok path =>
    rw [hsanitize] at h
    cases hcheck : checkExtension requested extensions with
    | error e' =>
      rw [hcheck] at h
      exact Or.inr (by simpa [bind, Except.bind] using h)
    | ok u =>
      rw [hcheck] at h
      exact absurd h (by simp [bind, Except.bind, pure, Except.pure])

end PromptShelf.Path

namespace PromptShelf.Resolver

open PromptShelf.Path

/-- A request is only ever denied. -/
theorem eq_accessDenied_of_resolve {r : Resolver} {requested : String} {e : Error}
    (h : r.resolve requested = .error e) : ∃ denial, e = .accessDenied requested denial := by
  rcases resolve_eq_error h with hsanitize | hcheck
  · rw [sanitize] at hsanitize
    split at hsanitize
    · exact absurd hsanitize (by simp)
    · exact ⟨_, (Except.error.inj hsanitize).symm⟩
  · rw [checkExtension.eq_def] at hcheck
    split at hcheck
    · exact absurd hcheck (by simp)
    · split at hcheck
      · exact absurd hcheck (by simp)
      · exact ⟨_, (Except.error.inj hcheck).symm⟩

section Make

variable {directory root : String} {extensions : Option (List String)}
  (hdirectory : isAbsolute directory.toList = true)

include hdirectory

theorem resolve_make {requested path : String}
    (h : (make directory root extensions).resolve requested = .ok path) :
    Acceptable requested.toList ∧
      path.toList = ((read (append directory.toList root.toList)).extended
        (kept requested.toList)).text := by
  have hrooted : Rooted (read (append directory.toList root.toList)) :=
    rooted_read (isAbsolute_append hdirectory root.toList)
  have hsanitize : sanitize directory (make directory root extensions).root requested = .ok path :=
    (resolve_eq_ok_iff.mp h).1
  rw [sanitize] at hsanitize
  rcases sanitizeChars_eq hdirectory (make directory root extensions).root.toList
    requested.toList with ⟨haccept, hok⟩ | ⟨-, denial, -, herror⟩
  · refine ⟨haccept, ?_⟩
    rw [hok] at hsanitize
    obtain rfl := Except.ok.inj hsanitize
    rw [make, String.toList_ofList, String.toList_ofList,
      absolute_eq_text directory.toList root.toList, absolute_text hrooted,
      placed_text hrooted (isName_of_mem_kept haccept)]
  · rw [herror] at hsanitize
    exact absurd hsanitize (by simp)

theorem key_of_resolve {requested path : String}
    (h : (make directory root extensions).resolve requested = .ok path) :
    (make directory root extensions).key path = String.ofList (keyOf (kept requested.toList)) := by
  have hrooted : Rooted (read (append directory.toList root.toList)) :=
    rooted_read (isAbsolute_append hdirectory root.toList)
  obtain ⟨haccept, hpath⟩ := resolve_make hdirectory h
  have hnames := isName_of_mem_kept haccept
  show String.ofList (relative (absolute directory.toList (String.ofList _).toList)
    (absolute directory.toList path.toList)) = _
  rw [hpath, String.toList_ofList, absolute_eq_text directory.toList root.toList,
    absolute_text hrooted, absolute_text (hrooted.extended hnames),
    relative_extended hrooted hnames]

theorem key_injective {requested requested' path path' : String}
    (h : (make directory root extensions).resolve requested = .ok path)
    (h' : (make directory root extensions).resolve requested' = .ok path')
    (hkey : (make directory root extensions).key path =
      (make directory root extensions).key path') : path = path' := by
  -- Equal keys come from equal names, and these make equal paths.
  obtain ⟨haccept, hpath⟩ := resolve_make hdirectory h
  obtain ⟨haccept', hpath'⟩ := resolve_make hdirectory h'
  rw [key_of_resolve hdirectory h, key_of_resolve hdirectory h'] at hkey
  have hnames := keyOf_injective (isName_of_mem_kept haccept) (isName_of_mem_kept haccept')
    (String.ofList_injective hkey)
  rw [← String.toList_inj, hpath, hpath', hnames]

theorem requestKey_of_resolve {requested path : String}
    (h : (make directory root extensions).resolve requested = .ok path) :
    (make directory root extensions).requestKey requested =
      .ok ((make directory root extensions).key path) := by
  have hrooted : Rooted (read (append directory.toList root.toList)) :=
    rooted_read (isAbsolute_append hdirectory root.toList)
  obtain ⟨haccept, hpath⟩ := resolve_make hdirectory h
  -- The path starts at a root, so it is not empty and has a key.
  have hne : path ≠ "" := by
    rintro rfl
    have habsolute := isAbsolute_text (hrooted.extended (isName_of_mem_kept haccept))
    rw [← hpath] at habsolute
    exact absurd habsolute (by decide)
  rw [requestKey, h]
  show key? _ path = _
  rw [key?, if_neg hne]

/-- Two requests that are resolved under one root have the same key exactly if they have the
same path, which is so exactly if they name the same segments.  The key is these segments
and nothing else, in a form that reads as itself, so it is the same under every root. -/
theorem key_canonical {requested requested' path path' : String}
    (h : (make directory root extensions).resolve requested = .ok path)
    (h' : (make directory root extensions).resolve requested' = .ok path') :
    let r := make directory root extensions
    let names := kept requested.toList
    (r.key path = r.key path' ↔ path = path') ∧
      (path = path' ↔ names = kept requested'.toList) ∧
      r.requestKey requested = .ok (r.key path) ∧
      r.key path = String.ofList (if names = [] then dot else joined names) ∧
      FilePath.ofString (r.key path) = ⟨false, names⟩ ∧
      ∀ (directory₂ root₂ path₂ : String) (extensions₂ : Option (List String)),
        isAbsolute directory₂.toList = true →
        (make directory₂ root₂ extensions₂).resolve requested = .ok path₂ →
        (make directory₂ root₂ extensions₂).key path₂ = r.key path := by
  intro r names
  have hkey := key_of_resolve hdirectory h
  obtain ⟨haccept, hpath⟩ := resolve_make hdirectory h
  obtain ⟨haccept', hpath'⟩ := resolve_make hdirectory h'
  have hnames : path = path' → names = kept requested'.toList := by
    intro heq
    subst heq
    exact keyOf_injective (isName_of_mem_kept haccept) (isName_of_mem_kept haccept')
      (String.ofList_injective (hkey.symm.trans (key_of_resolve hdirectory h')))
  refine ⟨⟨key_injective hdirectory h h', congrArg _⟩, ⟨hnames, fun heq => ?_⟩,
    requestKey_of_resolve hdirectory h, hkey, ?_, ?_⟩
  · rw [← String.toList_inj, hpath, hpath', show kept requested.toList = _ from heq]
  · rw [FilePath.ofString, show r.key path = _ from hkey, String.toList_ofList,
      ofChars_keyOf (isName_of_mem_kept haccept)]
  · intro directory₂ root₂ path₂ extensions₂ hdirectory₂ h₂
    rw [key_of_resolve hdirectory₂ h₂, show r.key path = _ from hkey]

end Make

theorem key_canonical_twinRoot :
    let r := make "/srv" "//data/x/.." none
    isAbsolute "/srv".toList = true ∧ r.resolve "a\\b//./c.md" = .ok "//data/a/b/c.md" ∧
      r.resolve "./a/b/c.md" = .ok "//data/a/b/c.md" ∧
      kept "a\\b//./c.md".toList = kept "./a/b/c.md".toList ∧
      r.requestKey "a\\b//./c.md" = .ok "a/b/c.md" := by
  intro r
  have hdirectory : isAbsolute "/srv".toList = true := by decide
  have h : r.resolve "a\\b//./c.md" = .ok "//data/a/b/c.md" := by cbv
  have h' : r.resolve "./a/b/c.md" = .ok "//data/a/b/c.md" := by cbv
  obtain ⟨-, hnames, hrequest, hkey, -⟩ := key_canonical hdirectory h h'
  have hvalue : kept "a\\b//./c.md".toList = ["a".toList, "b".toList, "c.md".toList] := by decide
  refine ⟨hdirectory, h, h', hnames.mp rfl, ?_⟩
  rw [hrequest, hkey, hvalue]
  rfl

end PromptShelf.Resolver
