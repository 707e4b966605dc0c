/-
Paths as texts.

A path is a text; `segments` cuts it at its separators and `joined` puts
segments together again.  `Path` is what a text means once redundant parts are
gone: where it starts (`Anchor`) and its segments, without empty and dot ones and
with every parent segment climbed as far as the text allows.  `normalize` reads a
text into this form and writes it again.

Two leading slashes, but not three or more, are an anchor of their own.

* **`segments_joined`** — joining segments without separators and cutting again
  gives them back;
* **`joined_segments`** — cutting a text and joining gives it back.
-/

namespace PromptShelf

abbrev Segment := List Char

namespace Path

def dot : Segment := ['.']

def dotDot : Segment := ['.', '.']

/-- Parts of a text between separators; a text without any is one part. -/
def segmentsBy (isSeparator : Char → Bool) : List Char → List Segment
  | [] => [[]]
  | c :: rest =>
    if isSeparator c then [] :: segmentsBy isSeparator rest
    else
      match segmentsBy isSeparator rest with
      | [] => [[c]]
      | s :: more => (c :: s) :: more

def segments (cs : List Char) : List Segment := segmentsBy (· == '/') cs

def joined : List Segment → List Char
  | [] => []
  | [s] => s
  | s :: rest => s ++ '/' :: joined rest

@[simp] theorem joined_nil : joined [] = [] := rfl

@[simp] theorem joined_singleton (s : Segment) : joined [s] = s := rfl

theorem joined_cons_cons (s t : Segment) (rest : List Segment) :
    joined (s :: t :: rest) = s ++ '/' :: joined (t :: rest) := rfl

theorem segmentsBy_ne_nil (p : Char → Bool) (cs : List Char) : segmentsBy p cs ≠ [] := by
  cases cs with
  | nil => simp [segmentsBy]
  | cons c rest =>
    by_cases h : p c
    · simp [segmentsBy, h]
    · simp only [segmentsBy, h]
      cases segmentsBy p rest <;> simp

/-- Cutting a text and joining gives it back. -/
theorem joined_segments (cs : List Char) : joined (segments cs) = cs := by
  induction cs with
  | nil => rfl
  | cons c rest ih =>
    simp only [segments] at ih ⊢
    cases hs : segmentsBy (· == '/') rest with
    | nil => exact absurd hs (segmentsBy_ne_nil _ _)
    | cons s more =>
      rw [hs] at ih
      by_cases h : c = '/'
      · subst h
        simp [segmentsBy, hs, joined_cons_cons, ih]
      · cases more with
        | nil => simpa [segmentsBy, hs, h] using ih
        | cons t more =>
          rw [joined_cons_cons] at ih
          simp [segmentsBy, hs, h, joined_cons_cons, ih]

theorem segments_append_slash (s : Segment) (hs : '/' ∉ s) (cs : List Char) :
    segments (s ++ '/' :: cs) = s :: segments cs := by
  induction s with
  | nil => simp [segments, segmentsBy]
  | cons c s ih =>
    have hc : c ≠ '/' := by
      intro h
      simp [h] at hs
    have h := ih (by
      intro h
      exact hs (List.mem_cons_of_mem _ h))
    simp only [segments] at h ⊢
    simp [segmentsBy, hc, h]

theorem segments_of_not_mem (s : Segment) (hs : '/' ∉ s) : segments s = [s] := by
  induction s with
  | nil => rfl
  | cons c s ih =>
    have hc : c ≠ '/' := by
      intro h
      simp [h] at hs
    have h := ih (by
      intro h
      exact hs (List.mem_cons_of_mem _ h))
    simp only [segments] at h ⊢
    simp [segmentsBy, hc, h]

/-- Joining segments without separators and cutting again gives them back. -/
theorem segments_joined (ss : List Segment) (hne : ss ≠ []) (h : ∀ s ∈ ss, '/' ∉ s) :
    segments (joined ss) = ss := by
  induction ss with
  | nil => exact absurd rfl hne
  | cons s rest ih =>
    have hs := h s (by simp)
    cases rest with
    | nil => exact segments_of_not_mem s hs
    | cons t rest =>
      rw [joined_cons_cons, segments_append_slash s hs,
        ih (by simp) fun u hu => h u (List.mem_cons_of_mem _ hu)]

/-- Where a path starts. -/
inductive Anchor
  | here
  | root
  | twinRoot
  deriving DecidableEq

def Anchor.text : Anchor → List Char
  | .here => []
  | .root => ['/']
  | .twinRoot => ['/', '/']

def anchorOf : List Char → Anchor
  -- Two slashes are a root of their own, but more than two are as good as one.
  | '/' :: '/' :: '/' :: _ => .root
  | '/' :: '/' :: _ => .twinRoot
  | '/' :: _ => .root
  | _ => .here

def isAbsolute (cs : List Char) : Bool := ['/'].isPrefixOf cs

/-- One more segment on a path whose last segment is first in the list: empty and
dot segments are nothing, a parent segment takes back the last one, above a root
there is nothing, and otherwise it stays. -/
def climb (anchor : Anchor) (path : List Segment) (s : Segment) : List Segment :=
  if s = [] ∨ s = dot then path
  else if s ≠ dotDot then s :: path
  else
    match path with
    -- A path from here may begin with parent segments, and then they pile up.
    | [] => if anchor = .here then [dotDot] else []
    | last :: rest => if last = dotDot then dotDot :: path else rest

/-- Segments without redundant ones, in order. -/
def collapse (anchor : Anchor) (ss : List Segment) : List Segment :=
  (ss.foldl (climb anchor) []).reverse

end Path

/-- A path in normal form: its start and its segments. -/
structure Path where
  anchor : Path.Anchor
  names : List Segment
  deriving DecidableEq

namespace Path

/-- The meaning of a text. -/
def read (cs : List Char) : Path :=
  ⟨anchorOf cs, collapse (anchorOf cs) (segments cs)⟩

/-- The text of a path; a path that goes nowhere is a dot. -/
def text (p : Path) : List Char :=
  if p.anchor = .here ∧ p.names = [] then dot else p.anchor.text ++ joined p.names

/-- A text in normal form. -/
def normalize (cs : List Char) : List Char := (read cs).text

/-- The second path seen from the first; an absolute one is on its own. -/
def append (base cs : List Char) : List Char :=
  if isAbsolute cs then cs
  else if base = [] ∨ base.getLast? = some '/' then base ++ cs
  else base ++ '/' :: cs

/-- A text as an absolute path in normal form, read from a directory. -/
def absolute (directory cs : List Char) : List Char := normalize (append directory cs)

/-- Segments of a text that name something. -/
def properSegments (cs : List Char) : List Segment := (segments cs).filter (· ≠ [])

/-- What is left of two lists after their common part. -/
def withoutCommon : List Segment → List Segment → List Segment × List Segment
  | a :: as, b :: bs => if a = b then withoutCommon as bs else (a :: as, b :: bs)
  | as, bs => (as, bs)

/-- The way from a start to a target, both in normal form: up as often as the start
has segments of its own, then down. -/
def relative (start target : List Char) : List Char :=
  let (ups, downs) := withoutCommon (properSegments start) (properSegments target)
  let way := ups.map (fun _ => dotDot) ++ downs
  if way.isEmpty then dot else joined way

def lastSegment (cs : List Char) : Segment := (segments cs).getLastD []

end Path

end PromptShelf
