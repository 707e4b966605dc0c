/-
Prompts hold their arguments as they are.

A prompt is the layout of its template with the texts of its arguments in the slots.  Whatever an
argument holds, braces, names of placeholders or a whole template, none of it is read as a
placeholder, and none of the template's own placeholders is left.

* **`render_layout`** — rendering a loaded layout fills its slots;
* **`iteration_eq`** — the part about an earlier analysis is its layout, filled;
* **`build_verbatim`** — each prompt is its layout, filled.
-/
import PromptShelf.Proofs.Prompt.Layouts
import PromptShelf.Proofs.Prompt.Shelf
import PromptShelf.Prompt.Build

namespace PromptShelf.Prompt

open PromptShelf.Template

/-! ### What is asked, and what is expected -/

/-- Arguments of the prompts: texts, numbers, a flag, and lists of texts that may be missing. -/
inductive Arguments
  | analyze (summary initialConcept : String) (previousAnalysis : Option String)
  | reflect (summary analysis : String)
  | thought (text : String) (number total : Int) (stage : String) (nextNeeded : Bool)
      (tags axioms assumptions : Option (List String))
  | research (topic previousState currentState nextSteps : String)

def textOrNone (text : Option String) : Value := text.elim .none .text

def listOf (items : Option (List String)) : Value :=
  items.elim .none fun items => .list (items.map .text)

/-- Texts by the names of the slots they go into. -/
def textOf (texts : List (String × String)) (name : String) : String :=
  (texts.lookup name).getD ""

/-- The part about an earlier analysis, if that holds more than blanks. -/
def earlierText : Option String → String
  | none => ""
  | some previous =>
    if previous.toList.all Text.isBlank then ""
    else iterationLayout.filled (textOf [("previousAnalysis", previous)])

/-- Texts with commas between them. -/
def commaText (items : Option (List String)) : String :=
  if items.getD [] = [] then "none" else String.intercalate ", " (items.getD [])

/-- Texts on lines of their own, numbered from one. -/
def numberedText (items : Option (List String)) : String :=
  if items.getD [] = [] then "none"
  else String.intercalate "\n"
    ((items.getD []).mapIdx fun i item => toString (i + 1) ++ ". " ++ item)

namespace Arguments

def request : Arguments → Request
  | .analyze summary initialConcept previousAnalysis =>
    .analyze (.text summary) (.text initialConcept) (textOrNone previousAnalysis)
  | .reflect summary analysis => .reflect (.text summary) (.text analysis)
  | .thought text number total stage nextNeeded tags axioms assumptions =>
    .thought (.text text) (.int number) (.int total) (.text stage) (.bool nextNeeded)
      (listOf tags) (listOf axioms) (listOf assumptions)
  | .research topic previousState currentState nextSteps =>
    .research (.text topic) (.text previousState) (.text currentState) (.text nextSteps)

/-- Name of the template. -/
def path : Arguments → String
  | .analyze .. => "analyzeTask/index.md"
  | .reflect .. => "reflectTask/index.md"
  | .thought .. => "processThought/index.md"
  | .research .. => "researchMode/index.md"

def layout : Arguments → Layout
  | .analyze .. => analyzeLayout
  | .reflect .. => reflectLayout
  | .thought .. => thoughtLayout
  | .research .. => researchLayout

/-- The texts of the arguments in the order of the template. -/
def texts : Arguments → List (String × String)
  | .analyze summary initialConcept previousAnalysis =>
    [("summary", summary), ("initialConcept", initialConcept),
      ("iterationPrompt", earlierText previousAnalysis)]
  | .reflect summary analysis => [("summary", summary), ("analysis", analysis)]
  | .thought text number total stage nextNeeded tags axioms assumptions =>
    [("thoughtNumber", toString number), ("totalThoughts", toString total), ("stage", stage),
      ("thought", text), ("tags", commaText tags), ("axioms", numberedText axioms),
      ("assumptions", numberedText assumptions),
      ("nextThoughtNeeded", if nextNeeded then "yes" else "no")]
  | .research topic previousState currentState nextSteps =>
    [("topic", topic), ("previousState", previousState), ("currentState", currentState),
      ("nextSteps", nextSteps)]

/-- What the template is rendered with. -/
def fields : Arguments → List (String × Value)
  | .analyze summary initialConcept previousAnalysis =>
    [("summary", .text summary), ("initialConcept", .text initialConcept),
      ("iterationPrompt", .text (earlierText previousAnalysis))]
  | .reflect summary analysis => [("summary", .text summary), ("analysis", .text analysis)]
  | .thought text number total stage nextNeeded tags axioms assumptions =>
    [("thought", .text text), ("thoughtNumber", .int number), ("totalThoughts", .int total),
      ("stage", .text stage), ("nextThoughtNeeded", .text (if nextNeeded then "yes" else "no")),
      ("tags", .text (commaText tags)), ("axioms", .text (numberedText axioms)),
      ("assumptions", .text (numberedText assumptions))]
  | .research topic previousState currentState nextSteps =>
    [("topic", .text topic), ("previousState", .text previousState),
      ("currentState", .text currentState), ("nextSteps", .text nextSteps)]

/-- The prompt: the literal texts of the template with the arguments between them. -/
def prompt (a : Arguments) : String := a.layout.filled (textOf a.texts)

theorem slots_layout (a : Arguments) : a.layout.slots = a.texts.map Prod.fst := by
  cases a <;> rfl

/-- The names of the texts are all different. -/
theorem textOf_texts (a : Arguments) {t : String × String} (ht : t ∈ a.texts) :
    textOf a.texts t.1 = t.2 := by
  have hall : ∀ t ∈ a.texts, textOf a.texts t.1 = t.2 := by
    cases a <;> simp [texts, textOf, List.lookup_cons]
  exact hall t ht

theorem plain_layout (a : Arguments) : a.layout.Plain := by
  obtain ⟨hanalyze, -, hreflect, hthought, hresearch⟩ := plain_layouts
  cases a with
  | analyze => exact hanalyze
  | reflect => exact hreflect
  | thought => exact hthought
  | research => exact hresearch

theorem mem_files (a : Arguments) : (a.path, a.layout.template) ∈ Bundled.files := by
  obtain ⟨hanalyze, -, hreflect, hthought, hresearch⟩ := template_layouts
  cases a with
  | analyze => simp [path, layout, hanalyze, Bundled.files]
  | reflect => simp [path, layout, hreflect, Bundled.files]
  | thought => simp [path, layout, hthought, Bundled.files]
  | research => simp [path, layout, hresearch, Bundled.files]

end Arguments

/-! ### Numbers and lists in words -/

theorem toString_nat (n : Nat) : toString n = String.ofList (Decimal.digits n) := rfl

theorem toString_int (n : Int) : toString n = String.ofList (Decimal.ofInt n) := by
  cases n with
  | ofNat n => rfl
  | negSucc n =>
    rw [Decimal.ofInt, if_pos (Int.negSucc_lt_zero n), Int.natAbs_negSucc, String.ofList_cons]
    rfl

theorem numberedLines_texts (first : Nat) (items : List String) :
    numberedLines first (items.map .text) =
      items.mapIdx fun i item => toString (first + i) ++ ". " ++ item := by
  induction items generalizing first with
  | nil => rfl
  | cons item items ih =>
    rw [List.map_cons, numberedLines, ih, List.mapIdx_cons]
    simp only [Nat.add_zero, toString_nat, Value.display_text, Nat.add_assoc, Nat.add_comm 1]

theorem textsFrom_texts (index : Nat) (items : List String) :
    textsFrom index (items.map .text) = .ok items := by
  induction items generalizing index with
  | nil => rfl
  | cons item items ih =>
    rw [List.map_cons, textsFrom, ih]
    rfl

theorem isTrue_listOf (items : Option (List String)) :
    (listOf items).isTrue = !(items.getD []).isEmpty := by
  cases items with
  | none => rfl
  | some items => simp [listOf, Value.isTrue]

theorem joinedList_listOf (items : Option (List String)) :
    joinedList (listOf items) = .ok (commaText items) := by
  rw [joinedList, isTrue_listOf, commaText]
  cases items with
  | none => rfl
  | some items =>
    cases items with
    | nil => rfl
    | cons item items =>
      show (do return String.intercalate ", " (← textsFrom 0 ((item :: items).map .text))) = _
      rw [textsFrom_texts]
      rfl

theorem numberedList_listOf (items : Option (List String)) :
    numberedList (listOf items) noneText = .ok (numberedText items) := by
  rw [numberedList, isTrue_listOf, numberedText]
  cases items with
  | none => rfl
  | some items =>
    cases items with
    | nil => rfl
    | cons item items =>
      show Except.ok (String.intercalate "\n" (numberedLines 1 ((item :: items).map .text))) = _
      rw [numberedLines_texts]
      simp only [Nat.add_comm 1]
      rfl

namespace Arguments

theorem braceFree_fields (a : Arguments) : ∀ f ∈ a.fields, BraceFree f.1.toList := by
  cases a
  all_goals
    simp only [fields, List.forall_mem_cons]
    decide

/-- The values of the context are written as the texts of the arguments. -/
theorem formatValue_fields (a : Arguments) {t : String × String} (ht : t ∈ a.texts) :
    ∃ v, a.fields.lookup t.1 = some v ∧ formatValue v = .ok t.2 := by
  have hall : ∀ t ∈ a.texts, ∃ v, a.fields.lookup t.1 = some v ∧ formatValue v = .ok t.2 := by
    cases a
    all_goals
      simp only [texts, List.forall_mem_cons, List.not_mem_nil, false_implies, implies_true,
        and_true, toString_int]
      repeat' apply And.intro
    all_goals exact ⟨_, rfl, rfl⟩
  exact hall t ht

end Arguments

/-! ### Rendering a layout that is loaded -/

section Rendering

variable {fields : List (String × Value)}

theorem find?_contextOf (fields : List (String × Value)) (name : String) :
    Context.find? (contextOf fields) name.toList = fields.lookup name := by
  induction fields with
  | nil => rfl
  | cons f fields ih =>
    obtain ⟨name', v⟩ := f
    rw [contextOf, List.map_cons, Context.find?, List.findSome?_cons, List.lookup_cons]
    by_cases h : name = name'
    · subst h
      simp
    · have hne : name'.toList ≠ name.toList := fun heq => h (String.toList_inj.mp heq).symm
      simp only [hne, if_false, beq_false_of_ne h]
      exact ih

theorem exists_of_names {key : Key} (h : Context.Names (contextOf fields) key) :
    ∃ f ∈ fields, f.1.toList = key := by
  obtain ⟨-, v, hmem⟩ := h
  obtain ⟨f, hf, heq⟩ := List.mem_map.mp hmem
  have hname : f.1 = String.ofList key := Value.text.inj (Prod.ext_iff.mp heq).1
  exact ⟨f, hf, by rw [hname, String.toList_ofList]⟩

variable {l : Loader} {read : String → Answer} {s : Loader.State} {texts : List (String × String)}

theorem render_layout (hstocked : l.Stocked read texts) (hkeys : l.KeysDiffer)
    (hs : Loader.Ready texts s) {path : String} {layout : Layout} {values : String → String}
    (hmem : (path, layout.template) ∈ texts) (hplain : layout.Plain)
    (hnames : ∀ f ∈ fields, BraceFree f.1.toList)
    (hvalues : ∀ name ∈ layout.slots, ∃ v, fields.lookup name = some v ∧
      formatValue v = .ok (values name)) :
    (render l read s path (contextOf fields)).2 = .returned (layout.filled values) ∧
      Loader.Ready texts (render l read s path (contextOf fields)).1 := by
  obtain ⟨hloaded, hready⟩ := hstocked.load hkeys hs hmem
  have hrendered : Template.render layout.template (contextOf fields) =
      .ok (layout.filled values) := by
    refine Layout.render_template ?_ hplain ?_
    · intro key hkey
      obtain ⟨f, hf, rfl⟩ := exists_of_names hkey
      exact hnames f hf
    · intro name hname
      rw [find?_contextOf]
      exact hvalues name hname
  generalize hload : l.load read s path = loaded at hloaded hready
  obtain ⟨t, ending⟩ := loaded
  obtain rfl : ending = .returned layout.template := hloaded
  have hrender : render l read s path (contextOf fields) = (t, .returned (layout.filled values)) := by
    simp only [render, hload, hrendered]
  rw [hrender]
  exact ⟨rfl, hready⟩

end Rendering

/-! ### The four prompts -/

theorem previous?_text (previous : String) :
    previous? (.text previous) =
      .ok (if previous.toList.all Text.isBlank then none else some (.text previous)) := by
  rw [previous?]
  by_cases hempty : previous = ""
  · subst hempty
    rfl
  · rw [if_neg (by simpa [Value.isTrue] using hempty)]
    rfl

section Build

variable {l : Loader} {directory : String} {extensions : Option (List String)} {s : Loader.State}
  (hl : l.resolver = .make directory bundledRoot extensions)
  (hdirectory : Path.isAbsolute directory.toList = true)
  (hextensions : ∀ es, extensions = some es → ".md" ∈ es) (hs : Loader.Ready Bundled.files s)

include hl hdirectory hextensions hs

/-- A bundled layout is loaded and filled. -/
theorem render_bundled {path : String} {layout : Layout} {fields : List (String × Value)}
    {texts : List (String × String)} (hmem : (path, layout.template) ∈ Bundled.files)
    (hplain : layout.Plain) (hnames : ∀ f ∈ fields, BraceFree f.1.toList)
    (hvalues : ∀ name ∈ layout.slots, ∃ v, fields.lookup name = some v ∧
      formatValue v = .ok (textOf texts name)) :
    (render l Bundled.read s path (contextOf fields)).2 =
        .returned (layout.filled (textOf texts)) ∧
      Loader.Ready Bundled.files (render l Bundled.read s path (contextOf fields)).1 :=
  render_layout (Bundled.stocked_bundled hl hdirectory hextensions)
    (Loader.keysDiffer_of_make hl hdirectory) hs hmem hplain hnames hvalues

theorem iteration_eq (previous : Option String) :
    (iteration l Bundled.read s (textOrNone previous)).2 = .returned (earlierText previous) ∧
      Loader.Ready Bundled.files (iteration l Bundled.read s (textOrNone previous)).1 := by
  cases previous with
  | none => exact ⟨rfl, hs⟩
  | some previous =>
    rw [earlierText]
    by_cases h : previous.toList.all Text.isBlank = true
    · have hiteration : iteration l Bundled.read s (textOrNone previous) = (s, .returned "") := by
        rw [iteration, textOrNone, Option.elim_some, previous?_text, if_pos h]
      rw [if_pos h, hiteration]
      exact ⟨rfl, hs⟩
    · have hiteration : iteration l Bundled.read s (textOrNone previous) =
          render l Bundled.read s "analyzeTask/iteration.md"
            (contextOf [("previousAnalysis", .text previous)]) := by
        rw [iteration, textOrNone, Option.elim_some, previous?_text, if_neg h]
        rfl
      rw [if_neg h, hiteration]
      refine render_bundled hl hdirectory hextensions hs ?_ plain_layouts.2.1 ?_ ?_
      · simp [template_layouts.2.1, Bundled.files]
      · simp only [List.forall_mem_singleton]
        decide
      · intro name hname
        have hslots : iterationLayout.slots = ["previousAnalysis"] := rfl
        obtain rfl := List.mem_singleton.mp (hslots ▸ hname)
        exact ⟨_, rfl, rfl⟩

/-- A prompt is rendered from its context, once the part about an earlier analysis is made. -/
theorem build_eq_render (a : Arguments) : ∃ t, Loader.Ready Bundled.files t ∧
    build l Bundled.read s a.request = render l Bundled.read t a.path (contextOf a.fields) := by
  cases a with
  | analyze summary initialConcept previousAnalysis =>
    obtain ⟨hpart, hready⟩ := iteration_eq hl hdirectory hextensions hs previousAnalysis
    generalize hiteration : iteration l Bundled.read s (textOrNone previousAnalysis) = part
      at hpart hready
    obtain ⟨t, ending⟩ := part
    obtain rfl : ending = .returned (earlierText previousAnalysis) := hpart
    refine ⟨t, hready, ?_⟩
    rw [Arguments.request, build, hiteration]
    rfl
  | thought text number total stage nextNeeded tags axioms assumptions =>
    have hcontext : thoughtContext (.text text) (.int number) (.int total) (.text stage)
        (.bool nextNeeded) (listOf tags) (listOf axioms) (listOf assumptions) =
        .ok (contextOf (Arguments.thought text number total stage nextNeeded tags axioms
          assumptions).fields) := by
      rw [thoughtContext, joinedList_listOf, numberedList_listOf, numberedList_listOf]
      rfl
    refine ⟨s, hs, ?_⟩
    rw [Arguments.request, build, hcontext]
    rfl
  | reflect summary analysis => exact ⟨s, hs, rfl⟩
  | research topic previousState currentState nextSteps => exact ⟨s, hs, rfl⟩

/-- Each prompt is the layout of its template with the texts of its arguments in the slots,
whatever they hold: the literal texts of the template hold no brace, so it has no placeholders but
its slots, and they are filled in order.  The part about an earlier analysis is made in the same
way and put in as a text. -/
theorem build_verbatim (a : Arguments) :
    (a.path, a.layout.template) ∈ Bundled.files ∧ a.layout.Plain ∧
      a.layout.slots = a.texts.map Prod.fst ∧
      (build l Bundled.read s a.request).2 = .returned a.prompt ∧
      Loader.Ready Bundled.files (build l Bundled.read s a.request).1 := by
  obtain ⟨t, hready, hbuild⟩ := build_eq_render hl hdirectory hextensions hs a
  refine ⟨a.mem_files, a.plain_layout, a.slots_layout, ?_⟩
  rw [hbuild]
  refine render_bundled hl hdirectory hextensions hready a.mem_files a.plain_layout
    a.braceFree_fields ?_
  intro name hname
  rw [a.slots_layout] at hname
  obtain ⟨text, htext, rfl⟩ := List.mem_map.mp hname
  rw [a.textOf_texts htext]
  exact a.formatValue_fields htext

end Build

/-- Arguments with braces in them, also with names of slots, are put down as they are. -/
theorem build_verbatim_braces :
    let l : Loader := ⟨.make "/" bundledRoot (some [".txt", ".md"]), []⟩
    let a : Arguments := .thought "\x7btags\x7d" (-1) 3 "\x7b\x7b thought \x7d\x7d" true none (some [])
      (some ["\x7bstage\x7d", "\x7d\x7b"])
    l.resolver = .make "/" bundledRoot (some [".txt", ".md"]) ∧
      Path.isAbsolute "/".toList = true ∧
      (∀ es, some [".txt", ".md"] = some es → ".md" ∈ es) ∧
      Loader.Ready Bundled.files (.initial (.zero false)) ∧
      (build l Bundled.read (.initial (.zero false)) a.request).2 = .returned (Bundled.ofLines [
        "## Thought -1/3 (\x7b\x7b thought \x7d\x7d)",
        "",
        "\x7btags\x7d",
        "",
        "**Tags:** none",
        "",
        "**Axioms used:**",
        "none",
        "",
        "**Assumptions challenged:**",
        "1. \x7bstage\x7d\n2. \x7d\x7b",
        "",
        "Next thought needed: yes"]) := by
  intro l a
  have hextensions : ∀ es, some [".txt", ".md"] = some es → ".md" ∈ es := by
    rintro es hes
    obtain rfl := Option.some.inj hes
    simp
  have hready := Loader.Ready.initial Bundled.files (.zero false)
  obtain ⟨-, -, -, hbuild, -⟩ := build_verbatim (l := l) rfl (by decide) hextensions hready a
  refine ⟨rfl, by decide, hextensions, hready, hbuild.trans ?_⟩
  have hnumbered : numberedText (some ["\x7bstage\x7d", "\x7d\x7b"]) =
      "1. \x7bstage\x7d\n2. \x7d\x7b" := by decide
  have hprompt : a.prompt = thoughtLayout.filled (textOf a.texts) := rfl
  rw [hprompt, thoughtLayout, Layout.filled_ofLines]
  simp only [List.map_cons, List.map_nil, Layout.filled_nil, Layout.filled_literal,
    Layout.filled_slot, String.append_empty]
  simp only [a, textOf, Arguments.texts, hnumbered]
  rfl

end PromptShelf.Prompt
