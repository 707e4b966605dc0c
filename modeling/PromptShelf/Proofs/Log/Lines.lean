/-
Log lines as JSON texts.

A record whose time, severity, logger and message can be told (`Formats`) has a line exactly if its
four context fields are loggable.  The line then is a single one, and says one object, in which
the record's severity, logger and message stand.

Doubles that are no finite numbers are written, too, with words that the standard does not know.
A line is a text of the standard exactly if none of them is left after redaction.

* **`exists_lineAt_iff`** — which records have a line;
* **`says_lineAt`** — what the line says;
* **`standard_lineAt_iff`** — which lines are texts of the standard;
* **`line_json`** — all of it.
-/
import PromptShelf.Proofs.Log.Loggable

namespace PromptShelf.Log

open JsonText

/-- The record says when it was made, its severity and its logger have names, and its message and
its error can be filled in. -/
structure Formats (detailed : Bool) (seconds milliseconds : Value) (heap : Heap) (r : Record)
    (level logger message : String) : Prop where
  time : ∃ text, timestamp (heap.resolve (r.part "created" seconds))
    (heap.resolve (r.part "msecs" milliseconds)) = .ok text
  level : r.part "levelname" (.text r.severity.name) = .text level
  logger : r.part "name" (.text r.logger) = .text logger
  message : r.fullMessage heap = .ok message
  error : ∃ error, r.errorText detailed heap = .ok error

/-- The four context fields of the record are loggable. -/
def FieldsLoggable (Fits : Binary64 → Prop) (heap : Heap) (r : Record) : Prop :=
  ∀ name ∈ contextFields, ∀ v, r.fields.lookup name = some v → Loggable Fits heap v

/-! ### Records made by a logger -/

/-- No field stands in for a part of a record that a logger does not refuse. -/
theorem part?_of_takenField? {r : Record} (h : r.takenField? = none) {name : String}
    (hown : name ∈ ownFields) : r.part? name = none := by
  rw [Record.part?, List.lookup_eq_none_iff]
  intro field hfield
  have hno := List.find?_eq_none.mp h field.1 (List.mem_map_of_mem hfield)
  rw [bne_iff_ne]
  rintro rfl
  exact hno (List.contains_iff_mem.mpr hown)

/-- A record made by a logger can be formatted if its time and its message can be told. -/
theorem formats_of_logger {detailed : Bool} {seconds milliseconds : Value} {heap : Heap}
    {r : Record} {time message : String} (hfields : r.takenField? = none)
    (htime : timestamp (heap.resolve seconds) (heap.resolve milliseconds) = .ok time)
    (hmessage : r.fullMessage heap = .ok message) :
    Formats detailed seconds milliseconds heap r r.severity.name r.logger message := by
  have hpart : ∀ name ∈ ownFields, ∀ own, r.part name own = own := by
    intro name hown own
    rw [Record.part, part?_of_takenField? hfields hown, Option.getD_none]
  refine ⟨⟨time, ?_⟩, hpart _ (by decide) _, hpart _ (by decide) _, hmessage, ?_⟩
  · rw [hpart _ (by decide), hpart _ (by decide)]
    exact htime
  · refine ⟨r.exception.map (Exception.text detailed), ?_⟩
    rw [Record.errorText, part?_of_takenField? hfields (by decide)]

/-! ### The entry of a record -/

theorem mem_contextOf_iff {heap : Heap} {r : Record} {e : Value × Value} :
    e ∈ contextOf heap r ↔ ∃ name ∈ contextFields, ∃ v, r.fields.lookup name = some v ∧
      (heap.resolve v).isTrue = true ∧ e = (.text name, redact heap v) := by
  rw [contextOf, List.mem_filterMap]
  refine exists_congr fun name => and_congr_right fun _ => ?_
  cases r.fields.lookup name with
  | none => simp
  | some v =>
    cases htrue : (heap.resolve v).isTrue with
    | false => simp [htrue]
    | true =>
      simp only [htrue, if_true]
      constructor
      · intro he
        obtain rfl := Option.some.inj he
        exact ⟨v, rfl, htrue, rfl⟩
      · rintro ⟨_, hv, -, rfl⟩
        obtain rfl := Option.some.inj hv
        rfl

variable {Fits : Binary64 → Prop} {heap : Heap}

/-- Empty values, zeros and nothing hold nothing that could not be written. -/
theorem loggable_of_isTrue_eq_false (hzero : ∀ x : Binary64, x.isZero = true → Fits x) {v : Value}
    (h : (heap.resolve v).isTrue = false) : Loggable Fits heap v := by
  have hplain : ∀ w : Value, w.isTrue = false → Loggable Fits heap w := by
    intro w hw
    cases w with
    | float x =>
      have hx : x.isZero = true := by simpa [Value.isTrue] using hw
      exact loggable_leaf (hzero x hx)
    | list items =>
      obtain rfl : items = [] := by simpa [Value.isTrue] using hw
      exact throughout_list_iff.mpr ⟨trivial, by simp⟩
    | tuple items =>
      obtain rfl : items = [] := by simpa [Value.isTrue] using hw
      exact throughout_tuple_iff.mpr ⟨trivial, by simp⟩
    | dict entries =>
      obtain rfl : entries = [] := by simpa [Value.isTrue] using hw
      exact throughout_dict_iff.mpr ⟨by simp [Presentable], by simp⟩
    | shared p => simp [Value.isTrue] at hw
    | _ => exact loggable_leaf trivial
  cases v with
  | shared p =>
    refine throughout_shared_iff.mpr ⟨trivial, fun w hw => hplain w ?_⟩
    rwa [Heap.resolve, List.getD_eq_getElem?_getD, hw, Option.getD_some] at h
  | _ => exact hplain _ h

theorem writable_contextOf_iff (hzero : ∀ x : Binary64, x.isZero = true → Fits x) {r : Record} :
    (∀ e ∈ contextOf heap r, isKey e.1 = true ∧ Writable Fits heap e.2) ↔
      FieldsLoggable Fits heap r := by
  constructor
  · intro h name hname v hv
    cases htrue : (heap.resolve v).isTrue with
    | false => exact loggable_of_isTrue_eq_false hzero htrue
    | true =>
      exact writable_redact_iff.mp
        (h _ (mem_contextOf_iff.mpr ⟨name, hname, v, hv, htrue, rfl⟩)).2
  · intro h e he
    obtain ⟨name, hname, v, hv, -, rfl⟩ := mem_contextOf_iff.mp he
    exact ⟨rfl, writable_redact_iff.mpr (h name hname v hv)⟩

variable {detailed : Bool} {seconds milliseconds : Value} {r : Record}
  {level logger message : String}

/-- The entry of a record can be written exactly if its context fields are loggable. -/
theorem writable_entry_iff (hzero : ∀ x : Binary64, x.isZero = true → Fits x)
    (h : Formats detailed seconds milliseconds heap r level logger message) (time : String)
    (error : Option String) :
    Writable Fits heap (entry time heap r message error) ↔ FieldsLoggable Fits heap r := by
  have htext : ∀ s, Writable Fits heap (.text s) := fun s => .leaf trivial
  rw [entry.eq_def, writable_dict_iff, h.level, h.logger, List.forall_mem_append, List.forall_mem_append,
    writable_contextOf_iff hzero]
  constructor
  · exact fun hall => hall.1.2
  · refine fun hfields => ⟨⟨?_, hfields⟩, ?_⟩
    · simp [isKey, htext]
    · cases error <;> simp [isKey, htext]

/-- The line is what is written of the entry. -/
theorem lineAt_eq (h : Formats detailed seconds milliseconds heap r level logger message) :
    ∃ time error, lineAt detailed seconds milliseconds heap r =
      (JsonText.write heap (entry time heap r message error)).mapError .writing := by
  obtain ⟨time, htime⟩ := h.time
  obtain ⟨error, herror⟩ := h.error
  refine ⟨time, error, ?_⟩
  simp only [lineAt, htime, line, h.message, herror, Except.mapError, bind, Except.bind]

theorem write_of_lineAt (h : Formats detailed seconds milliseconds heap r level logger message)
    {text : String} (hline : lineAt detailed seconds milliseconds heap r = .ok text) :
    ∃ time error, JsonText.write heap (entry time heap r message error) = .ok text := by
  obtain ⟨time, error, heq⟩ := lineAt_eq h
  rw [heq] at hline
  refine ⟨time, error, ?_⟩
  cases hwrite : JsonText.write heap (entry time heap r message error) with
  | error cause =>
    rw [hwrite] at hline
    cases hline
  | ok text' =>
    rw [hwrite] at hline
    exact congrArg _ (Except.ok.inj hline)

theorem exists_lineAt_iff (h : Formats detailed seconds milliseconds heap r level logger message) :
    (∃ text, lineAt detailed seconds milliseconds heap r = .ok text) ↔
      FieldsLoggable AnyDouble heap r := by
  have hzero : ∀ x : Binary64, x.isZero = true → AnyDouble x := fun _ _ => trivial
  obtain ⟨time, error, heq⟩ := lineAt_eq h
  rw [heq, ← writable_entry_iff hzero h time error, ← exists_tree_iff, write_eq]
  cases tree heap (entry time heap r message error) with
  | error cause => simp [Except.map, Except.mapError]
  | ok j => simp [Except.map, Except.mapError]

theorem standard_lineAt_iff (h : Formats detailed seconds milliseconds heap r level logger message)
    {text : String} (hline : lineAt detailed seconds milliseconds heap r = .ok text) :
    (∃ j, Says IsNumeral text j) ↔ FieldsLoggable (·.isFinite = true) heap r := by
  have hzero : ∀ x : Binary64, x.isZero = true → x.isFinite = true := by
    intro x hx
    cases x with
    | finite negative rank => rw [Binary64.isFinite]
    | _ => exact absurd hx (by simp [Binary64.isZero])
  obtain ⟨time, error, hwrite⟩ := write_of_lineAt h hline
  obtain ⟨j, -, -, -, hstandard⟩ := write_eq_ok hwrite
  rw [hstandard, writable_entry_iff hzero h]

/-! ### What a line says -/

/-- Members have the names of their entries. -/
theorem names_membersOf {f : Nat → Except WriteError Json} {entries : List (Value × Value)}
    {members : List (String × Json)} (h : membersOf f entries = .ok members) {names : List String}
    (hnames : entries.map (·.1) = names.map .text) : members.map (·.1) = names := by
  induction entries generalizing members names with
  | nil =>
    obtain rfl : members = [] := (Except.ok.inj h).symm
    exact (List.map_eq_nil_iff.mp hnames.symm).symm
  | cons e rest ih =>
    obtain ⟨k, v⟩ := e
    obtain ⟨key, j, more, hkey, -, hmore, rfl⟩ := membersOf_cons_eq_ok h
    cases names with
    | nil => exact absurd hnames (by simp)
    | cons name names =>
      obtain ⟨rfl, hrest⟩ := List.cons.inj hnames
      obtain rfl := Except.ok.inj hkey
      rw [List.map_cons, ih hmore hrest, String.ofList_toList]

theorem membersOf_text_cons {f : Nat → Except WriteError Json} {key s : String}
    {rest : List (Value × Value)} {members : List (String × Json)}
    (h : membersOf f ((.text key, .text s) :: rest) = .ok members) :
    ∃ more, membersOf f rest = .ok more ∧ members = (key, .text s) :: more := by
  obtain ⟨chars, j, more, hkey, hvalue, hmore, rfl⟩ := membersOf_cons_eq_ok h
  obtain rfl := Except.ok.inj hkey
  obtain rfl := Except.ok.inj hvalue
  exact ⟨more, hmore, by rw [String.ofList_toList]⟩

/-- The context fields come in their order, each once at most. -/
theorem names_contextOf (heap : Heap) (r : Record) :
    ∃ names : List String, names.Sublist contextFields ∧
      (contextOf heap r).map (·.1) = names.map .text := by
  rw [contextOf]
  induction contextFields with
  | nil => exact ⟨[], .slnil, rfl⟩
  | cons name rest ih =>
    obtain ⟨names, hsub, hnames⟩ := ih
    rw [List.filterMap_cons]
    split
    · exact ⟨names, hsub.cons _, hnames⟩
    · next e he =>
      refine ⟨name :: names, hsub.cons_cons _, ?_⟩
      have hkey : e.1 = .text name := by
        split at he
        · split at he
          · exact (congrArg Prod.fst (Option.some.inj he)).symm
          · cases he
        · cases he
      rw [List.map_cons, List.map_cons, hnames, hkey]

/-- A line says one object, each member of it with a name of its own, in which the severity, the
logger and the message of the record stand. -/
theorem says_lineAt (h : Formats detailed seconds milliseconds heap r level logger message)
    {text : String} (hline : lineAt detailed seconds milliseconds heap r = .ok text) :
    Visible text.toList ∧ ∃ members, (∀ j, Says IsLoose text j ↔ j = .object members) ∧
      members.lookup "level" = some (.text level) ∧
      members.lookup "module" = some (.text logger) ∧
      members.lookup "message" = some (.text message) ∧ (members.map (·.1)).Nodup := by
  obtain ⟨time, error, hwrite⟩ := write_of_lineAt h hline
  obtain ⟨j, htree, hobject, hvisible, -⟩ := write_eq_ok hwrite
  rw [entry.eq_def, tree, treeOf] at htree
  obtain ⟨members, hmembers, rfl⟩ := map_eq_ok htree
  refine ⟨hvisible, members, fun j => ⟨fun hj => hj.unique hobject, fun hj => hj ▸ hobject⟩, ?_⟩
  rw [h.level, h.logger] at hmembers
  have hnodup : (members.map (·.1)).Nodup := by
    obtain ⟨names, hsub, hnames⟩ := names_contextOf heap r
    have hall : (["timestamp", "level", "module", "message"] ++ contextFields ++
        ["exception"]).Nodup := by decide
    have hentry : ∃ last, List.Sublist last ["exception"] ∧ members.map (·.1) =
        ["timestamp", "level", "module", "message"] ++ names ++ last := by
      cases error with
      | none =>
        exact ⟨[], List.nil_sublist _, names_membersOf hmembers (by simp [hnames])⟩
      | some text =>
        exact ⟨["exception"], .refl _, names_membersOf hmembers (by simp [hnames])⟩
    obtain ⟨last, hlast, heq⟩ := hentry
    rw [heq]
    exact hall.sublist (((List.Sublist.refl _).append hsub).append hlast)
  obtain ⟨_, hlevel, rfl⟩ := membersOf_text_cons hmembers
  obtain ⟨_, hlogger, rfl⟩ := membersOf_text_cons hlevel
  obtain ⟨_, hmessage, rfl⟩ := membersOf_text_cons hlogger
  obtain ⟨more, -, rfl⟩ := membersOf_text_cons hmessage
  exact ⟨rfl, rfl, rfl, hnodup⟩

/-- A record that can be formatted has a line exactly if its context fields are loggable.  The line
has no break and says one object, with the severity, the logger and the message of the record; it
is a text of the standard exactly if only finite doubles are in what is taken of the fields. -/
theorem line_json (h : Formats detailed seconds milliseconds heap r level logger message) :
    ((∃ text, lineAt detailed seconds milliseconds heap r = .ok text) ↔
        FieldsLoggable AnyDouble heap r) ∧
      ∀ text, lineAt detailed seconds milliseconds heap r = .ok text →
        (∀ c ∈ text.toList, 32 ≤ c.toNat) ∧
        (∃ members, (∀ j, Says IsLoose text j ↔ j = .object members) ∧
          members.lookup "level" = some (.text level) ∧
          members.lookup "module" = some (.text logger) ∧
          members.lookup "message" = some (.text message) ∧ (members.map (·.1)).Nodup) ∧
        ((∃ j, Says IsNumeral text j) ↔ FieldsLoggable (·.isFinite = true) heap r) := by
  refine ⟨exists_lineAt_iff h, fun text hline => ?_⟩
  obtain ⟨hvisible, hobject⟩ := says_lineAt h hline
  exact ⟨hvisible, hobject, standard_lineAt_iff h hline⟩

theorem fieldsLoggable_of_forall (h : ∀ f ∈ r.fields, Loggable Fits heap f.2) :
    FieldsLoggable Fits heap r := by
  intro name _ v hv
  obtain ⟨front, back, hfields, -⟩ := List.lookup_eq_some_iff.mp hv
  exact h (name, v) (by simp [hfields])

/-- A dictionary that holds itself is written with a mark in its place. -/
theorem line_json_recurring :
    let heap : Heap := [.dict [(.text "self", .shared 0), (.text "pair", .tuple [.none, .int 1])]]
    let r : Record := ⟨"app", Severity.info, "two\nlines", [], [("details", .shared 0)], none⟩
    Formats true (.int 0) (.int 0) heap r "INFO" "app" "two\nlines" ∧
      ∃ text, lineAt true (.int 0) (.int 0) heap r = .ok text ∧ (∀ c ∈ text.toList, 32 ≤ c.toNat) ∧
        (∃ members, (∀ j, Says IsLoose text j ↔ j = .object members) ∧
          members.lookup "level" = some (.text "INFO") ∧
          members.lookup "module" = some (.text "app") ∧
          members.lookup "message" = some (.text "two\nlines") ∧ (members.map (·.1)).Nodup) ∧
        ∃ j, Says IsNumeral text j := by
  intro heap r
  have hformats : Formats true (.int 0) (.int 0) heap r "INFO" "app" "two\nlines" :=
    formats_of_logger (by rfl) (by rfl) (by rfl)
  have hloggable : ∀ Fits : Binary64 → Prop, FieldsLoggable Fits heap r := by
    intro Fits
    have hpair : Settled Fits heap [0] (.tuple [.none, .int 1]) := by
      refine throughout_tuple_iff.mpr ⟨⟨trivial, by simp⟩, ?_⟩
      exact List.forall_mem_cons.mpr
        ⟨settled_leaf trivial, List.forall_mem_singleton.mpr (settled_leaf trivial)⟩
    have hplace : Settled Fits heap [0]
        (.dict [(.text "self", .shared 0), (.text "pair", .tuple [.none, .int 1])]) := by
      refine throughout_dict_iff.mpr ⟨⟨?_, by simp⟩, ?_⟩
      · simp [Presentable, isKey, pathKeys]
      · exact List.forall_mem_cons.mpr ⟨fun _ => settled_shared (.inl (by simp)),
          List.forall_mem_singleton.mpr fun _ => hpair⟩
    refine fieldsLoggable_of_forall (List.forall_mem_singleton.mpr ?_)
    refine loggable_of_settled (settled_shared (.inl (List.mem_singleton_self 0))) ?_
    refine List.forall_mem_singleton.mpr fun w hw => ?_
    obtain rfl := Option.some.inj hw
    exact hplace
  obtain ⟨hexists, hall⟩ := line_json hformats
  obtain ⟨text, hline⟩ := hexists.mpr (hloggable _)
  obtain ⟨hvisible, hobject, hstandard⟩ := hall text hline
  exact ⟨hformats, text, hline, hvisible, hobject, hstandard.mpr (hloggable _)⟩

/-- A key that is none of the standard's and a container inside itself under a key for paths leave a
record without a line, and a double that is no number makes its line no text of the standard. -/
theorem line_lost_or_loose :
    let r (v : Value) : Record := ⟨"app", Severity.info, "hello", [], [("details", v)], none⟩
    (∀ heap v, Formats true (.int 0) (.int 0) heap (r v) "INFO" "app" "hello") ∧
      lineAt true (.int 0) (.int 0) [] (r (.dict [(.tuple [.int 1], .text "x")])) =
        .error (.writing (.badKey "tuple")) ∧
      lineAt true (.int 0) (.int 0) [.dict [(.text "path", .shared 0)]] (r (.shared 0)) =
        .error (.writing .circular) ∧
      ∃ text, lineAt true (.int 0) (.int 0) [] (r (.float .nan)) = .ok text ∧
        ¬ ∃ j, Says IsNumeral text j := by
  intro r
  have hformats : ∀ heap v, Formats true (.int 0) (.int 0) heap (r v) "INFO" "app" "hello" :=
    fun heap v => formats_of_logger (by rfl) (by rfl) (by rfl)
  have hloggable : FieldsLoggable AnyDouble [] (r (.float .nan)) :=
    fieldsLoggable_of_forall (List.forall_mem_singleton.mpr (loggable_leaf trivial))
  obtain ⟨text, hline⟩ := (exists_lineAt_iff (hformats [] (.float .nan))).mpr hloggable
  refine ⟨hformats, rfl, rfl, text, hline, fun hstandard => ?_⟩
  have hfinite := (standard_lineAt_iff (hformats [] (.float .nan)) hline).mp hstandard
  exact absurd (hfinite "details" (by decide) _ rfl _ (.refl _)) (by simp [Presentable, Binary64.isFinite])

end PromptShelf.Log
