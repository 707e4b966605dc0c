/-
Numbers in a rendered text.

A whole number is rendered with the digits of its value and any other finite double with its
shortest decimal, which has places since a decimal without any would be read as a whole number.
Either text is one numeral of a decimal that is read back as the rank of the double
(`plainDecimal`), so the text can be read and no two doubles that differ share one.

* **`depicts_plain`** — how the text of a magnitude looks and which decimal it denotes;
* **`parse?_plain`** — a text is read as the double it was made of, a zero without its sign;
* **`formatValue_number`** — doubles and integers are rendered without loss.
-/
import Mathlib
import PromptShelf.Proofs.Number.Notation
import PromptShelf.Proofs.Number.Shortest
import PromptShelf.Template.Render

namespace PromptShelf.Template

open Binary64 Decimal JsonText

/-- Digits without a superfluous zero in front, and perhaps a point with digits behind it that do
not end with a zero. -/
inductive IsUnsigned : List Char → Prop
  | whole (digits : List Char) (hdigits : IsWhole digits) : IsUnsigned digits
  | places (digits places : List Char) (hdigits : IsWhole digits)
      (hplaces : ∀ c ∈ places, c.isDigit = true)
      (hlast : ∃ c, places.getLast? = some c ∧ c ≠ '0') : IsUnsigned (digits ++ '.' :: places)

/-- A numeral in plain decimal has perhaps a minus, and never an exponent. -/
def IsPlain (text : String) : Prop :=
  ∃ sign ∈ [[], ['-']], ∃ body, IsUnsigned body ∧ text = String.ofList (sign ++ body)

theorem IsUnsigned.isDigit_head {cs : List Char} (h : IsUnsigned cs) :
    ∀ c ∈ cs.head?, c.isDigit = true := by
  have hwhole : ∀ {ds more : List Char}, IsWhole ds →
      ∀ c ∈ (ds ++ more).head?, c.isDigit = true := by
    intro ds more hds c hc
    rw [List.head?_append_of_ne_nil _ hds.ne_nil] at hc
    exact hds.digits c (List.mem_of_mem_head? hc)
  cases h with
  | whole _ hdigits =>
    rw [← List.append_nil cs]
    exact hwhole hdigits
  | places digits places hdigits _ _ => exact hwhole hdigits

theorem IsUnsigned.isPlain {body : List Char} (h : IsUnsigned body) (negative : Bool) :
    IsPlain (String.ofList (if negative then '-' :: body else body)) := by
  cases negative with
  | true => exact ⟨['-'], by decide, body, h, rfl⟩
  | false => exact ⟨[], by decide, body, h, rfl⟩

theorem getLast?_digits {n : Nat} (h : n % 10 ≠ 0) :
    ∃ c, (digits n).getLast? = some c ∧ c ≠ '0' := by
  have hdigit : ∀ d < 10, d ≠ 0 → Nat.digitChar d ≠ '0' := by decide
  refine ⟨Nat.digitChar (n % 10), ?_, hdigit _ (Nat.mod_lt n (by decide)) h⟩
  rw [digits, Nat.toDigits_eq_if (by decide)]
  split
  · next hsmall => rw [Nat.mod_eq_of_lt hsmall, List.getLast?_singleton]
  · rw [List.getLast?_concat]

/-- Positional notation is plain if the decimal has places and its last digit is no zero. -/
theorem isUnsigned_positional {d : Decimal} (h : d.exponent < 0) (hlast : d.coefficient % 10 ≠ 0) :
    IsUnsigned d.positional := by
  have hdigits : ∀ c ∈ digits d.coefficient, c.isDigit = true := isDigit_of_mem_digits
  have hne : digits d.coefficient ≠ [] := Nat.toDigits_ne_nil
  obtain ⟨c, hc, hzero⟩ := getLast?_digits hlast
  rw [positional, if_neg (by omega)]
  split
  · refine .places ['0'] _ (isWhole_singleton rfl)
      (List.forall_mem_append.mpr ⟨isDigit_of_mem_zeros, hdigits⟩) ⟨c, ?_, hzero⟩
    rw [List.getLast?_append_of_ne_nil _ hne, hc]
  · next hpoint =>
    refine .places _ _ ((isWhole_digits _).take (by omega))
      (fun c hc => hdigits c (List.mem_of_mem_drop hc)) ⟨c, ?_, hzero⟩
    rw [List.getLast?_drop, if_neg (by omega), hc]

theorem isDigit_head_general {d : Decimal} (h : d.exponent < 0) (hlast : d.coefficient % 10 ≠ 0) :
    ∀ c ∈ d.general.head?, c.isDigit = true := by
  rw [Decimal.general]
  split
  · have hdigits : ∀ c ∈ digits d.coefficient, c.isDigit = true := isDigit_of_mem_digits
    rw [scientific]
    split
    · next hnil => exact absurd hnil Nat.toDigits_ne_nil
    · next c hds =>
      rintro _ ⟨⟩
      exact hdigits c (hds ▸ List.mem_cons_self)
    · next c rest _ hds =>
      rintro _ ⟨⟩
      exact hdigits c (hds ▸ List.mem_cons_self)
  · rw [if_neg (by omega)]
    exact (isUnsigned_positional h hlast).isDigit_head

/-- The text of a magnitude. -/
def plainBody (r : Nat) : List Char :=
  if units r % unitsPerOne = 0 then digits (units r / unitsPerOne) else (shortest r).positional

/-- The decimal that the text of a magnitude denotes. -/
def plainDecimal (r : Nat) : Decimal :=
  if units r % unitsPerOne = 0 then ⟨units r / unitsPerOne, 0⟩ else shortest r

theorem formatValue_finite (negative : Bool) (r : Fin overflowRank) :
    formatValue (.float (.finite negative r)) =
      .ok (String.ofList
        (if negative && r.val != 0 then '-' :: plainBody r else plainBody r)) := by
  rw [formatValue, plain?]
  simp [plainBody]

variable {r : Nat} (hlt : r < overflowRank)

/-- A text of a magnitude is plain and denotes a decimal that is read as the magnitude, with no more
places than are looked at. -/
structure Depicts (body : List Char) (d : Decimal) (r : Nat) : Prop where
  looks : IsUnsigned body
  reads : Decimal.parse? body = some d
  rank : d.rank = r
  places : -400 ≤ d.exponent
  noZeros : d.exponent ≤ 0

theorem value_whole (h : units r % unitsPerOne = 0) :
    (⟨units r / unitsPerOne, 0⟩ : Decimal).value = size r := by
  rw [value, zpow_zero, mul_one, size]
  exact Nat.cast_div (Nat.dvd_of_mod_eq_zero h) unitsPerOne_pos.ne'

theorem depicts_whole (h : units r % unitsPerOne = 0) :
    Depicts (digits (units r / unitsPerOne)) ⟨units r / unitsPerOne, 0⟩ r where
  looks := .whole _ (isWhole_digits _)
  reads := parse?_digits _
  rank := Nat.le_antisymm (rank_le_of_value_le (value_whole h).le)
    (le_rank_of_size_le (value_whole h).ge)
  places := by simp
  noZeros := le_rfl

theorem ne_zero_of_fraction (h : units r % unitsPerOne ≠ 0) : r ≠ 0 := by
  rintro rfl
  simp at h

include hlt

theorem depicts_fraction (h : units r % unitsPerOne ≠ 0) :
    Depicts (shortest r).positional (shortest r) r := by
  have hr := ne_zero_of_fraction h
  have hrank := rank_shortest hr hlt
  have hplaces := exponent_neg hrank h
  exact ⟨isUnsigned_positional hplaces (coefficient_shortest_mod_ten hr hlt),
    parse?_positional hplaces, hrank, le_exponent_shortest hr hlt, hplaces.le⟩

theorem depicts_plain : Depicts (plainBody r) (plainDecimal r) r := by
  by_cases h : units r % unitsPerOne = 0
  · rw [plainBody, plainDecimal, if_pos h, if_pos h]
    exact depicts_whole h
  · rw [plainBody, plainDecimal, if_neg h, if_neg h]
    exact depicts_fraction hlt h

theorem denoted?_plain (negative : Bool) :
    denoted? (String.ofList (if negative then '-' :: plainBody r else plainBody r)) =
      some (if negative then -(plainDecimal r).value else (plainDecimal r).value) := by
  have htext := depicts_plain hlt
  rw [denoted?_signed htext.looks.isDigit_head, htext.reads, Option.map_some]

theorem parse?_plain (negative : Bool) :
    Binary64.parse? (String.ofList (if negative then '-' :: plainBody r else plainBody r)) =
      some (.finite negative ⟨r, hlt⟩) := by
  have htext := depicts_plain hlt
  have hhigh : (plainDecimal r).exponent ≤ 400 := le_trans htext.noZeros (by decide)
  have hread : ofDecimal negative (plainDecimal r).coefficient (plainDecimal r).exponent =
      .finite negative ⟨r, hlt⟩ := ofDecimal_eq_finite negative htext.rank htext.places hhigh
  rw [parse?_signed htext.looks.isDigit_head, htext.reads, Option.map_some, hread]

/-- The general notation denotes the shortest decimal. -/
theorem denoted?_general (negative : Bool) (h : units r % unitsPerOne ≠ 0) :
    denoted? (Binary64.finite negative ⟨r, hlt⟩).general =
      some (if negative then -(shortest r).value else (shortest r).value) := by
  have hr := ne_zero_of_fraction h
  have hplaces := exponent_neg (rank_shortest hr hlt) h
  have hhead := isDigit_head_general hplaces (coefficient_shortest_mod_ten hr hlt)
  rw [Binary64.general, if_neg hr, denoted?_signed hhead, parse?_general hplaces, Option.map_some]

omit hlt

theorem place?_finite (s : Bool) (r : Fin overflowRank) :
    (Binary64.finite s r).place? = some (if s then -(r.val : Int) else r.val) := by
  cases s with
  | true => rfl
  | false => rfl

/-- The sign matters except for zero. -/
theorem sameNumber_iff {s t : Bool} {q r : Fin overflowRank} :
    (Binary64.finite s q).sameNumber (.finite t r) = true ↔
      q = r ∧ (s && q.val != 0) = (t && r.val != 0) := by
  rw [sameNumber, place?_finite, place?_finite, Fin.ext_iff]
  cases s with
  | true =>
    cases t with
    | true => simpa using fun h : q.val = r.val => by rw [h]
    | false =>
      have hsides : -(q.val : Int) = r.val ↔ q.val = r.val ∧ q.val = 0 := by omega
      simpa using hsides
  | false =>
    cases t with
    | true =>
      have hsides : (q.val : Int) = -r.val ↔ q.val = r.val ∧ r.val = 0 := by omega
      simpa using hsides
    | false => simp

theorem formatValue_int (n : Int) : formatValue (.int n) = .ok (toString n) := by
  rw [formatValue, Decimal.ofInt]
  congr 1
  cases n with
  | ofNat m => rfl
  | negSucc m =>
    have htext : toString (Int.negSucc m) = "-" ++ toString (m + 1) := rfl
    rw [if_pos (Int.negSucc_lt_zero m), htext, Nat.toString_eq_ofList_toDigits,
      ← List.singleton_append, String.ofList_append]
    rfl

theorem isPlain_int (n : Int) : IsPlain (toString n) := by
  have htext := Except.ok.inj (formatValue_int n)
  rw [← htext, Decimal.ofInt]
  split
  · exact ⟨['-'], by decide, _, .whole _ (isWhole_digits n.natAbs), rfl⟩
  · exact ⟨[], by decide, _, .whole _ (isWhole_digits n.natAbs), rfl⟩

/-- Numbers are rendered in plain decimal without loss.  A whole double is rendered with a numeral
of its value, any other finite one with a numeral of the number that its general notation denotes,
the shortest decimal that is read as it.  The text is read as the double and is the text of no
other one.  An integer is rendered with its decimal numeral. -/
theorem formatValue_number (negative : Bool) (r : Fin overflowRank) (n : Int) :
    (∃ text, formatValue (.float (.finite negative r)) = .ok text ∧ IsPlain text ∧
      ((Binary64.finite negative r).isInteger = true →
        denoted? text = (Binary64.finite negative r).value?) ∧
      ((Binary64.finite negative r).isZero = true → text = "0") ∧
      ((Binary64.finite negative r).isInteger = false →
        denoted? text = denoted? (Binary64.finite negative r).general ∧
        ∃ d, IsShortest d r ∧ denoted? text = some (if negative then -d.value else d.value)) ∧
      (∃ z, Binary64.parse? text = some z ∧
        z.sameNumber (.finite negative r) = true) ∧
      ∀ y, formatValue (.float y) = .ok text → (Binary64.finite negative r).sameNumber y = true) ∧
    formatValue (.int n) = .ok (toString n) ∧ IsPlain (toString n) ∧
      (toString n).toInt? = some n := by
  refine ⟨⟨_, formatValue_finite negative r, ?_, ?_, ?_, ?_, ?_, ?_⟩, formatValue_int n,
    isPlain_int n, Int.toInt?_repr n⟩
  · exact (depicts_plain r.isLt).looks.isPlain _
  · intro hwhole
    have h : units r % unitsPerOne = 0 := by simpa [isInteger] using hwhole
    have hdecimal : plainDecimal r.val = ⟨units r / unitsPerOne, 0⟩ := if_pos h
    rw [denoted?_plain r.isLt, hdecimal, value_whole h, value?]
    by_cases hr : r.val = 0
    · simp [hr]
    · simp [hr]
  · intro hzero
    have hr : r.val = 0 := by simpa [isZero] using hzero
    have hbody : plainBody r.val = ['0'] := by
      rw [hr, plainBody, units_zero, Nat.zero_mod, if_pos rfl, Nat.zero_div]
      rfl
    rw [hbody, hr, bne_self_eq_false, Bool.and_false]
    rfl
  · intro hfraction
    have h : units r % unitsPerOne ≠ 0 := by simpa [isInteger] using hfraction
    have hr := ne_zero_of_fraction h
    have hsign : (negative && r.val != 0) = negative := by simp [hr]
    have hdecimal : plainDecimal r.val = shortest r.val := if_neg h
    rw [denoted?_plain r.isLt, hdecimal, hsign, denoted?_general r.isLt negative h]
    exact ⟨rfl, _, isShortest_shortest hr r.isLt, rfl⟩
  · refine ⟨_, parse?_plain r.isLt _, ?_⟩
    rw [sameNumber_iff]
    exact ⟨rfl, by rw [Bool.and_assoc, Bool.and_self]⟩
  · intro y hy
    cases y with
    | finite t q =>
      have hsame := Except.ok.inj ((formatValue_finite t q).symm.trans hy)
      have hread := congrArg Binary64.parse? hsame
      rw [parse?_plain q.isLt, parse?_plain r.isLt] at hread
      obtain ⟨hsign, hrank⟩ := Binary64.finite.inj (Option.some.inj hread)
      exact sameNumber_iff.mpr ⟨hrank.symm, hsign.symm⟩
    | nan => simp [formatValue, plain?] at hy
    | infinity t => simp [formatValue, plain?] at hy

/-- The magnitude 0.0000025. -/
def micro : Fin overflowRank := ⟨4523013384356194545, by decide⟩

theorem formatValue_number_micro :
    formatValue (.float (.finite true micro)) = .ok "-0.0000025" ∧
      (Binary64.finite true micro).isInteger = false ∧
      (Binary64.finite true micro).general = "-2.5e-06" ∧
      denoted? "-0.0000025" = denoted? "-2.5e-06" ∧
      (∃ z, Binary64.parse? "-0.0000025" = some z ∧ z.sameNumber (.finite true micro) = true) ∧
      formatValue (.int (-3)) = .ok "-3" := by
  have htext : formatValue (.float (.finite true micro)) = .ok "-0.0000025" := by decide +kernel
  have hgeneral : (Binary64.finite true micro).general = "-2.5e-06" := by decide +kernel
  have hfraction : (Binary64.finite true micro).isInteger = false := by decide +kernel
  obtain ⟨⟨text, hformat, _, _, _, hdenoted, hread, _⟩, hint, _⟩ :=
    formatValue_number true micro (-3)
  have hsame : text = "-0.0000025" := Except.ok.inj (hformat.symm.trans htext)
  rw [hsame] at hdenoted hread
  rw [← hgeneral]
  exact ⟨htext, hfraction, rfl, (hdenoted hfraction).1, hread, hint⟩

end PromptShelf.Template
