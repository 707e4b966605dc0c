/-
Reading what the notations write.

A decimal that is written in positional or in scientific notation is read as itself, coefficient and
exponent alike, as long as it has places: the zeros in front of its digits add nothing to the
coefficient, and the digits behind the point count the exponent.  A double is read from a decimal by
its rank, if the decimal is neither so long nor so small that it is not looked at.

* **`parse?_positional`**, **`parse?_general`** — decimals are read as they are written;
* **`denoted?_signed`**, **`parse?_signed`** — signs are read apart from the rest;
* **`ofDecimal_eq_finite`** — a decimal is the double of its rank.
-/
import Mathlib.Data.List.TakeWhile
import PromptShelf.Proofs.JsonText.Numerals
import PromptShelf.Proofs.Number.Rounding

namespace PromptShelf

namespace Decimal

theorem ofDigits_eq (cs : List Char) : ofDigits cs = Nat.ofDigitChars 10 cs 0 :=
  Nat.ofDigitChars_eq_foldl.symm

theorem ofDigits_digits (n : Nat) : ofDigits (digits n) = n := by
  rw [ofDigits_eq, digits, Nat.ofDigitChars_toDigits (by decide) (by decide)]

/-- Zeros in front add nothing. -/
theorem ofDigits_zeros_append (k : Nat) (cs : List Char) :
    ofDigits (List.replicate k '0' ++ cs) = ofDigits cs := by
  rw [ofDigits_eq, ofDigits_eq, Nat.ofDigitChars_append, Nat.ofDigitChars_replicate_zero,
    Nat.mul_zero]

variable {whole places rest power : List Char}

theorem splitDigits_append (hdigits : ∀ c ∈ whole, c.isDigit = true)
    (hrest : ∀ c ∈ rest.head?, c.isDigit = false) :
    splitDigits (whole ++ rest) = (whole, rest) := by
  rw [splitDigits, List.takeWhile_append_of_pos hdigits, List.dropWhile_append_of_pos hdigits]
  cases rest with
  | nil => simp
  | cons c rest =>
    have hc := hrest c rfl
    simp [hc]

theorem parse?_whole (hdigits : ∀ c ∈ whole, c.isDigit = true) (hne : whole ≠ [])
    (hpower : ∀ c ∈ power.head?, c.isDigit = false) (hpoint : power.head? ≠ some '.') :
    parse? (whole ++ power) = (parseExponent? power).map fun e => ⟨ofDigits whole, e⟩ := by
  rw [parse?, splitDigits_append hdigits hpower]
  simp only
  split
  · exact absurd rfl hpoint
  · simp [hne]

theorem parse?_digits (n : Nat) : parse? (digits n) = some ⟨n, 0⟩ := by
  rw [← List.append_nil (digits n), parse?_whole isDigit_of_mem_digits Nat.toDigits_ne_nil
    (by simp) (by simp), parseExponent?, Option.map_some, ofDigits_digits]

theorem parse?_point (hdigits : ∀ c ∈ whole, c.isDigit = true) (hne : whole ≠ [])
    (hplaces : ∀ c ∈ places, c.isDigit = true) (hpower : ∀ c ∈ power.head?, c.isDigit = false) :
    parse? (whole ++ '.' :: (places ++ power)) =
      (parseExponent? power).map fun e => ⟨ofDigits (whole ++ places), e - places.length⟩ := by
  have hpoint : ∀ c ∈ ('.' :: (places ++ power)).head?, c.isDigit = false := by
    rintro c ⟨⟩
    rfl
  rw [parse?, splitDigits_append hdigits hpoint]
  simp only [splitDigits_append hplaces hpower]
  simp [hne]

theorem parseExponent?_exponentText (e : Int) : parseExponent? (exponentText e) = some e := by
  have hread : ∀ ds : List Char, ds ≠ [] → (∀ c ∈ ds, c.isDigit = true) →
      ofDigits ds = e.natAbs →
      parseExponent? ('e' :: (if e < 0 then '-' else '+') :: ds) = some e := by
    intro ds hne hdigits hvalue
    have hgood : ¬ (ds.isEmpty ∨ ds.any (!·.isDigit)) := by
      simpa [hne] using hdigits
    by_cases hneg : e < 0
    · rw [if_pos hneg, parseExponent?, if_neg (by decide), if_neg hgood, if_pos rfl, hvalue]
      congr 1
      omega
    · rw [if_neg hneg, parseExponent?, if_neg (by decide), if_neg hgood, if_neg (by decide), hvalue]
      congr 1
      omega
  rw [exponentText]
  by_cases hshort : (digits e.natAbs).length < 2
  · rw [if_pos hshort]
    refine hread _ (List.cons_ne_nil _ _)
      (List.forall_mem_cons.mpr ⟨rfl, isDigit_of_mem_digits⟩) ?_
    exact (ofDigits_zeros_append 1 _).trans (ofDigits_digits _)
  · rw [if_neg hshort]
    exact hread _ Nat.toDigits_ne_nil isDigit_of_mem_digits (ofDigits_digits _)

/-- A decimal with places is read as it is written. -/
theorem parse?_positional {d : Decimal} (h : d.exponent < 0) : parse? d.positional = some d := by
  have hdigits : ∀ c ∈ digits d.coefficient, c.isDigit = true := isDigit_of_mem_digits
  -- All digits but those that count the exponent stand before the point.
  have hread : ∀ whole places : List Char, whole ≠ [] → (∀ c ∈ whole, c.isDigit = true) →
      (∀ c ∈ places, c.isDigit = true) → ofDigits (whole ++ places) = d.coefficient →
      (places.length : Int) = -d.exponent → parse? (whole ++ '.' :: places) = some d := by
    intro whole places hne hwhole hplaces hvalue hlength
    rw [← List.append_nil places, parse?_point hwhole hne hplaces (by simp), parseExponent?,
      Option.map_some, hvalue, hlength, Int.zero_sub, Int.neg_neg]
  rw [positional, if_neg (by omega)]
  split
  · next hpoint =>
    refine hread ['0'] _ (List.cons_ne_nil _ _) (List.forall_mem_singleton.mpr rfl)
      (List.forall_mem_append.mpr ⟨JsonText.isDigit_of_mem_zeros, hdigits⟩) ?_ ?_
    · rw [← List.append_assoc]
      exact (ofDigits_zeros_append (_ + 1) _).trans (ofDigits_digits _)
    · rw [List.length_append, List.length_replicate]
      omega
  · next hpoint =>
    refine hread _ _ ?_ (fun c hc => hdigits c (List.mem_of_mem_take hc))
      (fun c hc => hdigits c (List.mem_of_mem_drop hc)) ?_ ?_
    · rw [ne_eq, List.take_eq_nil_iff]
      rintro (hzero | hnil)
      · omega
      · exact Nat.toDigits_ne_nil hnil
    · rw [List.take_append_drop]
      exact ofDigits_digits _
    · rw [List.length_drop]
      omega

theorem parse?_scientific (d : Decimal) : parse? d.scientific = some d := by
  have hdigits : ∀ c ∈ digits d.coefficient, c.isDigit = true := isDigit_of_mem_digits
  have hvalue := ofDigits_digits d.coefficient
  have hmark : ∀ e, (exponentText e).head? = some 'e' := fun e => rfl
  rw [scientific]
  split
  · next h => exact absurd h Nat.toDigits_ne_nil
  · next c h =>
    rw [h] at hdigits hvalue
    have hpower : ((digits d.coefficient).length : Int) - 1 + d.exponent = d.exponent := by
      rw [h, List.length_singleton]
      omega
    rw [hpower, ← List.singleton_append, parse?_whole hdigits (List.cons_ne_nil _ _)
      (by simp [hmark]) (by simp [hmark]), parseExponent?_exponentText, Option.map_some, hvalue]
  · next c rest hrest h =>
    rw [h, List.forall_mem_cons] at hdigits
    rw [h] at hvalue
    have hpower : ((digits d.coefficient).length : Int) - 1 + d.exponent - rest.length =
        d.exponent := by
      rw [h, List.length_cons]
      omega
    rw [← List.singleton_append, parse?_point (List.forall_mem_singleton.mpr hdigits.1)
      (List.cons_ne_nil _ _) hdigits.2 (by simp [hmark]), parseExponent?_exponentText,
      Option.map_some, List.singleton_append, hvalue, hpower]

theorem parse?_general {d : Decimal} (h : d.exponent < 0) : parse? d.general = some d := by
  rw [general]
  split
  · exact parse?_scientific d
  · rw [if_neg (by omega)]
    exact parse?_positional h

end Decimal

/-- The rational that a numeral denotes. -/
def denoted? (s : String) : Option ℚ :=
  match s.toList with
  | '-' :: cs => (Decimal.parse? cs).map (-·.value)
  | cs => (Decimal.parse? cs).map (·.value)

section Signs

variable {body : List Char} (hbody : ∀ c ∈ body.head?, c.isDigit = true) (negative : Bool)
include hbody

theorem denoted?_signed :
    denoted? (String.ofList (if negative then '-' :: body else body)) =
      (Decimal.parse? body).map fun d => if negative then -d.value else d.value := by
  cases negative with
  | true => simp [denoted?]
  | false =>
    rw [denoted?, String.toList_ofList]
    simp only [Bool.false_eq_true, if_false]
    split
    · exact absurd (hbody '-' rfl) (by decide)
    · rfl

theorem parse?_signed :
    Binary64.parse? (String.ofList (if negative then '-' :: body else body)) =
      (Decimal.parse? body).map fun d => .ofDecimal negative d.coefficient d.exponent := by
  have hnan : body ≠ ['n', 'a', 'n'] := by
    rintro rfl
    exact absurd (hbody 'n' rfl) (by decide)
  have hinf : body ≠ ['i', 'n', 'f'] := by
    rintro rfl
    exact absurd (hbody 'i' rfl) (by decide)
  cases negative with
  | true => simp [Binary64.parse?, hnan, hinf]
  | false =>
    rw [Binary64.parse?, String.toList_ofList, if_neg Bool.false_ne_true]
    simp only
    split
    · exact absurd (hbody '-' rfl) (by decide)
    · exact absurd (hbody '+' rfl) (by decide)
    · simp [hnan, hinf]

end Signs

namespace Binary64

/-- A decimal is read as the double of its rank. -/
theorem ofDecimal_eq_finite {d : Decimal} (negative : Bool) {r : Fin overflowRank}
    (h : d.rank = r) (hlow : -400 ≤ d.exponent) (hhigh : d.exponent ≤ 400) :
    ofDecimal negative d.coefficient d.exponent = .finite negative r := by
  obtain ⟨c, exponent⟩ := d
  rw [ofDecimal]
  split
  · next hzero =>
    subst hzero
    rw [Decimal.rank_zero] at h
    exact congrArg (Binary64.finite negative) (Fin.ext h)
  · have hfinite : roundToRank (c * Nat.pow 10 exponent.toNat * unitsPerOne)
        (Nat.pow 10 (-exponent).toNat) = r := h
    rw [if_neg (by omega), if_neg (by omega), ofUnits, dif_pos (hfinite ▸ r.isLt)]
    exact congrArg (Binary64.finite negative) (Fin.ext hfinite)

end Binary64

end PromptShelf
