/-
The numerals that numbers are written with.

An integer is written with its digits.  A finite double is written from its shortest decimal, in
one of two notations; either is a numeral of the standard as long as the decimal is not zero with
zeros behind it, and the decimal of a double other than zero is not zero.  Doubles that are not
finite have a word each, and none of the words is a numeral.

* **`isNumeral_ofInt`** — integers are written with numerals;
* **`isNumeral_floatChars_iff`** — doubles are written with numerals exactly if they are finite;
* **`isLoose_floatChars`** — the others are written with one of the words.
-/
import Mathlib.Data.List.Basic
import PromptShelf.JsonText.Writing
import PromptShelf.Proofs.JsonText.Grammar

namespace PromptShelf

namespace Decimal

theorem isDigit_of_mem_digits {n : Nat} : ∀ c ∈ digits n, c.isDigit = true :=
  fun _ hc => Nat.isDigit_of_mem_toDigits (by decide) (by decide) hc

/-- The first digit is a zero for zero only. -/
theorem head?_digits {n : Nat} (hn : n ≠ 0) : (digits n).head? ≠ some '0' := by
  have hdigit : ∀ d < 10, d ≠ 0 → Nat.digitChar d ≠ '0' := by decide
  induction n using Nat.strongRecOn with
  | ind n ih =>
    by_cases hsmall : n < 10
    · rw [digits, Nat.toDigits_of_lt_base hsmall]
      simpa using hdigit n hsmall hn
    · rw [digits, Nat.toDigits_of_base_le (by decide) (by omega),
        List.head?_append_of_ne_nil _ Nat.toDigits_ne_nil]
      exact ih (n / 10) (by omega) (by omega)

/-- A multiple of zero is nearest to zero. -/
theorem rank_zero (exponent : Int) : rank ⟨0, exponent⟩ = 0 := by
  simp [rank, Binary64.roundToRank, roundHalfEven]

theorem rank_onGrid? {r c : Nat} {exponent : Int} (h : onGrid? r exponent = some c) :
    rank ⟨c, exponent⟩ = r := by
  -- Both neighbours are given back only after they were read.
  have hread : ∀ near far : Nat, (if rank ⟨near, exponent⟩ = r then some near
      else if rank ⟨far, exponent⟩ = r then some far else none) = some c →
      rank ⟨c, exponent⟩ = r := by
    intro near far h
    split at h
    · next hnear => rwa [Option.some.inj h] at hnear
    · split at h
      · next hfar => rwa [Option.some.inj h] at hfar
      · exact absurd h (by simp)
  exact hread _ _ h

theorem coefficient_exact {r : Nat} (hr : r ≠ 0) : (exact r).coefficient ≠ 0 := by
  have hunits : 0 < Binary64.units r := by
    simpa using Binary64.units_lt_units (Nat.pos_of_ne_zero hr)
  have hpow : ∀ k, Nat.pow 5 k ≠ 0 := fun k => Nat.pos_iff_ne_zero.mp (Nat.pow_pos (by decide))
  rw [exact]
  exact Nat.mul_ne_zero (by omega) (hpow 1074)

theorem coefficient_shortest {r : Nat} (hr : r ≠ 0) : (shortest r).coefficient ≠ 0 := by
  rw [shortest]
  obtain heq | ⟨c, e, hc, heq⟩ := search_cases (onGrid? r) (exact r) 21 (topExponent r)
  · rw [heq]
    exact coefficient_exact hr
  · rw [heq]
    -- What reads back as another rank than zero is not zero.
    rintro rfl
    exact hr ((rank_onGrid? hc).symm.trans (rank_zero e))

end Decimal

namespace JsonText

open Decimal

theorem isWhole_digits (n : Nat) : IsWhole (digits n) where
  ne_nil := Nat.toDigits_ne_nil
  digits := isDigit_of_mem_digits
  no_zero h := by
    by_cases hn : n = 0
    · rw [hn]
      rfl
    · exact absurd h (head?_digits hn)

/-- Digits that do not begin with a zero go on with any others. -/
theorem IsWhole.append {ds more : List Char} (h : IsWhole ds) (hzero : ds.head? ≠ some '0')
    (hmore : ∀ c ∈ more, c.isDigit = true) : IsWhole (ds ++ more) where
  ne_nil := by simp [h.ne_nil]
  digits := List.forall_mem_append.mpr ⟨h.digits, hmore⟩
  no_zero hhead := by
    rw [List.head?_append_of_ne_nil _ h.ne_nil] at hhead
    exact absurd hhead hzero

theorem IsWhole.take {ds : List Char} (h : IsWhole ds) {n : Nat} (hn : n ≠ 0) :
    IsWhole (ds.take n) where
  ne_nil := by simp [h.ne_nil, hn]
  digits c hc := h.digits c (List.mem_of_mem_take hc)
  no_zero hhead := by
    rw [List.head?_take, if_neg hn] at hhead
    rw [h.no_zero hhead, List.take_of_length_le (by simp; omega)]

theorem isWhole_singleton {c : Char} (hc : c.isDigit = true) : IsWhole [c] :=
  ⟨by simp, by simpa using hc, fun h => by simpa using h⟩

theorem isDigit_of_mem_zeros {n : Nat} : ∀ c ∈ List.replicate n '0', c.isDigit = true := by
  intro c hc
  rw [List.eq_of_mem_replicate hc]
  rfl

theorem isFraction_zero : IsFraction ['.', '0'] :=
  .places ['0'] (List.cons_ne_nil _ _) (List.forall_mem_singleton.mpr rfl)

theorem isExponent_exponentText (e : Int) : IsExponent (exponentText e) := by
  have hsign : [if e < 0 then '-' else '+'] ∈ [[], ['+'], ['-']] := by
    split <;> decide
  simp only [exponentText]
  generalize (if e < 0 then '-' else '+') = sign at hsign ⊢
  split
  · exact .power 'e' [sign] ('0' :: digits e.natAbs) (by decide) hsign (List.cons_ne_nil _ _)
      (List.forall_mem_cons.mpr ⟨rfl, isDigit_of_mem_digits⟩)
  · exact .power 'e' [sign] _ (by decide) hsign Nat.toDigits_ne_nil isDigit_of_mem_digits

variable {sign : List Char}

theorem isNumeral_scientific (hsign : sign ∈ [[], ['-']]) (d : Decimal) :
    IsNumeral (sign ++ d.scientific) := by
  have hdigits : ∀ c ∈ digits d.coefficient, c.isDigit = true := isDigit_of_mem_digits
  rw [scientific]
  split
  · next h => exact absurd h Nat.toDigits_ne_nil
  · next c h =>
    rw [h] at hdigits
    exact .mk sign [c] [] _ hsign (isWhole_singleton (hdigits c List.mem_cons_self)) .none
      (isExponent_exponentText _)
  · next c rest hrest h =>
    rw [h, List.forall_mem_cons] at hdigits
    exact .mk sign [c] ('.' :: rest) _ hsign (isWhole_singleton hdigits.1)
      (.places rest hrest hdigits.2) (isExponent_exponentText _)

/-- Digits with a point among them or before them. -/
theorem isNumeral_positional (hsign : sign ∈ [[], ['-']]) {d : Decimal} (h : d.exponent < 0) :
    IsNumeral (sign ++ d.positional) := by
  rw [positional, if_neg (by omega)]
  have hdigits : ∀ c ∈ digits d.coefficient, c.isDigit = true := isDigit_of_mem_digits
  split
  · have hplaces : IsFraction
        ('.' :: (List.replicate (-((digits d.coefficient).length + d.exponent)).toNat '0' ++
          digits d.coefficient)) := by
      refine .places _ ?_ (List.forall_mem_append.mpr ⟨isDigit_of_mem_zeros, hdigits⟩)
      exact List.append_ne_nil_of_right_ne_nil _ Nat.toDigits_ne_nil
    simpa using IsNumeral.mk sign ['0'] _ [] hsign (isWhole_singleton rfl) hplaces .none
  · next hpoint =>
    generalize hn : ((digits d.coefficient).length + d.exponent).toNat = n
    have hplaces : IsFraction ('.' :: (digits d.coefficient).drop n) := by
      refine .places _ ?_ fun c hc => hdigits c (List.mem_of_mem_drop hc)
      rw [ne_eq, List.drop_eq_nil_iff]
      omega
    simpa using IsNumeral.mk sign _ _ [] hsign ((isWhole_digits _).take (n := n) (by omega))
      hplaces .none

theorem isNumeral_general (hsign : sign ∈ [[], ['-']]) {d : Decimal} (h : d.coefficient ≠ 0) :
    IsNumeral (sign ++ d.general) := by
  rw [general]
  split
  · exact isNumeral_scientific hsign d
  · split
    · next hexponent =>
      have hwhole := (isWhole_digits d.coefficient).append (head?_digits h)
        (isDigit_of_mem_zeros (n := d.exponent.toNat))
      rw [positional, if_pos hexponent]
      simpa using IsNumeral.mk sign _ ['.', '0'] [] hsign hwhole
        isFraction_zero .none
    · next hexponent => exact isNumeral_positional hsign (by omega)

theorem isNumeral_ofInt (n : Int) : IsNumeral (Decimal.ofInt n) := by
  rw [Decimal.ofInt]
  split
  · simpa using IsNumeral.mk ['-'] _ [] [] (by decide) (isWhole_digits n.natAbs) .none .none
  · simpa using IsNumeral.mk [] _ [] [] (by decide) (isWhole_digits n.natAbs) .none .none

theorem isNumeral_finite (negative : Bool) (r : Fin Binary64.overflowRank) :
    IsNumeral (Binary64.finite negative r).general.toList := by
  have hbody : ∀ sign ∈ [[], ['-']], IsNumeral
      (sign ++ if r.val = 0 then ['0', '.', '0'] else (shortest r).general) := by
    intro sign hsign
    split
    · exact .mk sign ['0'] ['.', '0'] [] hsign (isWhole_singleton rfl)
        isFraction_zero .none
    · next hr => exact isNumeral_general hsign (coefficient_shortest hr)
  rw [Binary64.general, String.toList_ofList]
  cases negative with
  | false => exact hbody [] (by decide)
  | true => exact hbody ['-'] (by decide)

/-- Every word has a letter that no numeral has. -/
theorem not_isNumeral_of_mem {w : List Char} (hw : w ∈ numberWords) : ¬ IsNumeral w := by
  have hletter : (numberWords.all (·.any (!isNumeralChar ·))) = true := by decide
  obtain ⟨c, hc, hno⟩ := List.any_eq_true.mp (List.all_eq_true.mp hletter w hw)
  exact fun h => absurd (h.chars c hc) (by simpa using hno)

/-- Doubles that are no finite numbers are written with a word. -/
theorem floatChars_mem_numberWords {x : Binary64} (h : x.isFinite = false) :
    floatChars x ∈ numberWords := by
  cases x with
  | nan => exact .head _
  | infinity negative =>
    cases negative with
    | false => exact .tail _ (.head _)
    | true => exact .tail _ (.tail _ (.head _))
  | finite negative r =>
    rw [Binary64.isFinite] at h
    contradiction

theorem isNumeral_floatChars_iff {x : Binary64} : IsNumeral (floatChars x) ↔ x.isFinite = true := by
  constructor
  · intro h
    by_contra hfinite
    exact not_isNumeral_of_mem (floatChars_mem_numberWords (by simpa using hfinite)) h
  · cases x with
    | finite negative r => exact fun _ => isNumeral_finite negative r
    | _ => simp [Binary64.isFinite]

theorem isLoose_floatChars (x : Binary64) : IsLoose (floatChars x) := by
  cases hfinite : x.isFinite with
  | true => exact .inl (isNumeral_floatChars_iff.mpr hfinite)
  | false => exact .inr (floatChars_mem_numberWords hfinite)

end JsonText

end PromptShelf
