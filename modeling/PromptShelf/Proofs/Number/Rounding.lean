/-
Rounding to the nearest rank.

A number is rounded to a rank or below exactly if it is less than halfway to the next rank, or just
halfway and the rank is even (`roundToRank_le_iff`).  The step that rounding chooses is right on
both sides of the halfway point: a number with a smaller step is below the whole binade of the rank,
and one with a larger step is above it.

* **`units_succ`** — how far it is from a rank to the next one;
* **`roundToRank_le_iff`** — what is rounded to a rank or below;
* **`rank_le_iff`** — the same for decimals and the sizes of ranks;
* **`isNearest_ofRatio`** — no double is nearer to a share than the one it is rounded to.
-/
import Mathlib.Algebra.Order.Field.Power
import Mathlib.Data.Rat.Cast.Order
import Mathlib.Tactic.Linarith
import Mathlib.Tactic.Ring
import PromptShelf.Number.Decimal

namespace PromptShelf

theorem roundHalfEven_le_iff {num den k : Nat} (hden : 0 < den) :
    roundHalfEven num den ≤ k ↔
      2 * num < (2 * k + 1) * den ∨ 2 * num = (2 * k + 1) * den ∧ k % 2 = 0 := by
  have hnum := Nat.div_add_mod num den
  have hrest := Nat.mod_lt num hden
  have hexpand : (2 * k + 1) * den = 2 * (den * k) + den := by ring
  rw [roundHalfEven, hexpand]
  generalize num / den = q at *
  generalize num % den = rest at *
  -- Only the quotient itself is close enough for the rest to matter.
  rcases Nat.lt_trichotomy q k with hlt | rfl | hgt
  · have hstep : den * (q + 1) ≤ den * k := Nat.mul_le_mul_left den hlt
    rw [Nat.mul_add, Nat.mul_one] at hstep
    split
    · omega
    · split <;> omega
  · split
    · omega
    · split <;> omega
  · have hstep : den * (k + 1) ≤ den * q := Nat.mul_le_mul_left den hgt
    rw [Nat.mul_add, Nat.mul_one] at hstep
    split
    · omega
    · split <;> omega

theorem roundHalfEven_le {num den k : Nat} (hden : 0 < den) (h : num < k * den) :
    roundHalfEven num den ≤ k := by
  have hexpand : (2 * k + 1) * den = 2 * (k * den) + den := by ring
  rw [roundHalfEven_le_iff hden, hexpand]
  omega

theorem le_roundHalfEven {num den k : Nat} (hden : 0 < den) (h : k * den ≤ num) :
    k ≤ roundHalfEven num den := by
  cases k with
  | zero => exact Nat.zero_le _
  | succ k =>
    have hexpand : (2 * k + 1) * den + den = 2 * ((k + 1) * den) := by ring
    rw [Nat.succ_le_iff, ← Nat.not_le, roundHalfEven_le_iff hden]
    omega

namespace Binary64

theorem shift_succ (r : Nat) :
    shift (r + 1) = shift r ∧ significand (r + 1) = significand r + 1 ∨
      shift (r + 1) = shift r + 1 ∧ significand (r + 1) = binade ∧
        significand r + 1 = 2 * binade := by
  simp only [shift, significand, binade_eq]
  omega

/-- The next rank is one step further. -/
theorem units_succ (r : Nat) : units (r + 1) = units r + Nat.pow 2 (shift r) := by
  rw [units, units]
  rcases shift_succ r with ⟨hshift, hsignificand⟩ | ⟨hshift, hsignificand, hlast⟩
  · rw [hshift, hsignificand, Nat.succ_mul]
  · rw [hshift, hsignificand, pow_two_succ, ← Nat.succ_mul, Nat.succ_eq_add_one, hlast]
    ring

theorem significand_mod_two (r : Nat) : significand r % 2 = r % 2 := by
  simp only [shift, significand, binade_eq]
  omega

/-- The steps after the first have all their bits. -/
theorem two_pow_le_units {r : Nat} (h : shift r ≠ 0) : Nat.pow 2 (52 + shift r) ≤ units r := by
  rw [pow_two_add]
  exact Nat.mul_le_mul_right _ (le_significand h)

theorem units_succ_le (r : Nat) : units (r + 1) ≤ Nat.pow 2 (53 + shift r) := by
  rw [units_succ, units, ← Nat.succ_mul, pow_two_add, ← two_mul_binade]
  exact Nat.mul_le_mul_right _ (significand_lt r)

/-- The step that rounding chooses leaves at most 53 bits. -/
theorem lt_of_chosen (num : Nat) {den : Nat} (hden : 0 < den) :
    num < Nat.pow 2 (53 + ((num / den).log2 - 52)) * den := by
  rw [← Nat.div_lt_iff_lt_mul hden]
  calc num / den < Nat.pow 2 ((num / den).log2 + 1) := Nat.lt_log2_self
    _ ≤ Nat.pow 2 (53 + ((num / den).log2 - 52)) :=
      Nat.pow_le_pow_right (by decide) (by omega)

/-- And no fewer, unless it is the smallest one. -/
theorem le_of_chosen (num : Nat) {den : Nat} (hden : 0 < den)
    (h : (num / den).log2 - 52 ≠ 0) :
    Nat.pow 2 (52 + ((num / den).log2 - 52)) * den ≤ num := by
  have hne : num / den ≠ 0 := by
    intro hzero
    rw [hzero] at h
    exact h rfl
  rw [← Nat.le_div_iff_mul_le hden]
  calc Nat.pow 2 (52 + ((num / den).log2 - 52)) = Nat.pow 2 (num / den).log2 := by
        congr 1
        omega
    _ ≤ num / den := Nat.log2_self_le hne

/-- What is rounded to a rank or below it: anything less than halfway to the next rank, and the
number in the middle if the rank is even. -/
theorem roundToRank_le_iff {num den r : Nat} (hden : 0 < den) :
    roundToRank num den ≤ r ↔
      2 * num < (units r + units (r + 1)) * den ∨
        2 * num = (units r + units (r + 1)) * den ∧ r % 2 = 0 := by
  have hplace := shift_mul_add_significand r
  have hsignificand := significand_lt r
  have hhigh := lt_of_chosen num hden
  have hlow := le_of_chosen num hden
  rw [roundToRank]
  generalize (num / den).log2 - 52 = s at *
  have hstep : 0 < den * Nat.pow 2 s := Nat.mul_pos hden (Nat.two_pow_pos s)
  have hlt : units r * den < units (r + 1) * den :=
    Nat.mul_lt_mul_of_pos_right (units_lt_units (Nat.lt_succ_self r)) hden
  rw [Nat.add_mul]
  rcases Nat.lt_trichotomy s (shift r) with hbelow | rfl | habove
  · -- All numbers of this step are below the binade of the rank.
    have hrank : roundHalfEven num (den * Nat.pow 2 s) ≤ 2 * binade := by
      apply roundHalfEven_le hstep
      rwa [two_mul_binade, Nat.mul_comm den, ← Nat.mul_assoc, ← pow_two_add]
    have hsmall : num < units r * den := by
      calc num < Nat.pow 2 (53 + s) * den := hhigh
        _ ≤ Nat.pow 2 (52 + shift r) * den :=
          Nat.mul_le_mul_right _ (Nat.pow_le_pow_right (by decide) (by omega))
        _ ≤ units r * den := Nat.mul_le_mul_right _ (two_pow_le_units (by omega))
    have hbinade : (s + 1) * binade ≤ shift r * binade := Nat.mul_le_mul_right _ hbelow
    have hfull := le_significand (r := r) (by omega)
    rw [Nat.succ_mul] at hbinade
    constructor <;> omega
  · have hhalf : units r * den + units (r + 1) * den =
        (2 * significand r + 1) * (den * Nat.pow 2 (shift r)) := by
      rw [units_succ, units]
      ring
    rw [hhalf, ← significand_mod_two r, ← roundHalfEven_le_iff hstep]
    constructor <;> omega
  · -- All numbers of this step are past the next rank.
    have hrank : binade ≤ roundHalfEven num (den * Nat.pow 2 s) := by
      apply le_roundHalfEven hstep
      rw [binade, Nat.mul_comm den, ← Nat.mul_assoc, ← pow_two_add]
      exact hlow (by omega)
    have hlarge : units (r + 1) * den ≤ num := by
      calc units (r + 1) * den ≤ Nat.pow 2 (53 + shift r) * den :=
            Nat.mul_le_mul_right _ (units_succ_le r)
        _ ≤ Nat.pow 2 (52 + s) * den :=
          Nat.mul_le_mul_right _ (Nat.pow_le_pow_right (by decide) (by omega))
        _ ≤ num := hlow (by omega)
    have hbinade : (shift r + 1) * binade ≤ s * binade := Nat.mul_le_mul_right _ habove
    rw [Nat.succ_mul] at hbinade
    constructor <;> omega

/-- The magnitude of a rank. -/
def size (r : Nat) : ℚ := units r / unitsPerOne

/-- The number that a double is; only the finite ones are numbers. -/
def value? : Binary64 → Option ℚ
  | .finite negative r => some (if negative then -size r else size r)
  | _ => none

theorem unitsPerOne_pos : (0 : ℚ) < unitsPerOne := by
  have hpos : 0 < unitsPerOne := by decide +kernel
  exact Nat.cast_pos.mpr hpos

theorem size_mul_unitsPerOne (r : Nat) : size r * unitsPerOne = units r :=
  div_mul_cancel₀ _ unitsPerOne_pos.ne'

theorem size_lt_size {r q : Nat} (h : r < q) : size r < size q :=
  (div_lt_div_iff_of_pos_right unitsPerOne_pos).mpr (Nat.cast_lt.mpr (units_lt_units h))

theorem size_le_size {r q : Nat} (h : r ≤ q) : size r ≤ size q := by
  rcases Nat.eq_or_lt_of_le h with rfl | hlt
  · exact le_refl _
  · exact (size_lt_size hlt).le

@[simp] theorem size_zero : size 0 = 0 := by
  rw [size, units_zero, Nat.cast_zero, zero_div]

theorem size_pos {r : Nat} (h : r ≠ 0) : 0 < size r := by
  simpa using size_lt_size (Nat.pos_of_ne_zero h)

theorem cast_units_mul (r n : Nat) : ((units r * n : Nat) : ℚ) = size r * (unitsPerOne * n) := by
  rw [← mul_assoc, size_mul_unitsPerOne, Nat.cast_mul]

/-- What is rounded to a rank or below it, with the number itself in place of its units. -/
theorem roundToRank_le_iff_size {num den r : Nat} (hden : 0 < den) {q : ℚ}
    (hq : (num : ℚ) = q * (unitsPerOne * den)) :
    roundToRank num den ≤ r ↔
      2 * q < size r + size (r + 1) ∨ 2 * q = size r + size (r + 1) ∧ r % 2 = 0 := by
  have hscale : (0 : ℚ) < unitsPerOne * den := mul_pos unitsPerOne_pos (Nat.cast_pos.mpr hden)
  have hnum : ((2 * num : Nat) : ℚ) = 2 * q * (unitsPerOne * den) := by
    rw [Nat.cast_mul, hq, mul_assoc, Nat.cast_ofNat]
  have hmiddle : (((units r + units (r + 1)) * den : Nat) : ℚ) =
      (size r + size (r + 1)) * (unitsPerOne * den) := by
    rw [Nat.add_mul, Nat.cast_add, cast_units_mul, cast_units_mul, add_mul]
  rw [roundToRank_le_iff hden, ← Nat.cast_lt (α := ℚ), ← Nat.cast_inj (R := ℚ), hnum, hmiddle,
    mul_lt_mul_iff_left₀ hscale, mul_left_inj' hscale.ne']

/-- No rank is nearer to a number than the one it is rounded to. -/
theorem roundToRank_nearest {num den : Nat} (hden : 0 < den) {q : ℚ}
    (hq : (num : ℚ) = q * (unitsPerOne * den)) (r : Nat) :
    |size (roundToRank num den) - q| ≤ |size r - q| := by
  generalize hchosen : roundToRank num den = chosen
  rcases Nat.lt_trichotomy r chosen with hbelow | rfl | habove
  · -- The number is not below the middle between the chosen rank and the one before.
    obtain ⟨before, rfl⟩ : ∃ before, chosen = before + 1 := ⟨chosen - 1, by omega⟩
    have hmiddle : size before + size (before + 1) ≤ 2 * q := by
      by_contra hless
      have hle := (roundToRank_le_iff_size hden hq).mpr (.inl (not_le.mp hless))
      omega
    have hsize : size r ≤ size before := size_le_size (by omega)
    have hstep : size before < size (before + 1) := size_lt_size (Nat.lt_succ_self before)
    rw [abs_sub_comm (size r), abs_of_nonneg (a := q - size r) (by linarith), abs_le]
    constructor <;> linarith
  · exact le_refl _
  · have hmiddle : 2 * q ≤ size chosen + size (chosen + 1) := by
      rcases (roundToRank_le_iff_size hden hq).mp hchosen.le with hless | ⟨heq, -⟩
      · exact hless.le
      · exact heq.le
    have hsize : size (chosen + 1) ≤ size r := size_le_size habove
    have hstep : size chosen < size (chosen + 1) := size_lt_size (Nat.lt_succ_self chosen)
    rw [abs_of_nonneg (a := size r - q) (by linarith), abs_le]
    constructor <;> linarith

/-- The double is a number, and no double is nearer to the given one. -/
def IsNearest (x : Binary64) (q : ℚ) : Prop :=
  ∃ v, x.value? = some v ∧ ∀ y w, value? y = some w → |v - q| ≤ |w - q|

theorem size_rank_one : ∃ r : Fin overflowRank, size r = 1 := by
  refine ⟨⟨1023 * binade, by decide⟩, ?_⟩
  rw [size, div_eq_one_iff_eq unitsPerOne_pos.ne']
  have h : units (1023 * binade) = unitsPerOne := by decide +kernel
  exact congrArg Nat.cast h

theorem isNearest_ofRatio {num den : Nat} (hden : 0 < den) (hle : num ≤ den) :
    IsNearest (ofRatio num den) (num / den) := by
  have hden' : (0 : ℚ) < den := Nat.cast_pos.mpr hden
  have hq : ((num * unitsPerOne : Nat) : ℚ) = num / den * (unitsPerOne * den) := by
    rw [Nat.cast_mul, mul_comm (unitsPerOne : ℚ), ← mul_assoc, div_mul_cancel₀ _ hden'.ne']
  have hpos : (0 : ℚ) ≤ num / den := div_nonneg (Nat.cast_nonneg num) hden'.le
  have hone : (num / den : ℚ) ≤ 1 := (div_le_one₀ hden').mpr (Nat.cast_le.mpr hle)
  have hnearest := roundToRank_nearest hden hq
  have hlt : roundToRank (num * unitsPerOne) den < overflowRank := by
    obtain ⟨r, hr⟩ := size_rank_one
    refine Nat.lt_of_le_of_lt ?_ r.isLt
    rw [roundToRank_le_iff_size hden hq]
    have hstep : size r < size (r + 1) := size_lt_size (Nat.lt_succ_self r)
    left
    linarith
  refine ⟨size (roundToRank (num * unitsPerOne) den), ?_, fun y w hw => ?_⟩
  · rw [ofRatio, ofUnits, dif_pos hlt]
    rfl
  · cases y with
    | nan | infinity => exact absurd hw (by simp [value?])
    | finite negative r =>
      obtain rfl := Option.some.inj hw
      cases negative with
      | false => exact hnearest r
      | true =>
        -- A negative number is no nearer than zero.
        have hzero := hnearest 0
        have hsize : 0 ≤ size r := by simpa using size_le_size (Nat.zero_le r)
        rw [size_zero, abs_sub_comm 0, sub_zero, abs_of_nonneg hpos] at hzero
        refine hzero.trans ?_
        rw [if_pos rfl, abs_sub_comm, abs_of_nonneg (by linarith)]
        linarith

end Binary64

namespace Decimal

open Binary64

/-- The number itself. -/
def value (d : Decimal) : ℚ := d.coefficient * 10 ^ d.exponent

theorem value_mul (d : Decimal) :
    d.value * Nat.pow 10 (-d.exponent).toNat = d.coefficient * Nat.pow 10 d.exponent.toNat := by
  have hsplit : d.exponent + ((-d.exponent).toNat : Int) = (d.exponent.toNat : Int) := by omega
  have hten : (10 : ℚ) ≠ 0 := by norm_num
  calc d.value * Nat.pow 10 (-d.exponent).toNat
      = d.coefficient * (10 ^ d.exponent * 10 ^ ((-d.exponent).toNat : Int)) := by
        rw [value, zpow_natCast, Nat.pow_eq, Nat.cast_pow, mul_assoc]
        rfl
    _ = d.coefficient * Nat.pow 10 d.exponent.toNat := by
        rw [← zpow_add₀ hten, hsplit, zpow_natCast, Nat.pow_eq, Nat.cast_pow]
        rfl

/-- Numbers are compared in units over the power of ten of their places. -/
theorem scale_pos (exponent : Int) : (0 : ℚ) < unitsPerOne * Nat.pow 10 (-exponent).toNat :=
  mul_pos unitsPerOne_pos (Nat.cast_pos.mpr (Nat.pow_pos (by decide)))

theorem cast_coefficient_mul (d : Decimal) :
    ((d.coefficient * Nat.pow 10 d.exponent.toNat * unitsPerOne : Nat) : ℚ) =
      d.value * (unitsPerOne * Nat.pow 10 (-d.exponent).toNat) := by
  rw [Nat.cast_mul, Nat.cast_mul, ← value_mul]
  ring

theorem rank_le_iff {d : Decimal} {r : Nat} :
    d.rank ≤ r ↔
      2 * d.value < size r + size (r + 1) ∨ 2 * d.value = size r + size (r + 1) ∧ r % 2 = 0 :=
  roundToRank_le_iff_size (Nat.pow_pos (by decide)) (cast_coefficient_mul d)

/-- Reading is monotone. -/
theorem rank_le_rank {d e : Decimal} (h : d.value ≤ e.value) : d.rank ≤ e.rank := by
  rw [rank_le_iff]
  rcases rank_le_iff.mp (Nat.le_refl e.rank) with hlt | ⟨heq, heven⟩
  · left
    linarith
  · rcases eq_or_lt_of_le h with hsame | hless
    · right
      exact ⟨hsame ▸ heq, heven⟩
    · left
      linarith

theorem rank_congr {d e : Decimal} (h : d.value = e.value) : d.rank = e.rank :=
  Nat.le_antisymm (rank_le_rank h.le) (rank_le_rank h.ge)

theorem rank_le_of_value_le {d : Decimal} {r : Nat} (h : d.value ≤ size r) : d.rank ≤ r := by
  have hnext : size r < size (r + 1) := size_lt_size (Nat.lt_succ_self r)
  rw [rank_le_iff]
  left
  linarith

theorem le_rank_of_size_le {d : Decimal} {r : Nat} (h : size r ≤ d.value) : r ≤ d.rank := by
  by_contra hlt
  have hnext : size d.rank < size (d.rank + 1) := size_lt_size (Nat.lt_succ_self _)
  have hle : size (d.rank + 1) ≤ size r := size_le_size (by omega)
  rcases rank_le_iff.mp (Nat.le_refl d.rank) with hless | ⟨heq, _⟩
  · linarith
  · linarith

/-- A decimal closer to a rank than halfway to its neighbours is read as it. -/
theorem rank_eq {d : Decimal} {r : Nat} (hlow : size (r - 1) + size r < 2 * d.value)
    (hhigh : 2 * d.value < size r + size (r + 1)) : d.rank = r := by
  have hle : d.rank ≤ r := rank_le_iff.mpr (.inl hhigh)
  by_contra hne
  have hprev : d.rank ≤ r - 1 := by omega
  have hpos : r - 1 + 1 = r := by omega
  rw [rank_le_iff, hpos] at hprev
  rcases hprev with hlt | ⟨heq, _⟩
  · exact absurd hlow (not_lt.mpr hlt.le)
  · exact absurd hlow (not_lt.mpr heq.le)

end Decimal

end PromptShelf
