/-
The search for the shortest decimal.

On a grid there is a decimal that reads back as a rank exactly if one of the two neighbours of the
rank's value does, since reading is monotone and the value lies between them.  So the search finds
the coarsest grid with such a decimal, provided it begins above and goes on far enough: the power of
ten it begins with is larger than the value, and at its last one two steps fit between the rank and
the one before it, whose distance is at least the value over 2⁵³.

* **`exists_onGrid`** — the last grid has a decimal that reads back;
* **`exponent_le_shortest`** — no decimal on a coarser grid than the shortest one reads back;
* **`isShortest_shortest`** — and none has fewer digits;
* **`exponent_neg`** — one that reads back as a number that is not whole has places.
-/
import Mathlib.Algebra.Order.Field.Power
import Mathlib.Tactic.Linarith
import Mathlib.Tactic.NormNum
import Mathlib.Tactic.Positivity
import Mathlib.Tactic.Ring
import PromptShelf.Proofs.JsonText.Numerals
import PromptShelf.Proofs.Number.Rounding

namespace PromptShelf.Decimal

open Binary64

variable {r c : Nat} {exponent : Int} {d : Decimal}

/-! ### Grids -/

theorem value_le_value (exponent : Int) {b c : Nat} (h : b ≤ c) :
    (⟨b, exponent⟩ : Decimal).value ≤ (⟨c, exponent⟩ : Decimal).value := by
  have hten : (0 : ℚ) ≤ 10 ^ exponent := by positivity
  exact mul_le_mul_of_nonneg_right (Nat.cast_le.mpr h) hten

theorem value_succ (c : Nat) (exponent : Int) :
    (⟨c + 1, exponent⟩ : Decimal).value = (⟨c, exponent⟩ : Decimal).value + 10 ^ exponent := by
  rw [value, value, Nat.cast_succ, add_mul, one_mul]

/-- A last digit that is a zero may be cut off. -/
theorem value_div_ten (h : d.coefficient % 10 = 0) :
    (⟨d.coefficient / 10, d.exponent + 1⟩ : Decimal).value = d.value := by
  have hcoefficient : ((d.coefficient / 10 * 10 : Nat) : ℚ) = d.coefficient :=
    congrArg Nat.cast (Nat.div_mul_cancel (Nat.dvd_of_mod_eq_zero h))
  push_cast at hcoefficient
  rw [value, value, zpow_add₀ (by norm_num), zpow_one, ← hcoefficient]
  ring

/-- The last number of a grid that is not above the value of a rank. -/
def lower (r : Nat) (exponent : Int) : Nat :=
  (gridQuotient (units r) exponent).1 / (gridQuotient (units r) exponent).2

theorem le_lower_iff : c ≤ lower r exponent ↔ (⟨c, exponent⟩ : Decimal).value ≤ size r := by
  have hunit : 0 < unitsPerOne := Nat.cast_pos.mp unitsPerOne_pos
  have hgrid : 0 < unitsPerOne * Nat.pow 10 exponent.toNat :=
    Nat.mul_pos hunit (Nat.pow_pos (by decide))
  have hleft : ((c * (unitsPerOne * Nat.pow 10 exponent.toNat) : Nat) : ℚ) =
      (⟨c, exponent⟩ : Decimal).value * (unitsPerOne * Nat.pow 10 (-exponent).toNat) := by
    rw [Nat.mul_comm unitsPerOne, ← Nat.mul_assoc]
    exact cast_coefficient_mul ⟨c, exponent⟩
  rw [lower, gridQuotient, Nat.le_div_iff_mul_le hgrid, ← Nat.cast_le (α := ℚ), hleft,
    cast_units_mul, mul_le_mul_iff_left₀ (scale_pos exponent)]

theorem roundHalfEven_eq_or (num den : Nat) :
    roundHalfEven num den = num / den ∨ roundHalfEven num den = num / den + 1 := by
  rw [roundHalfEven]
  split
  · exact .inl rfl
  · split <;> omega

/-- A grid without a hit has no decimal that reads back. -/
theorem onGrid?_eq_none (h : onGrid? r exponent = none) : rank ⟨c, exponent⟩ ≠ r := by
  have hboth : rank ⟨lower r exponent, exponent⟩ ≠ r ∧
      rank ⟨lower r exponent + 1, exponent⟩ ≠ r := by
    have hnone : ∀ near far : Nat, (if rank ⟨near, exponent⟩ = r then some near
        else if rank ⟨far, exponent⟩ = r then some far else none) = none →
        rank ⟨near, exponent⟩ ≠ r ∧ rank ⟨far, exponent⟩ ≠ r := by
      intro near far hnone
      split at hnone
      · exact absurd hnone (Option.some_ne_none near)
      · next hnear =>
        split at hnone
        · exact absurd hnone (Option.some_ne_none far)
        · next hfar => exact ⟨hnear, hfar⟩
    rw [lower]
    rw [onGrid?] at h
    generalize gridQuotient (units r) exponent = quotient at h ⊢
    have htried := hnone _ _ h
    -- The nearer of the two neighbours is tried first, whichever it is.
    rcases roundHalfEven_eq_or quotient.1 quotient.2 with hnear | hnear
    · rwa [hnear, if_pos rfl] at htried
    · rw [hnear, if_neg (by omega)] at htried
      exact htried.symm
  intro hread
  rcases Nat.lt_or_ge (lower r exponent) c with habove | hbelow
  · have hle := rank_le_rank (value_le_value exponent habove)
    have hpast : size r ≤ (⟨lower r exponent + 1, exponent⟩ : Decimal).value := by
      have hnot : ¬ lower r exponent + 1 ≤ lower r exponent := by omega
      rw [le_lower_iff] at hnot
      exact (not_le.mp hnot).le
    rw [hread] at hle
    exact hboth.2 (Nat.le_antisymm hle (le_rank_of_size_le hpast))
  · have hle := rank_le_rank (value_le_value exponent hbelow)
    have hup : rank ⟨lower r exponent, exponent⟩ ≤ r := rank_le_of_value_le (le_lower_iff.mp le_rfl)
    rw [hread] at hle
    exact hboth.1 (Nat.le_antisymm hup hle)

/-! ### Powers of two and of ten -/

/-- Powers of two bases are compared by one pair of powers of them. -/
theorem zpow_le_zpow_of_pow_le {a b : ℚ} (ha : 0 < a) (hb : 1 ≤ b) {m n : Nat} (hm : m ≠ 0)
    (h : a ^ m ≤ b ^ n) {k t : Int} (hk : 0 ≤ k) (hle : n * k ≤ m * t) : a ^ k ≤ b ^ t := by
  have hpos : 0 < b := lt_of_lt_of_le one_pos hb
  have hpower : (a ^ k) ^ m ≤ (b ^ t) ^ m := by
    calc (a ^ k) ^ m = (a ^ m) ^ k := by rw [← zpow_natCast, zpow_comm, zpow_natCast]
      _ ≤ (b ^ n) ^ k := zpow_le_zpow_left₀ hk (pow_pos ha m).le h
      _ = b ^ (n * k) := by rw [zpow_mul, zpow_natCast]
      _ ≤ b ^ (m * t) := zpow_le_zpow_right₀ hb hle
      _ = (b ^ t) ^ m := by rw [mul_comm, zpow_mul, zpow_natCast]
  exact le_of_pow_le_pow_left₀ hm (zpow_pos hpos t).le hpower

/-- 93 doublings are less than 28 decimal places and 103 are more than 31. -/
theorem two_zpow_le_ten_zpow {k t : Int} (hmany : 28 * k ≤ 93 * t) (hfew : 31 * k ≤ 103 * t) :
    (2 : ℚ) ^ k ≤ 10 ^ t := by
  rcases le_total 0 k with hk | hk
  · exact zpow_le_zpow_of_pow_le (m := 93) (n := 28) two_pos (by norm_num) (by norm_num)
      (by norm_num) hk hmany
  · rcases le_total 0 t with ht | ht
    · calc (2 : ℚ) ^ k ≤ 1 := zpow_le_one_of_nonpos₀ (by norm_num) hk
        _ ≤ 10 ^ t := one_le_zpow₀ (by norm_num) ht
    · rw [← inv_le_inv₀ (by positivity) (by positivity), ← zpow_neg, ← zpow_neg]
      exact zpow_le_zpow_of_pow_le (m := 31) (n := 103) (by norm_num) (by norm_num) (by norm_num)
        (by norm_num) (by omega) (by omega)

theorem ten_zpow_le_two_zpow {k t : Int} (hmany : 93 * t ≤ 28 * k) (hfew : 103 * t ≤ 31 * k) :
    (10 : ℚ) ^ t ≤ 2 ^ k := by
  rw [← inv_le_inv₀ (by positivity) (by positivity), ← zpow_neg, ← zpow_neg]
  exact two_zpow_le_ten_zpow (by omega) (by omega)

theorem unitsPerOne_eq_zpow : (unitsPerOne : ℚ) = 2 ^ (1074 : Int) := by
  have hcast : ∀ k n : Nat, n = Nat.pow 2 k → (n : ℚ) = 2 ^ (k : Int) := by
    intro k n hn
    rw [hn, zpow_natCast, Nat.pow_eq, Nat.cast_pow, Nat.cast_ofNat]
  exact hcast 1074 unitsPerOne (by decide +kernel)

/-- The value of a rank has as many binary digits as its units, less the 1074 below one. -/
theorem size_bounds (hr : r ≠ 0) :
    2 ^ ((units r).log2 - 1074 : Int) ≤ size r ∧
      size r < (2 : ℚ) ^ ((units r).log2 + 1 - 1074 : Int) := by
  have htwo : (2 : ℚ) ≠ 0 := by norm_num
  have hunits : units r ≠ 0 := by
    intro hzero
    have hlt := units_lt_units (Nat.pos_of_ne_zero hr)
    omega
  have hlow : ((2 ^ (units r).log2 : Nat) : ℚ) ≤ units r :=
    Nat.cast_le.mpr (Nat.log2_self_le hunits)
  have hhigh : (units r : ℚ) < (2 ^ ((units r).log2 + 1) : Nat) := Nat.cast_lt.mpr Nat.lt_log2_self
  rw [Nat.cast_pow, Nat.cast_ofNat, ← zpow_natCast] at hlow hhigh
  rw [zpow_sub₀ htwo, zpow_sub₀ htwo, ← unitsPerOne_eq_zpow]
  exact ⟨(div_le_div_iff_of_pos_right unitsPerOne_pos).mpr hlow,
    (div_lt_div_iff_of_pos_right unitsPerOne_pos).mpr hhigh⟩

theorem log2_units_lt (h : r < overflowRank) : (units r).log2 < 2098 := by
  have hlt := units_lt_units (Nat.lt_succ_self r)
  have hle := units_succ_le r
  have hshift : shift r ≤ 2045 := by
    simp only [shift, overflowRank, binade_eq] at *
    omega
  have hlog := log2_lt_of_lt (Nat.lt_of_lt_of_le hlt hle)
  omega

theorem size_lt_top (hr : r ≠ 0) (hlt : r < overflowRank) :
    size r < 10 ^ topExponent r := by
  have hlog := log2_units_lt hlt
  refine lt_of_lt_of_le (size_bounds hr).2 (two_zpow_le_ten_zpow ?_ ?_)
  · rw [topExponent]
    omega
  · rw [topExponent]
    omega

theorem top_le_size (hr : r ≠ 0) (hlt : r < overflowRank) :
    10 ^ (topExponent r - 3) ≤ size r := by
  have hlog := log2_units_lt hlt
  refine le_trans (ten_zpow_le_two_zpow ?_ ?_) (size_bounds hr).1
  · rw [topExponent]
    omega
  · rw [topExponent]
    omega

/-! ### What is on the way of the search -/

/-- The distance to the next rank is at most the value. -/
theorem size_succ_le (hr : r ≠ 0) : size (r + 1) ≤ 2 * size r := by
  have hsignificand : 1 ≤ significand r := by
    simp only [shift, significand, binade_eq]
    omega
  have hstep : Nat.pow 2 (shift r) ≤ units r := Nat.le_mul_of_pos_left _ hsignificand
  have hunits : units (r + 1) ≤ 2 * units r := by
    rw [units_succ]
    omega
  rw [size, size, ← mul_div_assoc, div_le_div_iff_of_pos_right unitsPerOne_pos]
  exact_mod_cast hunits

/-- And at least the next value over 2⁵³. -/
theorem size_succ_le_mul_gap (r : Nat) : size (r + 1) ≤ 2 ^ 53 * (size (r + 1) - size r) := by
  have hunits : units (r + 1) + 2 ^ 53 * units r ≤ 2 ^ 53 * units (r + 1) := by
    have hle := units_succ_le r
    rw [pow_two_add] at hle
    rw [units_succ] at hle ⊢
    rw [Nat.mul_add (2 ^ 53), Nat.add_comm]
    exact Nat.add_le_add_left hle _
  have hsize : size (r + 1) + 2 ^ 53 * size r ≤ 2 ^ 53 * size (r + 1) := by
    rw [size, size, ← mul_div_assoc, ← mul_div_assoc, ← add_div,
      div_le_div_iff_of_pos_right unitsPerOne_pos]
    exact_mod_cast hunits
  linarith

/-- Two steps of the last grid fit between a rank and the one before it, so one of its decimals is
closer to the rank than halfway. -/
theorem exists_onGrid (hr : r ≠ 0) (hlt : r < overflowRank) :
    ∃ c, rank ⟨c, topExponent r - 20⟩ = r := by
  refine ⟨lower r (topExponent r - 20), ?_⟩
  have hbelow : (⟨lower r (topExponent r - 20), topExponent r - 20⟩ : Decimal).value ≤ size r :=
    le_lower_iff.mp le_rfl
  have habove : ¬ lower r (topExponent r - 20) + 1 ≤ lower r (topExponent r - 20) := by omega
  rw [le_lower_iff, value_succ, not_le] at habove
  have hfine : (10 : ℚ) ^ (topExponent r - 20) * 10 ^ 17 ≤ size r := by
    rw [← zpow_natCast (10 : ℚ) 17, ← zpow_add₀ (by norm_num)]
    have hexponent : topExponent r - 20 + ((17 : Nat) : Int) = topExponent r - 3 := by omega
    rw [hexponent]
    exact top_le_size hr hlt
  have hgap := size_succ_le_mul_gap (r - 1)
  have hprev : r - 1 + 1 = r := by omega
  have hnext : size r < size (r + 1) := size_lt_size (Nat.lt_succ_self r)
  have hstep : 0 < (10 : ℚ) ^ (topExponent r - 20) := by positivity
  rw [hprev] at hgap
  apply rank_eq <;> linarith

theorem coefficient_ne_zero (hr : r ≠ 0) (h : d.rank = r) :
    d.coefficient ≠ 0 := by
  intro hzero
  obtain ⟨c, exponent⟩ := d
  subst hzero
  exact hr (h.symm.trans (rank_zero exponent))

theorem exponent_le_top (hr : r ≠ 0) (hlt : r < overflowRank)
    (h : d.rank = r) : d.exponent ≤ topExponent r := by
  by_contra hpast
  have hone : (1 : ℚ) ≤ d.coefficient :=
    Nat.one_le_cast.mpr (Nat.pos_of_ne_zero (coefficient_ne_zero hr h))
  have hlarge : (10 : ℚ) ^ topExponent r * 10 ≤ d.value := by
    calc (10 : ℚ) ^ topExponent r * 10 = 10 ^ (topExponent r + 1) := by
          rw [zpow_add₀ (by norm_num), zpow_one]
      _ ≤ 10 ^ d.exponent := zpow_le_zpow_right₀ (by norm_num) (by omega)
      _ ≤ d.value := le_mul_of_one_le_left (by positivity) hone
  have hpos := size_pos hr
  have hnext := size_succ_le hr
  have htop := size_lt_top hr hlt
  rcases rank_le_iff.mp (Nat.le_of_eq h) with hless | ⟨heq, _⟩
  · linarith
  · linarith

/-! ### What it finds -/

/-- The search finds the coarsest grid with a hit, if there is one on its way. -/
theorem search_of_hit {grid? : Int → Option Nat} {last : Decimal} {fuel : Nat} {top low : Int}
    (hhit : grid? low ≠ none) (hle : low ≤ top) (hfuel : top - fuel < low) :
    low ≤ (search grid? last fuel top).exponent ∧
      grid? (search grid? last fuel top).exponent =
        some (search grid? last fuel top).coefficient ∧
      ∀ e, (search grid? last fuel top).exponent < e → e ≤ top → grid? e = none := by
  induction fuel generalizing top with
  | zero => omega
  | succ fuel ih =>
    rw [search]
    split
    · next c hc =>
      refine ⟨hle, hc, ?_⟩
      intro e habove hbelow
      exact absurd habove (by simpa using hbelow)
    · next hnone =>
      have hbelow : low ≤ top - 1 := by
        have hne : low ≠ top := by
          rintro rfl
          exact hhit hnone
        omega
      obtain ⟨hlow, hfound, hcoarser⟩ := ih hbelow (by omega)
      refine ⟨hlow, hfound, ?_⟩
      intro e habove hle
      rcases Int.lt_or_eq_of_le hle with hlt | rfl
      · exact hcoarser e habove (by omega)
      · exact hnone

/-- The step at a rank and one are powers of two, so one of them divides the other. -/
theorem dvd_or_dvd_unitsPerOne (k : Nat) :
    unitsPerOne ∣ Nat.pow 2 k ∨ Nat.pow 2 k ∣ unitsPerOne := by
  have htotal : ∀ one n, n = Nat.pow 2 one → n ∣ Nat.pow 2 k ∨ Nat.pow 2 k ∣ n := by
    rintro one n rfl
    rcases Nat.le_total one k with hle | hle
    · exact .inl (Nat.pow_dvd_pow 2 hle)
    · exact .inr (Nat.pow_dvd_pow 2 hle)
  exact htotal 1074 unitsPerOne (by decide +kernel)

/-- A whole number that reads back as a rank with a finer step than one is the value of the rank:
it is a multiple of the step and closer than the next one. -/
theorem exponent_neg (h : d.rank = r) (hfraction : units r % unitsPerOne ≠ 0) :
    d.exponent < 0 := by
  by_contra hwhole
  have hr : r ≠ 0 := by
    rintro rfl
    simp at hfraction
  generalize hn : d.coefficient * Nat.pow 10 d.exponent.toNat = n
  have hrank : roundToRank (n * unitsPerOne) 1 = r := by
    have hplaces : (-d.exponent).toNat = 0 := by omega
    rw [rank, hn, hplaces] at h
    exact h
  have hprev : r - 1 + 1 = r := by omega
  have hupper := (roundToRank_le_iff Nat.one_pos).mp hrank.le
  have hlower : ¬ roundToRank (n * unitsPerOne) 1 ≤ r - 1 := by omega
  rw [roundToRank_le_iff Nat.one_pos, hprev] at hlower
  have hstep := units_succ r
  have hless := units_succ (r - 1)
  rw [hprev] at hless
  have hmono : Nat.pow 2 (shift (r - 1)) ≤ Nat.pow 2 (shift r) :=
    Nat.pow_le_pow_right (by decide) (shift_mono (Nat.sub_le r 1))
  rcases dvd_or_dvd_unitsPerOne (shift r) with hdvd | ⟨m, hm⟩
  · exact hfraction (Nat.mod_eq_zero_of_dvd (Nat.dvd_mul_left_of_dvd hdvd _))
  · have hunits : units r = significand r * Nat.pow 2 (shift r) := rfl
    have hmultiple : n * unitsPerOne = n * m * Nat.pow 2 (shift r) := by
      rw [hm]
      ring
    have hpos : 0 < Nat.pow 2 (shift r) := Nat.two_pow_pos _
    rw [hmultiple] at hupper hlower
    generalize Nat.pow 2 (shift r) = step at *
    have hsame : significand r = n * m := by
      rcases Nat.lt_trichotomy (significand r) (n * m) with hlt | heq | hgt
      · have hle : (significand r + 1) * step ≤ n * m * step := Nat.mul_le_mul_right _ hlt
        rw [Nat.succ_mul] at hle
        omega
      · exact heq
      · have hle : (n * m + 1) * step ≤ significand r * step := Nat.mul_le_mul_right _ hgt
        rw [Nat.succ_mul] at hle
        omega
    rw [hunits, hsame, ← hmultiple] at hfraction
    exact hfraction (Nat.mul_mod_left n unitsPerOne)

/-- A decimal that is read as the rank, of the fewest digits. -/
def IsShortest (d : Decimal) (r : Nat) : Prop :=
  d.rank = r ∧ ∀ e : Decimal, e.rank = r →
    (digits d.coefficient).length ≤ (digits e.coefficient).length

theorem rank_of_hit (h : onGrid? r d.exponent = some d.coefficient) : rank d = r :=
  rank_onGrid? h

variable (hr : r ≠ 0) (hlt : r < overflowRank)
include hr hlt

/-- What the search ends with: not the exact expansion, but the first hit. -/
theorem shortest_hit :
    topExponent r - 20 ≤ (shortest r).exponent ∧
      onGrid? r (shortest r).exponent = some (shortest r).coefficient ∧
      ∀ e, (shortest r).exponent < e → e ≤ topExponent r → onGrid? r e = none := by
  obtain ⟨c, hc⟩ := exists_onGrid hr hlt
  rw [shortest]
  apply search_of_hit
  · intro hnone
    exact onGrid?_eq_none hnone hc
  · omega
  · omega

theorem rank_shortest : rank (shortest r) = r := rank_of_hit (shortest_hit hr hlt).2.1

theorem le_exponent_shortest : -400 ≤ (shortest r).exponent := by
  have hle := (shortest_hit hr hlt).1
  rw [topExponent] at hle
  omega

/-- No decimal on a coarser grid reads back. -/
theorem exponent_le_shortest (h : d.rank = r) :
    d.exponent ≤ (shortest r).exponent := by
  by_contra hcoarser
  have hnone := (shortest_hit hr hlt).2.2 d.exponent (by omega) (exponent_le_top hr hlt h)
  exact onGrid?_eq_none hnone h

/-- The last digit of the shortest decimal is no zero. -/
theorem coefficient_shortest_mod_ten : (shortest r).coefficient % 10 ≠ 0 := by
  have hrank := rank_shortest hr hlt
  have hcoarsest : ∀ e : Decimal, e.rank = r → e.exponent ≤ (shortest r).exponent :=
    fun e => exponent_le_shortest hr hlt
  generalize shortest r = s at hrank hcoarsest ⊢
  intro hzero
  have hle := hcoarsest _ ((rank_congr (value_div_ten hzero)).trans hrank)
  simp only at hle
  omega

/-- It reads back, and nothing that reads back has fewer digits. -/
theorem isShortest_shortest : IsShortest (shortest r) r := by
  refine ⟨rank_shortest hr hlt, ?_⟩
  intro d h
  have hrank := rank_shortest hr hlt
  have hcoarsest : ∀ e : Decimal, e.rank = r → e.exponent ≤ (shortest r).exponent :=
    fun e => exponent_le_shortest hr hlt
  generalize shortest r = s at hrank hcoarsest ⊢
  by_contra hfewer
  generalize hn : (digits d.coefficient).length = n at hfewer
  have hpos : 0 < n := hn ▸ Nat.length_toDigits_pos
  have hsmall : d.coefficient < 10 ^ n :=
    (Nat.length_toDigits_le_iff (by decide) hpos).mp (Nat.le_of_eq hn)
  have hlarge : 10 ^ n ≤ s.coefficient :=
    Nat.le_of_not_lt fun hlt => hfewer ((Nat.length_toDigits_le_iff (by decide) hpos).mpr hlt)
  -- A power of ten lies between the two, on a grid that is coarser.
  have hpower : (⟨1, s.exponent + n⟩ : Decimal).value = 10 ^ n * 10 ^ s.exponent := by
    rw [value, zpow_add₀ (by norm_num), zpow_natCast]
    push_cast
    ring
  have hbelow : d.value ≤ (⟨1, s.exponent + n⟩ : Decimal).value := by
    rw [hpower, value]
    exact mul_le_mul (by exact_mod_cast hsmall.le)
      (zpow_le_zpow_right₀ (by norm_num) (hcoarsest d h)) (by positivity) (by positivity)
  have habove : (⟨1, s.exponent + n⟩ : Decimal).value ≤ s.value := by
    rw [hpower, value]
    exact mul_le_mul_of_nonneg_right (by exact_mod_cast hlarge) (by positivity)
  have hlow := rank_le_rank hbelow
  have hhigh := rank_le_rank habove
  rw [h] at hlow
  rw [hrank] at hhigh
  have hle := hcoarsest _ (Nat.le_antisymm hhigh hlow)
  simp only at hle
  omega

end PromptShelf.Decimal
