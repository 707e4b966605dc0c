/-
Double precision numbers, held exactly.

A finite magnitude is named by its *rank*: its place among all finite magnitudes
in ascending order, starting at zero.  Ranks are the bit patterns without the
sign, so every rank below `overflowRank` is a magnitude, equal ranks are equal
magnitudes, and neighbours on the number line have neighbouring ranks.

The value of a rank is `units r` times 2⁻¹⁰⁷⁴, a natural number of the smallest
positive magnitude; every operation computes its exact result as a quotient of
naturals in these units and rounds it once, to nearest with ties to even
(`roundToRank`).

* **`units_lt_units`** — a larger rank is a larger value;
* **`roundToRank_units`** — rounding leaves a representable value alone.
-/

namespace PromptShelf

/-- Quotient rounded to the nearest natural, a half going to the even neighbour. -/
def roundHalfEven (num den : Nat) : Nat :=
  let q := num / den
  let r := num % den
  if 2 * r < den then q else if den < 2 * r then q + 1 else q + q % 2

/-- An exact multiple is not moved. -/
theorem roundHalfEven_mul (q : Nat) {den : Nat} (h : 0 < den) :
    roundHalfEven (q * den) den = q := by
  simp [roundHalfEven, Nat.mul_div_cancel _ h, h]

namespace Binary64

/-- Number of ranks in a binade. -/
def binade : Nat := Nat.pow 2 52

/-- Number of finite magnitudes: 2046 binades after the first. -/
def overflowRank : Nat := 2047 * binade

/-- Doublings between the smallest step and the step at a rank. -/
def shift (r : Nat) : Nat := r / binade - 1

/-- Number of steps at a rank: below the first full binade the rank itself. -/
def significand (r : Nat) : Nat := r - shift r * binade

/-- Value of a rank, counted in the smallest positive magnitude 2⁻¹⁰⁷⁴. -/
def units (r : Nat) : Nat := significand r * Nat.pow 2 (shift r)

/-- How many of the smallest magnitude make one. -/
def unitsPerOne : Nat := Nat.pow 2 1074

/-- Rank nearest to `num / den` units, ties to the even significand.  The step
is chosen so that the quotient has 53 bits, or is the smallest one. -/
def roundToRank (num den : Nat) : Nat :=
  let s := (num / den).log2 - 52
  s * binade + roundHalfEven num (den * Nat.pow 2 s)

theorem binade_eq : binade = 4503599627370496 := by decide

theorem pow_two_succ (n : Nat) : Nat.pow 2 (n + 1) = Nat.pow 2 n * 2 := rfl

theorem pow_two_add (m n : Nat) : Nat.pow 2 (m + n) = Nat.pow 2 m * Nat.pow 2 n :=
  Nat.pow_add 2 m n

theorem two_mul_binade : 2 * binade = Nat.pow 2 53 := by decide

@[simp] theorem units_zero : units 0 = 0 := by decide

/-- A rank is its steps counted from the start of its binade, plus the binades before. -/
theorem shift_mul_add_significand (r : Nat) : shift r * binade + significand r = r := by
  simp only [shift, significand, binade_eq]
  omega

/-- Every significand fits in 53 bits. -/
theorem significand_lt (r : Nat) : significand r < 2 * binade := by
  simp only [shift, significand, binade_eq]
  omega

/-- Past the first binade the leading bit is set. -/
theorem le_significand {r : Nat} (h : shift r ≠ 0) : binade ≤ significand r := by
  simp only [shift, significand, binade_eq] at *
  omega

theorem shift_mono {r q : Nat} (h : r ≤ q) : shift r ≤ shift q := by
  simp only [shift, binade_eq]
  omega

/-- A larger rank is a larger value. -/
theorem units_lt_units {r q : Nat} (h : r < q) : units r < units q := by
  have hr := shift_mul_add_significand r
  have hq := shift_mul_add_significand q
  simp only [units]
  rcases Nat.eq_or_lt_of_le (shift_mono (Nat.le_of_lt h)) with hs | hs
  · rw [hs] at hr ⊢
    exact Nat.mul_lt_mul_of_pos_right (by omega) (Nat.two_pow_pos _)
  · calc significand r * Nat.pow 2 (shift r)
        < 2 * binade * Nat.pow 2 (shift r) :=
          Nat.mul_lt_mul_of_pos_right (significand_lt r) (Nat.two_pow_pos _)
      _ = binade * Nat.pow 2 (shift r + 1) := by rw [pow_two_succ]; ac_rfl
      _ ≤ significand q * Nat.pow 2 (shift q) :=
          Nat.mul_le_mul (le_significand (by omega))
            (Nat.pow_le_pow_right (by decide) hs)

theorem log2_lt_of_lt {n k : Nat} (h : n < Nat.pow 2 k) : n.log2 ≤ k - 1 := by
  by_cases hn : n = 0
  · simp [hn]
  · have := (Nat.log2_lt hn).2 h
    omega

/-- The step at a rank is the one rounding chooses for its value. -/
theorem log2_units (r : Nat) : (units r).log2 - 52 = shift r := by
  by_cases h : shift r = 0
  · have hr := significand_lt r
    simp only [units, h, Nat.pow_eq, Nat.pow_zero, Nat.mul_one]
    have := log2_lt_of_lt (two_mul_binade ▸ hr)
    omega
  · have h1 := le_significand h
    have h2 := significand_lt r
    have hne : units r ≠ 0 := by
      have : 0 < units r := Nat.mul_pos (by omega) (Nat.two_pow_pos _)
      omega
    have hlow : Nat.pow 2 (52 + shift r) ≤ units r := by
      rw [pow_two_add]
      exact Nat.mul_le_mul_right _ h1
    have hhigh : units r < Nat.pow 2 (53 + shift r) := by
      rw [pow_two_add, ← two_mul_binade]
      exact Nat.mul_lt_mul_of_pos_right h2 (Nat.two_pow_pos _)
    have a := (Nat.le_log2 hne).2 hlow
    have b := (Nat.log2_lt hne).2 hhigh
    omega

/-- Rounding leaves a representable value alone. -/
theorem roundToRank_units (r : Nat) : roundToRank (units r) 1 = r := by
  have h : units r = significand r * Nat.pow 2 (shift r) := rfl
  simp only [roundToRank, Nat.div_one, Nat.one_mul, log2_units]
  have hpos : 0 < Nat.pow 2 (shift r) := Nat.two_pow_pos _
  rw [h, roundHalfEven_mul _ hpos, shift_mul_add_significand]

end Binary64

/-- A double: not a number, an infinity, or a signed finite magnitude. -/
inductive Binary64
  | nan
  | infinity (negative : Bool)
  | finite (negative : Bool) (rank : Fin Binary64.overflowRank)
  deriving DecidableEq

namespace Binary64

/-- The double nearest to `±num / den` units; past the last magnitude it is infinite. -/
def ofUnits (negative : Bool) (num den : Nat) : Binary64 :=
  if h : roundToRank num den < overflowRank then .finite negative ⟨roundToRank num den, h⟩
  else .infinity negative

def zero (negative : Bool) : Binary64 := .finite negative ⟨0, by decide⟩

instance : Inhabited Binary64 := ⟨zero false⟩

/-- The double nearest to the quotient of two naturals. -/
def ofRatio (num den : Nat) : Binary64 := ofUnits false (num * unitsPerOne) den

def ofNat (n : Nat) : Binary64 := ofRatio n 1

def ofInt (n : Int) : Binary64 := ofUnits (n < 0) (n.natAbs * unitsPerOne) 1

/-- The double nearest to `±coefficient · 10^exponent`.  A number of more than
400 digits before the point is past every magnitude and one with more than 400
zeros after it is below half the smallest, so their powers are not computed. -/
def ofDecimal (negative : Bool) (coefficient : Nat) (exponent : Int) : Binary64 :=
  if coefficient = 0 then zero negative
  else
    let places : Int := exponent + (Nat.log2 coefficient / 3 + 1 : Nat)
    if 400 < exponent then .infinity negative
    else if places < -400 then zero negative
    else ofUnits negative (coefficient * Nat.pow 10 exponent.toNat * unitsPerOne)
      (Nat.pow 10 (-exponent).toNat)

/-- Signed value in units; `none` off the finite numbers. -/
def signedUnits? : Binary64 → Option Int
  | .finite true r => some (-(units r : Int))
  | .finite false r => some (units r)
  | _ => none

def isFinite : Binary64 → Bool
  | .finite .. => true
  | _ => false

/-- Place on the extended number line; both zeros have place 0 and only `nan` has none. -/
def place? : Binary64 → Option Int
  | .nan => none
  | .infinity true => some (-(overflowRank : Int))
  | .infinity false => some overflowRank
  | .finite true r => some (-(r.val : Int))
  | .finite false r => some r.val

/-- Strictly less; `nan` is comparable to nothing. -/
def lt (x y : Binary64) : Bool :=
  match x.place?, y.place? with
  | some a, some b => a < b
  | _, _ => false

/-- Numerically equal: the zeros are equal and `nan` equals nothing. -/
def sameNumber (x y : Binary64) : Bool :=
  match x.place?, y.place? with
  | some a, some b => a == b
  | _, _ => false

def neg : Binary64 → Binary64
  | .nan => .nan
  | .infinity s => .infinity (!s)
  | .finite s r => .finite (!s) r

/-- Sum; an exact zero is negative only between two negative zeros. -/
def add : Binary64 → Binary64 → Binary64
  | .nan, _ => .nan
  | _, .nan => .nan
  | .infinity s, .infinity t => if s = t then .infinity s else .nan
  | .infinity s, .finite .. => .infinity s
  | .finite .., .infinity t => .infinity t
  | .finite s r, .finite t q =>
    let x : Int := if s then -(units r : Int) else units r
    let y : Int := if t then -(units q : Int) else units q
    if x + y = 0 then zero (s && t) else ofUnits (x + y < 0) (x + y).natAbs 1

def sub (x y : Binary64) : Binary64 := x.add y.neg

def mul : Binary64 → Binary64 → Binary64
  | .nan, _ => .nan
  | _, .nan => .nan
  | .infinity s, .infinity t => .infinity (s != t)
  | .infinity s, .finite t q => if q.val = 0 then .nan else .infinity (s != t)
  | .finite s r, .infinity t => if r.val = 0 then .nan else .infinity (s != t)
  | .finite s r, .finite t q => ofUnits (s != t) (units r * units q) unitsPerOne

/-- Quotient; a nonzero number over zero is infinite. -/
def div : Binary64 → Binary64 → Binary64
  | .nan, _ => .nan
  | _, .nan => .nan
  | .infinity _, .infinity _ => .nan
  | .infinity s, .finite t _ => .infinity (s != t)
  | .finite s _, .infinity t => zero (s != t)
  | .finite s r, .finite t q =>
    if q.val = 0 then (if r.val = 0 then .nan else .infinity (s != t))
    else ofUnits (s != t) (units r * unitsPerOne) (units q)

/-- The exact value rounded to a number of decimal places, a half going to the
even neighbour; the sign stays, also on a result of zero. -/
def roundPlaces (places : Nat) : Binary64 → Binary64
  | .finite s r =>
    ofUnits s (roundHalfEven (units r * Nat.pow 10 places) unitsPerOne * unitsPerOne)
      (Nat.pow 10 places)
  | x => x

/-- Whole part, cut toward zero; `none` off the finite numbers. -/
def truncate? : Binary64 → Option Int
  | .finite s r =>
    let n : Int := (units r / unitsPerOne : Nat)
    some (if s then -n else n)
  | _ => none

/-- Greatest integer at most the number; `none` off the finite numbers. -/
def floor? (x : Binary64) : Option Int := x.signedUnits?.map (· / (unitsPerOne : Int))

/-- A finite number without a fractional part. -/
def isInteger : Binary64 → Bool
  | .finite _ r => units r % unitsPerOne == 0
  | _ => false

def isZero : Binary64 → Bool
  | .finite _ r => r.val == 0
  | _ => false

end Binary64

end PromptShelf
