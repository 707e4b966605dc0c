/-
Decimal numerals of doubles.

The numeral of a double is its *shortest* one: of all decimals that read back as
the same double, one with the fewest digits, and of those the one nearest to the
double's value, an exact tie going to the even last digit.  It is searched for
directly: grids of powers of ten are tried from coarse to fine, on each the two
neighbours of the value are read back, and the first grid with a hit wins
(`shortest`).  A grid of 17 digits always has one; the exact expansion stands
behind it, so the search is total and its result reads back in every case.

Two notations are written from it:

* **`plain`** — positional notation without an exponent, `0.0000001`, and `2` for
  a whole number, whose digits are exact;
* **`general`** — positional between 10⁻⁴ and 10¹⁶ with at least one place, else
  one digit before the point and a signed exponent of at least two digits.

`parse?` reads both, and every other numeral with a sign, a point and an exponent.
-/
import PromptShelf.Number.Binary64

namespace PromptShelf

/-- The non-negative number `coefficient · 10^exponent`. -/
structure Decimal where
  coefficient : Nat
  exponent : Int
  deriving DecidableEq

namespace Decimal

/-- Decimal digits of a natural, the most significant first. -/
def digits (n : Nat) : List Char := Nat.toDigits 10 n

def digitValue (c : Char) : Nat := c.toNat - '0'.toNat

def ofDigits (cs : List Char) : Nat := cs.foldl (fun n c => 10 * n + digitValue c) 0

/-- Digits of an integer, however many there are: the limit that an interpreter may set on them is
left out. -/
def ofInt (n : Int) : List Char :=
  if n < 0 then '-' :: digits n.natAbs else digits n.natAbs

/-- Rank of the double nearest to a decimal. -/
def rank (d : Decimal) : Nat :=
  Binary64.roundToRank (d.coefficient * Nat.pow 10 d.exponent.toNat * Binary64.unitsPerOne)
    (Nat.pow 10 (-d.exponent).toNat)

/-- Numerator and denominator of a value in units over a power of ten. -/
def gridQuotient (units : Nat) (exponent : Int) : Nat × Nat :=
  (units * Nat.pow 10 (-exponent).toNat, Binary64.unitsPerOne * Nat.pow 10 exponent.toNat)

/-- The neighbour on the grid `10^exponent` that reads back as the rank `r`, the
nearer one if both do; in the middle the even one is nearer. -/
def onGrid? (r : Nat) (exponent : Int) : Option Nat :=
  let (num, den) := gridQuotient (Binary64.units r) exponent
  let low := num / den
  let near := roundHalfEven num den
  let far := if near = low then low + 1 else low
  if rank ⟨near, exponent⟩ = r then some near
  else if rank ⟨far, exponent⟩ = r then some far
  else none

/-- The exact expansion of a rank: a power of two below one is a power of five
over a power of ten. -/
def exact (r : Nat) : Decimal := ⟨Binary64.units r * Nat.pow 5 1074, -1074⟩

/-- First hit on the grids from `10^exponent` down, `fuel` of them, else `last`. -/
def search (grid? : Int → Option Nat) (last : Decimal) : Nat → Int → Decimal
  | 0, _ => last
  | fuel + 1, exponent =>
    match grid? exponent with
    | some c => ⟨c, exponent⟩
    | none => search grid? last fuel (exponent - 1)

/-- The search ends with a hit or with what stands behind it. -/
theorem search_cases (grid? : Int → Option Nat) (last : Decimal) (fuel : Nat) (exponent : Int) :
    search grid? last fuel exponent = last ∨
      ∃ c e, grid? e = some c ∧ search grid? last fuel exponent = ⟨c, e⟩ := by
  induction fuel generalizing exponent with
  | zero => exact .inl rfl
  | succ fuel ih =>
    rw [search]
    split
    · next c hc => exact .inr ⟨c, exponent, hc, rfl⟩
    · exact ih (exponent - 1)

/-- A power of ten above the value of a rank, by at most a thousandfold:
a factor of two is less than 0.30103 decimal places. -/
def topExponent (r : Nat) : Int :=
  (((Binary64.units r).log2 : Int) + 1 - 1074) * 30103 / 100000 + 2

/-- The shortest decimal that reads back as the rank. -/
def shortest (r : Nat) : Decimal := search (onGrid? r) (exact r) 21 (topExponent r)

/-- Positional notation with the fractional digits the decimal has. -/
def positional (d : Decimal) : List Char :=
  let ds := digits d.coefficient
  let point : Int := ds.length + d.exponent
  if 0 ≤ d.exponent then ds ++ List.replicate d.exponent.toNat '0'
  else if point ≤ 0 then '0' :: '.' :: (List.replicate (-point).toNat '0' ++ ds)
  else ds.take point.toNat ++ '.' :: ds.drop point.toNat

/-- An exponent: its sign always, two digits at least. -/
def exponentText (e : Int) : List Char :=
  let ds := digits e.natAbs
  'e' :: (if e < 0 then '-' else '+') :: (if ds.length < 2 then '0' :: ds else ds)

/-- One digit before the point, none after it if there are no more digits. -/
def scientific (d : Decimal) : List Char :=
  let ds := digits d.coefficient
  let e : Int := ds.length - 1 + d.exponent
  match ds with
  | [] => []
  | [c] => c :: exponentText e
  | c :: rest => c :: '.' :: (rest ++ exponentText e)

/-- Positional between 10⁻⁴ and 10¹⁶, with a place after the point. -/
def general (d : Decimal) : List Char :=
  let lead : Int := (digits d.coefficient).length - 1 + d.exponent
  if lead < -4 ∨ 16 ≤ lead then d.scientific
  else if 0 ≤ d.exponent then d.positional ++ ['.', '0']
  else d.positional

/-- Longest run of digits at the front, and the rest. -/
def splitDigits (cs : List Char) : List Char × List Char :=
  (cs.takeWhile Char.isDigit, cs.dropWhile Char.isDigit)

/-- Exponent part of a numeral: empty, or a mark, an optional sign and digits. -/
def parseExponent? : List Char → Option Int
  | [] => some 0
  | mark :: rest =>
    if mark ≠ 'e' ∧ mark ≠ 'E' then none
    else
      let (negative, ds) := match rest with
        | '-' :: ds => (true, ds)
        | '+' :: ds => (false, ds)
        | ds => (false, ds)
      if ds.isEmpty ∨ ds.any (!·.isDigit) then none
      else some (if negative then -(ofDigits ds : Int) else ofDigits ds)

/-- Reads digits, an optional point with more digits, an optional exponent. -/
def parse? (cs : List Char) : Option Decimal :=
  let (whole, rest) := splitDigits cs
  let (places, rest) := match rest with
    | '.' :: rest => splitDigits rest
    | rest => ([], rest)
  if whole.isEmpty ∧ places.isEmpty then none
  else (parseExponent? rest).map fun e => ⟨ofDigits (whole ++ places), e - places.length⟩

end Decimal

namespace Binary64

/-- Reads a signed numeral, or the names of the numbers that have none. -/
def parse? (s : String) : Option Binary64 :=
  let (negative, cs) := match s.toList with
    | '-' :: cs => (true, cs)
    | '+' :: cs => (false, cs)
    | cs => (false, cs)
  if cs = ['n', 'a', 'n'] then some .nan
  else if cs = ['i', 'n', 'f'] then some (.infinity negative)
  else (Decimal.parse? cs).map fun d => ofDecimal negative d.coefficient d.exponent

/-- The general notation with its sign; zero has one place, too. -/
def general : Binary64 → String
  | .nan => "nan"
  | .infinity false => "inf"
  | .infinity true => "-inf"
  | .finite s r =>
    let body := if r.val = 0 then ['0', '.', '0'] else (Decimal.shortest r).general
    String.ofList (if s then '-' :: body else body)

/-- Plain notation of a finite number: a whole number by its exact digits, any
other by its shortest decimal, never with an exponent; zero has no sign. -/
def plain? : Binary64 → Option String
  | .finite s r =>
    let body :=
      if units r % unitsPerOne = 0 then Decimal.digits (units r / unitsPerOne)
      else (Decimal.shortest r).positional
    some (String.ofList (if s ∧ r.val ≠ 0 then '-' :: body else body))
  | _ => none

end Binary64

end PromptShelf
