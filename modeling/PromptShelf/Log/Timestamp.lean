/-
Times of log records.

A time is counted in seconds from the beginning of 1970 and written as date and time
of day, in the calendar extended to earlier and later years, with the milliseconds after
a comma.  Years are held in 32 bits, so times too far away have no text (`TimeError`).

Seconds and milliseconds are values of any type: seconds are integers or doubles, and of
a double only the whole part below it counts; milliseconds are any number.
-/
import PromptShelf.Log.Arguments

namespace PromptShelf.Log

/-- Days from the first of March of the year zero to the beginning of 1970. -/
def epochDays : Int := 719468

/-- A date. -/
structure Date where
  year : Int
  month : Int
  day : Int
  deriving DecidableEq

/-- The date some days after the beginning of 1970.  Years are counted from March on,
so a leap day is the last day of its year. -/
def Date.ofDays (days : Int) : Date :=
  let z := days + epochDays
  let era := z / 146097
  let dayOfEra := z - era * 146097
  let yearOfEra :=
    (dayOfEra - dayOfEra / 1460 + dayOfEra / 36524 - dayOfEra / 146096) / 365
  let dayOfYear := dayOfEra - (365 * yearOfEra + yearOfEra / 4 - yearOfEra / 100)
  let monthFromMarch := (5 * dayOfYear + 2) / 153
  let day := dayOfYear - (153 * monthFromMarch + 2) / 5 + 1
  let month := if monthFromMarch < 10 then monthFromMarch + 3 else monthFromMarch - 9
  ⟨yearOfEra + era * 400 + (if month ≤ 2 then 1 else 0), month, day⟩

example : Date.ofDays 0 = ⟨1970, 1, 1⟩ := by decide
example : Date.ofDays 11016 = ⟨2000, 2, 29⟩ := by decide
example : Date.ofDays (-1) = ⟨1969, 12, 31⟩ := by decide

/-- A number with zeros before it up to a width, its sign counted. -/
def padded (width : Nat) (n : Int) : List Char :=
  let ds := Decimal.digits n.natAbs
  if n < 0 then '-' :: (List.replicate (width - 1 - ds.length) '0' ++ ds)
  else List.replicate (width - ds.length) '0' ++ ds

/-- Date and time of day at a second. -/
def secondText (seconds : Int) : List Char :=
  let date := Date.ofDays (seconds / 86400)
  let ofDay := seconds % 86400
  Decimal.ofInt date.year ++ '-' :: padded 2 date.month ++ '-' :: padded 2 date.day ++
    ' ' :: padded 2 (ofDay / 3600) ++ ':' :: padded 2 (ofDay / 60 % 60) ++
    ':' :: padded 2 (ofDay % 60)

/-- Why a time has no text: it is none in seconds or no number, it is more seconds than 64
bits can count, its year is none of the calendar or does not fit in 32 bits, or its
milliseconds are no number. -/
inductive TimeError
  | notSeconds (kind : String)
  | notANumber
  | tooManySeconds
  | noCalendarYear
  | yearTooLarge
  | milliseconds (cause : ArgumentError)
  deriving DecidableEq

namespace TimeError

def name : TimeError → String
  | .notSeconds _ => "TypeError"
  | .notANumber => "ValueError"
  | .tooManySeconds => "OverflowError"
  | .noCalendarYear => "OSError"
  | .yearTooLarge => "OverflowError"
  | .milliseconds cause => cause.name

/-- The error in words; of a year that the calendar lacks only the kind of error is
known. -/
def message : TimeError → String
  | .notSeconds kind => "'" ++ kind ++ "' object cannot be interpreted as an integer"
  | .notANumber => "Invalid value NaN (not a number)"
  | .tooManySeconds => "timestamp out of range for platform time_t"
  | .noCalendarYear => ""
  | .yearTooLarge => "signed integer is greater than maximum"
  | .milliseconds cause => cause.message

end TimeError

/-- The number fits in a signed word of some bits. -/
def fitsBits (bits : Nat) (n : Int) : Bool :=
  let bound := Int.ofNat (Nat.pow 2 (bits - 1))
  decide (-bound ≤ n ∧ n < bound)

/-- The greatest whole number of seconds that is not above a value. -/
def wholeSeconds : Value → Except TimeError Int
  | .int n => .ok n
  | .bool b => .ok (if b then 1 else 0)
  | .float .nan => .error .notANumber
  | .float x =>
    match x.floor? with
    | some n => .ok n
    | none => .error .tooManySeconds
  | v => .error (.notSeconds v.qualifiedKind)

/-- The second a time is in, if its year can be counted both from 1900 and from zero. -/
def secondOf (seconds : Value) : Except TimeError Int := do
  let n ← wholeSeconds seconds
  let year := (Date.ofDays (n / 86400)).year
  if !fitsBits 64 n then throw .tooManySeconds
  else if !fitsBits 32 (year - 1900) then throw .noCalendarYear
  else if !fitsBits 32 year then throw .yearTooLarge
  else return n

/-- The text of a time in seconds, with milliseconds of their own. -/
def timestamp (seconds milliseconds : Value) : Except TimeError String := do
  let n ← secondOf seconds
  match wholePart milliseconds with
  | .ok m => return String.ofList (secondText n ++ ',' :: padded 3 m)
  | .error cause => throw (.milliseconds cause)

end PromptShelf.Log
