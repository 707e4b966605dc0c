/-
What the loader counts and measures.

Lookups are counted by how they were answered, from the cache, by a read of their
own or by joining another one's, and reads without a text as errors.  Of the times
that reads took the last thousand are kept (`record`).  `apply` says what each event
does; a reset forgets everything but the start.

Ratios and means are rounded doubles: one division of the exact sums' double, and
sums are added up from left to right.
-/
import PromptShelf.Value.Basic

namespace PromptShelf

/-- Counts, and the times of the last reads in milliseconds, the latest at the end. -/
structure Metrics where
  startedAt : Binary64
  hits : Nat := 0
  misses : Nat := 0
  coalesced : Nat := 0
  errors : Nat := 0
  cacheSize : Int := 0
  samples : List Binary64 := []

namespace Metrics

/-- What metrics are told. -/
inductive Event
  | hit
  | miss
  | coalesced
  | error
  | load (milliseconds : Binary64)
  | cacheSize (size : Int)
  | reset

/-- Most times that are kept. -/
def maxSamples : Nat := 1000

/-- A time added to the others, the oldest leaving when there are too many. -/
def record (samples : List Binary64) (milliseconds : Binary64) : List Binary64 :=
  let longer := samples ++ [milliseconds]
  longer.drop (longer.length - maxSamples)

def apply (m : Metrics) : Event → Metrics
  | .hit => { m with hits := m.hits + 1 }
  | .miss => { m with misses := m.misses + 1 }
  | .coalesced => { m with coalesced := m.coalesced + 1 }
  | .error => { m with errors := m.errors + 1 }
  | .load milliseconds => { m with samples := record m.samples milliseconds }
  | .cacheSize size => { m with cacheSize := size }
  | .reset => { startedAt := m.startedAt }

def lookups (m : Metrics) : Nat := m.hits + m.misses + m.coalesced

theorem lookups_hit (m : Metrics) : (m.apply .hit).lookups = m.lookups + 1 := by
  simp only [apply, lookups]
  omega

theorem lookups_miss (m : Metrics) : (m.apply .miss).lookups = m.lookups + 1 := by
  simp only [apply, lookups]
  omega

theorem lookups_coalesced (m : Metrics) : (m.apply .coalesced).lookups = m.lookups + 1 := rfl

/-- Share of lookups answered without a read of their own; zero before the first. -/
def hitRatio (m : Metrics) : Binary64 :=
  if m.lookups = 0 then .zero false else .ofRatio (m.hits + m.coalesced) m.lookups

def sum (samples : List Binary64) : Binary64 := samples.foldl .add (.zero false)

/-- The first of the greatest samples; a sample that is no number is passed over
unless it is the first. -/
def greatest (samples : List Binary64) : Binary64 :=
  match samples with
  | [] => .zero false
  | x :: rest => rest.foldl (fun best y => if best.lt y then y else best) x

/-- The first of the least samples. -/
def least (samples : List Binary64) : Binary64 :=
  match samples with
  | [] => .zero false
  | x :: rest => rest.foldl (fun best y => if y.lt best then y else best) x

def mean (samples : List Binary64) : Binary64 :=
  if samples.isEmpty then .zero false else (sum samples).div (.ofNat samples.length)

def report (fields : List (String × Value)) : Value :=
  .dict (fields.map fun f => (.text f.1, f.2))

/-- Number, mean, greatest and least of the times kept, to two places. -/
def latency (m : Metrics) : Value :=
  report [("count", .int m.samples.length),
    ("avg", .float ((mean m.samples).roundPlaces 2)),
    ("max", .float ((greatest m.samples).roundPlaces 2)),
    ("min", .float ((least m.samples).roundPlaces 2))]

def snapshot (m : Metrics) (now : Binary64) : Value :=
  report [("uptime_seconds", .float ((now.sub m.startedAt).roundPlaces 1)),
    ("cache", report [("hits", .int m.hits), ("misses", .int m.misses),
      ("coalesced", .int m.coalesced), ("errors", .int m.errors), ("size", .int m.cacheSize),
      ("hit_ratio", .float (m.hitRatio.roundPlaces 4))]),
    ("load_ms", m.latency)]

end Metrics

end PromptShelf
