/-
What metrics say of their events.

A reset forgets all events before it.  After it metrics count, but for the size of the cache, of
which the last one told is kept, and for times, of which the latest are.  So metrics are a tally of
the events since the last reset, whatever was before, and however many there were (`Tally`).

The summary of the times goes through them once, with the best one so far at hand.  It ends with the
first of the best ones; a time that is no number betters no other and is bettered by none.

* **`tally_run`** — metrics are a tally of what they were told;
* **`best_foldl`** — going through samples ends with the first of the best ones;
* **`run_tallies`** — counts, times, summary and ratio, all by the events since the last reset.
-/
import PromptShelf.Proofs.Metrics.Window
import PromptShelf.Proofs.Number.Rounding

namespace PromptShelf.Metrics

deriving instance DecidableEq for Event

/-- Metrics after some events. -/
def run (startedAt : Binary64) (events : List Event) : Metrics := events.foldl apply { startedAt }

/-- The events after the last reset, all of them if there is none. -/
def sinceReset (events : List Event) : List Event := events.rtakeWhile (· ≠ .reset)

/-- The time that a read took, if the event tells one. -/
def Event.time? : Event → Option Binary64
  | .load milliseconds => some milliseconds
  | _ => none

def Event.size? : Event → Option Int
  | .cacheSize size => some size
  | _ => none

/-- The metrics count the events and keep the last size and the latest times. -/
structure Tally (m : Metrics) (events : List Event) : Prop where
  hits : m.hits = events.count .hit
  misses : m.misses = events.count .miss
  coalesced : m.coalesced = events.count .coalesced
  errors : m.errors = events.count .error
  cacheSize : m.cacheSize = (events.filterMap Event.size?).getLast?.getD 0
  samples : m.samples = latest (events.filterMap Event.time?)

/-! ### Counts, sizes and times -/

theorem tally_nil (startedAt : Binary64) : Tally { startedAt } [] :=
  ⟨rfl, rfl, rfl, rfl, rfl, rfl⟩

/-- Every event but a reset is added to the tally. -/
theorem Tally.apply {m : Metrics} {events : List Event} (h : Tally m events) {e : Event}
    (he : e ≠ .reset) : Tally (m.apply e) (events ++ [e]) := by
  obtain ⟨hhits, hmisses, hcoalesced, herrors, hsize, hsamples⟩ := h
  cases e with
  | reset => exact absurd rfl he
  | hit | miss | coalesced | error =>
    constructor <;> simp [Metrics.apply, hhits, hmisses, hcoalesced, herrors, hsize, hsamples,
      List.filterMap_cons, Event.size?, Event.time?]
  | cacheSize size =>
    constructor <;> simp [Metrics.apply, hhits, hmisses, hcoalesced, herrors, hsamples,
      List.filterMap_cons, Event.size?, Event.time?]
  | load milliseconds =>
    constructor <;> simp [Metrics.apply, hhits, hmisses, hcoalesced, herrors, hsize, hsamples,
      record_latest, List.filterMap_cons, Event.size?, Event.time?]

theorem tally_run (startedAt : Binary64) (events : List Event) :
    Tally (run startedAt events) (sinceReset events) := by
  induction events using List.reverseRecOn with
  | nil => exact tally_nil startedAt
  | append_singleton events e ih =>
    have hrun : run startedAt (events ++ [e]) = (run startedAt events).apply e := by
      rw [run, List.foldl_append]
      rfl
    rw [hrun, sinceReset]
    by_cases he : e = .reset
    · subst he
      rw [List.rtakeWhile_concat_neg _ _ _ (by simp)]
      exact tally_nil _
    · rw [List.rtakeWhile_concat_pos _ _ _ (by simpa using he)]
      exact ih.apply he

/-! ### The summary of times -/

/-- The first of some samples that no other one betters, and zero if there are none.  A sample that
is no number betters no other and is passed over, unless it is the first. -/
inductive Best (betters : Binary64 → Binary64 → Bool) : List Binary64 → Binary64 → Prop
  | none : Best betters [] (.zero false)
  | some {earlier later : List Binary64} {x : Binary64}
      (hearlier : ∀ y ∈ earlier, y = .nan ∨ betters x y = true)
      (hlater : ∀ y ∈ later, betters y x = false) (hfirst : earlier.head? ≠ some .nan) :
      Best betters (earlier ++ x :: later) x

/-- Numbers are in an order by what betters what. -/
structure Ranks (betters : Binary64 → Binary64 → Bool) : Prop where
  nan : ∀ x, betters x .nan = false
  trans : ∀ {x y z}, betters x y = true → betters y z = true → betters x z = true
  of_not : ∀ {x y z}, betters x y = true → betters z y = false → z = .nan ∨ betters x z = true

theorem place?_eq_none_iff {x : Binary64} : x.place? = none ↔ x = .nan := by
  cases x with
  | nan => exact iff_of_true rfl rfl
  | infinity negative | finite negative => cases negative <;> simp [Binary64.place?]

theorem lt_iff {x y : Binary64} :
    x.lt y = true ↔ ∃ a b, x.place? = some a ∧ y.place? = some b ∧ a < b := by
  rw [Binary64.lt]
  cases x.place? with
  | none => simp
  | some a => cases y.place? <;> simp

/-- A number that is less than another one is less than a third or the third is less than it. -/
theorem lt_or_lt {x y z : Binary64} (h : x.lt y = true) (hz : z ≠ .nan) :
    x.lt z = true ∨ z.lt y = true := by
  obtain ⟨a, b, hx, hy, hlt⟩ := lt_iff.mp h
  obtain ⟨c, hc⟩ := Option.ne_none_iff_exists'.mp fun hnone => hz (place?_eq_none_iff.mp hnone)
  rcases Int.lt_or_le a c with hac | hca
  · exact .inl (lt_iff.mpr ⟨a, c, hx, hc, hac⟩)
  · exact .inr (lt_iff.mpr ⟨c, b, hc, hy, by omega⟩)

theorem lt_trans {x y z : Binary64} (h : x.lt y = true) (h' : y.lt z = true) :
    x.lt z = true := by
  obtain ⟨a, b, hx, hy, hlt⟩ := lt_iff.mp h
  obtain ⟨b', c, hy', hz, hlt'⟩ := lt_iff.mp h'
  obtain rfl := Option.some.inj (hy.symm.trans hy')
  exact lt_iff.mpr ⟨a, c, hx, hz, by omega⟩

theorem ranks_less : Ranks Binary64.lt where
  nan x := by rw [Binary64.lt]; cases x.place? <;> rfl
  trans := lt_trans
  of_not {x y z} h hnot := by
    by_cases hz : z = .nan
    · exact .inl hz
    · exact .inr ((lt_or_lt h hz).resolve_right (by simp [hnot]))

theorem ranks_greater : Ranks fun x y => y.lt x where
  nan x := by rw [Binary64.lt]; rfl
  trans h h' := lt_trans h' h
  of_not {x y z} h hnot := by
    by_cases hz : z = .nan
    · exact .inl hz
    · exact .inr ((lt_or_lt h hz).resolve_left (by simp [hnot]))

/-- One more sample is the best if it betters the best one so far, and else nothing changes. -/
theorem Best.concat {betters : Binary64 → Binary64 → Bool} (hranks : Ranks betters)
    {samples : List Binary64} {x : Binary64} (h : Best betters samples x) (hne : samples ≠ [])
    (y : Binary64) : Best betters (samples ++ [y]) (if betters y x then y else x) := by
  cases h with
  | none => exact absurd rfl hne
  | @some earlier later _ hearlier hlater hfirst =>
    cases hy : betters y x with
    | false =>
      rw [if_neg (by simp), List.append_assoc, List.cons_append]
      refine .some hearlier (fun z hz => ?_) hfirst
      rcases List.mem_append.mp hz with hz | hz
      · exact hlater z hz
      · rw [List.mem_singleton.mp hz, hy]
    | true =>
      rw [if_pos rfl]
      refine .some (fun z hz => ?_) (fun z hz => absurd hz List.not_mem_nil) ?_
      · rcases List.mem_append.mp hz with hz | hz
        · exact (hearlier z hz).imp_right fun hxz => hranks.trans hy hxz
        · rcases List.mem_cons.mp hz with rfl | hz
          · exact .inr hy
          · exact hranks.of_not hy (hlater z hz)
      · -- The first sample is still the same one, and the best so far was a number.
        cases earlier with
        | nil =>
          rintro hnan
          obtain rfl : x = .nan := Option.some.inj hnan
          exact absurd (hy.symm.trans (hranks.nan y)) (by simp)
        | cons => exact hfirst

/-- Going through samples with the best one so far at hand ends with the first of the best. -/
theorem best_foldl {betters : Binary64 → Binary64 → Bool} (h : Ranks betters) (x : Binary64)
    (rest : List Binary64) :
    Best betters (x :: rest) (rest.foldl (fun best y => if betters y best then y else best) x) := by
  induction rest using List.reverseRecOn with
  | nil =>
    show Best betters ([] ++ x :: []) x
    exact .some (by simp) (by simp) (by simp)
  | append_singleton rest y ih =>
    rw [List.foldl_append, List.foldl_cons, List.foldl_nil, ← List.cons_append]
    exact ih.concat h (by simp) y

theorem best_greatest (samples : List Binary64) :
    Best (fun x y => y.lt x) samples (greatest samples) := by
  cases samples with
  | nil => exact .none
  | cons x rest => exact best_foldl ranks_greater x rest

theorem best_least (samples : List Binary64) : Best Binary64.lt samples (least samples) := by
  cases samples with
  | nil => exact .none
  | cons x rest => exact best_foldl ranks_less x rest

/-- Metrics by the events since the last reset, whatever there was before.  Hits, misses, joined
reads and errors are counted, and the size of the cache is the last one told, zero if there was
none.  The samples are the last times, in order, all of them up to a thousand; the summary says how
many these are, and which is the first of the greatest and of the least, to two places.  The ratio
is zero before the first lookup, and then the double nearest to the share of lookups that were hits
or joined a read, which is all but the misses. -/
theorem run_tallies (startedAt : Binary64) (events : List Event) :
    let m := run startedAt events
    let recent := sinceReset events
    let times := recent.filterMap Event.time?
    let saved := recent.count .hit + recent.count .coalesced
    let lookups := saved + recent.count .miss
    (m.hits = recent.count .hit ∧ m.misses = recent.count .miss ∧
        m.coalesced = recent.count .coalesced ∧ m.errors = recent.count .error ∧
        m.cacheSize = (recent.filterMap Event.size?).getLast?.getD 0) ∧
      (m.samples <:+ times ∧ m.samples.length = min times.length 1000) ∧
      (∃ greatest least,
        m.latency = report [("count", .int (min times.length 1000 : Nat)),
          ("avg", .float ((mean m.samples).roundPlaces 2)),
          ("max", .float (greatest.roundPlaces 2)), ("min", .float (least.roundPlaces 2))] ∧
        Best (fun x y => y.lt x) m.samples greatest ∧ Best Binary64.lt m.samples least) ∧
      (lookups = 0 ∧ m.hitRatio = .zero false ∨
        0 < lookups ∧ m.hitRatio.IsNearest (saved / lookups) ∧
          (saved / lookups : ℚ) = 1 - recent.count .miss / lookups ∧
          (0 : ℚ) ≤ saved / lookups ∧ (saved / lookups : ℚ) ≤ 1) := by
  intro m recent times saved lookups
  have h : Tally m recent := tally_run startedAt events
  have hlength : m.samples.length = min times.length 1000 := by
    rw [h.samples]
    exact length_latest times
  have hsaved : m.hits + m.coalesced = saved := by rw [h.hits, h.coalesced]
  have hlookups : m.lookups = lookups := by
    rw [Metrics.lookups, Nat.add_right_comm, hsaved, h.misses]
  refine ⟨⟨h.hits, h.misses, h.coalesced, h.errors, h.cacheSize⟩,
    ⟨h.samples ▸ latest_suffix times, hlength⟩,
    ⟨greatest m.samples, least m.samples, ?_, best_greatest m.samples, best_least m.samples⟩, ?_⟩
  · rw [latency, hlength]
  · rcases Nat.eq_zero_or_pos lookups with hzero | hpos
    · exact .inl ⟨hzero, by rw [hitRatio, if_pos (hlookups.trans hzero)]⟩
    · have hcast : (0 : ℚ) < lookups := Nat.cast_pos.mpr hpos
      have hle : saved ≤ lookups := Nat.le_add_right _ _
      have hsum : (lookups : ℚ) = saved + recent.count .miss := Nat.cast_add _ _
      refine .inr ⟨hpos, ?_, ?_, div_nonneg (Nat.cast_nonneg _) hcast.le,
        (div_le_one₀ hcast).mpr (Nat.cast_le.mpr hle)⟩
      · rw [hitRatio, if_neg (hlookups ▸ hpos.ne'), hsaved, hlookups]
        exact Binary64.isNearest_ofRatio hpos hle
      · rw [eq_sub_iff_add_eq, ← add_div, ← hsum, div_self hcast.ne']

end PromptShelf.Metrics
