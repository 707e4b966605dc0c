/-
The times that metrics keep.

Of the times of all reads the latest are kept, as many as there is room for.  To add one more to
what is kept is the same as to add it to all of them and keep the latest of these, so what is kept
does not depend on when times were dropped.

* **`record_latest`** — adding a time to the latest ones gives the latest ones;
* **`latest_suffix`**, **`length_latest`** — these are the end of all times, of the length there is
  room for.
-/
import Mathlib.Data.List.DropRight
import PromptShelf.Metrics

namespace PromptShelf.Metrics

/-- The last of some times, as many as are kept. -/
def latest (times : List Binary64) : List Binary64 := times.rtake maxSamples

theorem record_latest (times : List Binary64) (milliseconds : Binary64) :
    record (latest times) milliseconds = latest (times ++ [milliseconds]) := by
  rw [record, latest, latest, List.rtake, List.rtake]
  generalize maxSamples = room
  rcases Nat.le_total times.length room with hle | hge
  · rw [Nat.sub_eq_zero_of_le hle, List.drop_zero]
  · -- One time too many is the oldest one.
    have hlength : (times.drop (times.length - room) ++ [milliseconds]).length = room + 1 := by
      rw [List.length_append, List.length_drop, List.length_singleton]
      omega
    rw [hlength, ← List.drop_append_of_le_length (by omega), List.drop_drop, List.length_append,
      List.length_singleton]
    congr 1
    omega

theorem latest_of_length_le {times : List Binary64} (h : times.length ≤ maxSamples) :
    latest times = times := by
  rw [latest, List.rtake, Nat.sub_eq_zero_of_le h, List.drop_zero]

theorem latest_suffix (times : List Binary64) : latest times <:+ times := List.drop_suffix _ _

theorem length_latest (times : List Binary64) :
    (latest times).length = min times.length maxSamples := by
  rw [latest, List.rtake, List.length_drop]
  omega

theorem length_record (samples : List Binary64) (milliseconds : Binary64) :
    (record samples milliseconds).length = min (samples.length + 1) maxSamples := by
  rw [record, List.length_drop, List.length_append, List.length_singleton]
  omega

theorem length_samples_apply {m : Metrics} (h : m.samples.length ≤ maxSamples) (e : Event) :
    (m.apply e).samples.length ≤ maxSamples := by
  cases e with
  | hit | miss | coalesced | error | cacheSize => exact h
  | load milliseconds =>
    simp only [apply, length_record]
    exact Nat.min_le_right ..
  | reset => exact Nat.zero_le _

end PromptShelf.Metrics
