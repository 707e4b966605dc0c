/-
One read of a key at a time.

A read is open from its start until its end is announced.  `SingleFlight` says that the
keys in flight are those of the open reads, each with its own read: a key is taken into
the flight when its read starts, which happens only while no read of it is open, and it
leaves when that read is announced.

* **`singleFlight_run`** — this holds in every state that can be reached;
* **`single_flight`** — so at most one read of a key runs, the flight leads to it, and
  nothing stays in flight once every read is announced.
-/
import Mathlib.Data.List.Nodup
import PromptShelf.Proofs.Loader.Moves

namespace PromptShelf

/-- The reader has not answered yet. -/
def Stage.IsRunning : Stage → Prop
  | .queued => True
  | .running _ => True
  | _ => False

/-- The reader has answered, and this is still to be announced. -/
def Stage.IsEnded : Stage → Prop
  | .ended _ => True
  | _ => False

/-- The end of the read is still to be announced, whether it has come or not. -/
def Stage.IsOpen (stage : Stage) : Prop := stage.IsRunning ∨ stage.IsEnded

theorem Stage.isOpen_queued : Stage.IsOpen .queued := .inl trivial

theorem Stage.isOpen_running (since : Binary64) : Stage.IsOpen (.running since) := .inl trivial

theorem Stage.isOpen_ended (answer : Answer) : Stage.IsOpen (.ended answer) := .inr trivial

theorem Stage.not_isOpen_announced (answer : Answer) : ¬ Stage.IsOpen (.announced answer) := by
  rintro (h | h)
  · exact h
  · exact h

namespace Loader

/-- The keys in flight are those of the open reads, each once. -/
structure SingleFlight (s : State) : Prop where
  nodup : (s.inFlight.map Prod.fst).Nodup
  mem_iff : ∀ key i, (key, i) ∈ s.inFlight ↔
    ∃ r, s.read? i = some r ∧ r.key = key ∧ r.stage.IsOpen

namespace SingleFlight

variable {s : State}

theorem eq_of_mem (h : SingleFlight s) {key : String} {i j : Nat} (hi : (key, i) ∈ s.inFlight)
    (hj : (key, j) ∈ s.inFlight) : i = j :=
  congrArg Prod.snd (List.inj_on_of_nodup_map h.nodup hi hj rfl)

theorem lookup_iff (h : SingleFlight s) {key : String} {i : Nat} :
    s.inFlight.lookup key = some i ↔
      ∃ r, s.read? i = some r ∧ r.key = key ∧ r.stage.IsOpen := by
  rw [← h.mem_iff]
  constructor
  · intro hlookup
    obtain ⟨before, after, heq, -⟩ := List.lookup_eq_some_iff.mp hlookup
    rw [heq]
    simp
  · intro hmem
    cases hlookup : s.inFlight.lookup key with
    | none =>
      have hne := List.lookup_eq_none_iff.mp hlookup (key, i) hmem
      exact absurd hne (by simp)
    | some j =>
      obtain ⟨before, after, heq, -⟩ := List.lookup_eq_some_iff.mp hlookup
      have hj : (key, j) ∈ s.inFlight := by
        rw [heq]
        simp
      rw [h.eq_of_mem hj hmem]

theorem initial (cache : Cache) (now : Binary64) :
    SingleFlight { State.initial now with cache := cache } := by
  refine ⟨List.nodup_nil, fun key i => ?_⟩
  simp [State.initial, State.read?]

/-- A read that stays open keeps its place in the flight. -/
theorem set_isOpen (h : SingleFlight s) {i : Nat} {key path : String} {stage stage' : Stage}
    (hread : s.read? i = some ⟨key, path, stage⟩) (hopen : stage.IsOpen) (hopen' : stage'.IsOpen)
    {t : State} (hreads : t.reads = s.reads.set i ⟨key, path, stage'⟩)
    (hflight : t.inFlight = s.inFlight) : SingleFlight t := by
  refine ⟨hflight ▸ h.nodup, fun key' j => ?_⟩
  rw [hflight, h.mem_iff, State.read?, State.read?, hreads, getElem?_set_of_some hread]
  by_cases hj : i = j
  · subst hj
    rw [if_pos rfl, show s.reads[i]? = some _ from hread]
    simp [hopen, hopen']
  · rw [if_neg hj]

theorem start (h : SingleFlight s) {key path : String} (hfree : s.inFlight.lookup key = none)
    {t : State} (hreads : t.reads = s.reads ++ [⟨key, path, .queued⟩])
    (hflight : t.inFlight = s.inFlight ++ [(key, s.reads.length)]) : SingleFlight t := by
  have hnot : key ∉ s.inFlight.map Prod.fst := by
    intro hmem
    obtain ⟨⟨key', i⟩, hentry, rfl⟩ := List.mem_map.mp hmem
    exact absurd (List.lookup_eq_none_iff.mp hfree _ hentry) (by simp)
  constructor
  · rw [hflight, List.map_append, List.map_singleton, List.nodup_append]
    refine ⟨h.nodup, List.nodup_singleton _, fun key' hmem key'' hnew heq => ?_⟩
    obtain rfl := List.mem_singleton.mp hnew
    exact hnot (heq ▸ hmem)
  · intro key' i
    rw [hflight, List.mem_append, List.mem_singleton, Prod.mk.injEq, h.mem_iff, State.read?,
      State.read?, hreads]
    -- The new read has a number that no read had before.
    rcases Nat.lt_trichotomy i s.reads.length with hlt | rfl | hgt
    · rw [List.getElem?_append_left hlt]
      have hne : i ≠ s.reads.length := by omega
      simp [hne]
    · rw [List.getElem?_concat_length, List.getElem?_eq_none (Nat.le_refl _)]
      simp [Stage.isOpen_queued, eq_comm]
    · rw [List.getElem?_eq_none (by omega), List.getElem?_eq_none (by simp; omega)]
      have hne : i ≠ s.reads.length := by omega
      simp [hne]

theorem announce (h : SingleFlight s) {i : Nat} {key path : String} {answer : Answer}
    (hread : s.read? i = some ⟨key, path, .ended answer⟩) {t : State}
    (hreads : t.reads = s.reads.set i ⟨key, path, .announced answer⟩)
    (hflight : t.inFlight = s.inFlight.filter fun f => f ≠ (key, i)) : SingleFlight t := by
  constructor
  · rw [hflight]
    exact h.nodup.sublist ((List.filter_sublist ..).map Prod.fst)
  · intro key' j
    rw [hflight, List.mem_filter, h.mem_iff, State.read?, State.read?, hreads,
      getElem?_set_of_some hread]
    by_cases hj : i = j
    · subst hj
      rw [if_pos rfl, show s.reads[i]? = some _ from hread]
      simp only [Option.some.injEq, exists_eq_left', decide_eq_true_eq, ne_eq, Prod.mk.injEq]
      constructor
      · rintro ⟨⟨rfl, -⟩, hne⟩
        simp at hne
      · rintro ⟨-, hopen⟩
        exact absurd hopen (Stage.not_isOpen_announced answer)
    · rw [if_neg hj]
      -- Other reads stay in the flight, even one of the same key.
      have hne : (key', j) ≠ (key, i) := fun heq => hj (congrArg Prod.snd heq).symm
      simp [hne]

theorem step (h : SingleFlight s) (l : Loader) (x : Step) : SingleFlight (l.step s x) := by
  generalize ht : l.step s x = t
  have hmove := ht ▸ moves_step l s x
  cases hmove with
  | refused | hit | joined | joinedLate | delivered | cancelled | cleared | advanced =>
    exact ⟨h.nodup, h.mem_iff⟩
  | started _ _ hflight => exact h.start hflight rfl rfl
  | begun hread => exact h.set_isOpen hread Stage.isOpen_queued (Stage.isOpen_running _) rfl rfl
  | stored hread => exact h.set_isOpen hread (Stage.isOpen_running _) (Stage.isOpen_ended _) rfl rfl
  | failed hread => exact h.set_isOpen hread (Stage.isOpen_running _) (Stage.isOpen_ended _) rfl rfl
  | broken hread => exact h.set_isOpen hread (Stage.isOpen_running _) (Stage.isOpen_ended _) rfl rfl
  | announced hread => exact h.announce hread rfl rfl
  | idle => exact h

end SingleFlight

theorem singleFlight_run {s : State} (h : SingleFlight s) (l : Loader) (steps : List Step) :
    SingleFlight (l.run s steps) := by
  induction steps using List.reverseRecOn with
  | nil => exact h
  | append_singleton steps x ih =>
    rw [run_append_singleton]
    exact ih.step l x

/-- In every state that can be reached, whatever was asked, answered, announced, stopped and
cleared in whatever order: no two reads of a key run at once, the flight leads from the key
of a running read to that read, what is in flight is running or waits to be announced, and
when nothing is, the flight is empty. -/
theorem single_flight (l : Loader) (cache : Cache) (now : Binary64) (steps : List Step) :
    let s := l.run { State.initial now with cache := cache } steps
    (∀ i j r r', s.read? i = some r → s.read? j = some r' → r.key = r'.key →
        r.stage.IsRunning → r'.stage.IsRunning → i = j) ∧
      (∀ i r, s.read? i = some r → r.stage.IsRunning → s.inFlight.lookup r.key = some i) ∧
      (s.inFlight.map Prod.fst).Nodup ∧
      (∀ key i, (key, i) ∈ s.inFlight → ∃ r, s.read? i = some r ∧ r.key = key ∧
        (r.stage.IsRunning ∨ r.stage.IsEnded)) ∧
      ((∀ i r, s.read? i = some r → ¬ r.stage.IsRunning ∧ ¬ r.stage.IsEnded) →
        s.inFlight.length = 0) := by
  intro s
  have h : SingleFlight s := singleFlight_run (.initial cache now) l steps
  refine ⟨?_, ?_, h.nodup, ?_, ?_⟩
  · intro i j r r' hi hj hkey hrunning hrunning'
    exact h.eq_of_mem ((h.mem_iff r.key i).mpr ⟨r, hi, rfl, .inl hrunning⟩)
      ((h.mem_iff r.key j).mpr ⟨r', hj, hkey.symm, .inl hrunning'⟩)
  · intro i r hi hrunning
    exact h.lookup_iff.mpr ⟨r, hi, rfl, .inl hrunning⟩
  · intro key i hmem
    exact (h.mem_iff key i).mp hmem
  · intro hquiet
    rw [List.length_eq_zero_iff, List.eq_nil_iff_forall_not_mem]
    rintro ⟨key, i⟩ hmem
    -- Whatever is in flight is open, and there is no open read.
    obtain ⟨r, hi, -, hopen⟩ := (h.mem_iff key i).mp hmem
    rcases hopen with hrunning | hended
    · exact (hquiet i r hi).1 hrunning
    · exact (hquiet i r hi).2 hended

end Loader

end PromptShelf
