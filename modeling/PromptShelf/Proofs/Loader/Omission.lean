/-
Runs without one of their reads.

Leave a read out of a run: its own steps, the calls that ask for its key, and what happens to
their callers (`otherwise`).  The steps that are left make a run of their own, in which all other
reads and callers have numbers without gaps (`rank`).  `Omits` compares the states of the two
runs while the read is open and no text comes of it: they have the same cache, the same other
reads, callers and keys in flight, and of the metrics only the counts of the read and its callers
are apart.

* **`Sifted`** — a list and what is left of it when some places are left out;
* **`Omits.step`** — a step of the longer run goes with the same step of the shorter one, or with
  none;
* **`omits_run`** — so both runs stay comparable as long as the read is open.
-/
import Mathlib.Data.Nat.Count
import PromptShelf.Proofs.Loader.History
import PromptShelf.Proofs.Loader.Isolation
import PromptShelf.Proofs.Metrics.Window

namespace PromptShelf

/-! ### Lists with places left out -/

/-- How many numbers below another are not gone. -/
def rank (gone : Nat → Bool) (n : Nat) : Nat := Nat.count (fun m => gone m = false) n

section Rank

variable {gone : Nat → Bool} {m n : Nat}

theorem rank_succ_of_gone (h : gone n = true) : rank gone (n + 1) = rank gone n := by
  rw [rank, Nat.count_succ, if_neg (by simp [h])]
  rfl

theorem rank_succ_of_left (h : gone n = false) : rank gone (n + 1) = rank gone n + 1 := by
  rw [rank, Nat.count_succ, if_pos h]
  rfl

theorem rank_le_rank (gone : Nat → Bool) (h : m ≤ n) : rank gone m ≤ rank gone n :=
  Nat.count_monotone _ h

theorem rank_lt_rank (hm : gone m = false) (h : m < n) : rank gone m < rank gone n :=
  Nat.count_strict_mono hm h

theorem rank_inj (hm : gone m = false) (hn : gone n = false) (h : rank gone m = rank gone n) :
    m = n :=
  Nat.count_injective hm hn h

theorem rank_eq_self (h : ∀ m < n, gone m = false) : rank gone n = n :=
  Nat.count_iff_forall.mpr h

end Rank

/-- The second list is what is left of the first, with a function applied. -/
structure Sifted {α β : Type} (gone : Nat → Bool) (f : α → β) (xs : List α) (ys : List β) :
    Prop where
  length : ys.length = rank gone xs.length
  getElem? : ∀ n, gone n = false → ys[rank gone n]? = xs[n]?.map f

namespace Sifted

variable {α β : Type} {gone : Nat → Bool} {f : α → β} {xs : List α} {ys : List β}

theorem refl {f : α → α} (hgone : ∀ n < xs.length, gone n = false)
    (hf : ∀ x ∈ xs, f x = x) : Sifted gone f xs xs := by
  refine ⟨(rank_eq_self hgone).symm, fun n hn => ?_⟩
  rcases Nat.lt_or_ge n xs.length with hlt | hge
  · rw [rank_eq_self fun m hm => hgone m (by omega), List.getElem?_eq_getElem hlt, Option.map_some,
      hf _ (List.getElem_mem hlt)]
  · have hrank := rank_le_rank gone hge
    rw [rank_eq_self hgone] at hrank
    rw [List.getElem?_eq_none hge, List.getElem?_eq_none hrank, Option.map_none]

theorem append (h : Sifted gone f xs ys) (hleft : gone xs.length = false) (x : α) :
    Sifted gone f (xs ++ [x]) (ys ++ [f x]) := by
  constructor
  · rw [List.length_append, List.length_append, h.length]
    exact (rank_succ_of_left hleft).symm
  · intro n hn
    rcases Nat.lt_trichotomy n xs.length with hlt | rfl | hgt
    · have hrank := rank_lt_rank hn hlt
      rw [← h.length] at hrank
      rw [List.getElem?_append_left hlt, List.getElem?_append_left hrank, h.getElem? n hn]
    · rw [← h.length, List.getElem?_concat_length, List.getElem?_concat_length, Option.map_some]
    · have hrank := rank_lt_rank hleft hgt
      rw [← h.length] at hrank
      rw [List.getElem?_eq_none (by simp; omega), List.getElem?_eq_none (by simp; omega),
        Option.map_none]

theorem append_gone (h : Sifted gone f xs ys) (hgone : gone xs.length = true) (x : α) :
    Sifted gone f (xs ++ [x]) ys := by
  constructor
  · rw [List.length_append, h.length]
    exact (rank_succ_of_gone hgone).symm
  · intro n hn
    rw [h.getElem? n hn]
    rcases Nat.lt_trichotomy n xs.length with hlt | rfl | hgt
    · rw [List.getElem?_append_left hlt]
    · exact absurd (hgone.symm.trans hn) (by simp)
    · rw [List.getElem?_eq_none (by omega), List.getElem?_eq_none (by simp; omega)]

theorem modify (h : Sifted gone f xs ys) {n : Nat} (hn : gone n = false) {g : α → α} {g' : β → β}
    (hg : ∀ x, xs[n]? = some x → g' (f x) = f (g x)) :
    Sifted gone f (xs.modify n g) (ys.modify (rank gone n) g') := by
  refine ⟨by rw [List.length_modify, List.length_modify, h.length], fun m hm => ?_⟩
  rw [List.getElem?_modify, List.getElem?_modify, h.getElem? m hm]
  by_cases hnm : n = m
  · subst hnm
    cases hx : xs[n]? with
    | none => rfl
    | some x => simp [hg x hx]
  · have hrank : rank gone n ≠ rank gone m := fun heq => hnm (rank_inj hn hm heq)
    simp [hnm, hrank]

theorem set_gone (h : Sifted gone f xs ys) {n : Nat} (hn : gone n = true) (x : α) :
    Sifted gone f (xs.set n x) ys := by
  refine ⟨by rw [List.length_set, h.length], fun m hm => ?_⟩
  have hnm : n ≠ m := by
    rintro rfl
    exact absurd (hn.symm.trans hm) (by simp)
  rw [h.getElem? m hm, List.getElem?_set_ne hnm]

end Sifted

/-! ### Metrics without a read -/

namespace Metrics

/-- The second metrics are the first without a read, with those who joined it and, if it has
failed, its error and its time. -/
structure Omits (joined failed : Nat) (m n : Metrics) : Prop where
  startedAt : m.startedAt = n.startedAt
  hits : m.hits = n.hits
  misses : m.misses = n.misses + 1
  coalesced : m.coalesced = n.coalesced + joined
  errors : m.errors = n.errors + failed
  cacheSize : m.cacheSize = n.cacheSize
  samples : ∃ earlier times later, times.length = failed ∧ n.samples = latest (earlier ++ later) ∧
    m.samples = latest (earlier ++ times ++ later)

namespace Omits

variable {joined failed : Nat} {m n : Metrics}

theorem apply (h : Omits joined failed m n) {e : Event} (he : e ≠ .reset) :
    Omits joined failed (m.apply e) (n.apply e) := by
  cases e with
  | reset => exact absurd rfl he
  | hit => exact { h with hits := congrArg (· + 1) h.hits }
  | miss => exact { h with misses := congrArg (· + 1) h.misses }
  | coalesced =>
    exact { h with coalesced := (congrArg (· + 1) h.coalesced).trans (Nat.add_right_comm ..) }
  | error => exact { h with errors := (congrArg (· + 1) h.errors).trans (Nat.add_right_comm ..) }
  | cacheSize => exact { h with cacheSize := rfl }
  | load milliseconds =>
    obtain ⟨earlier, times, later, htimes, hn, hm⟩ := h.samples
    simp only [Metrics.apply, hn, hm, record_latest, List.append_assoc]
    exact ⟨h.startedAt, h.hits, h.misses, h.coalesced, h.errors, h.cacheSize, earlier, times,
      later ++ [milliseconds], htimes, by dsimp only, by rw [List.append_assoc]⟩

theorem join (h : Omits joined failed m n) : Omits (joined + 1) failed (m.apply .coalesced) n :=
  { h with coalesced := congrArg (· + 1) h.coalesced }

theorem fail (h : Omits joined 0 m n) (milliseconds : Binary64) :
    Omits joined 1 ((m.apply (.load milliseconds)).apply .error) n := by
  obtain ⟨earlier, times, later, htimes, hn, hm⟩ := h.samples
  obtain rfl := List.length_eq_zero_iff.mp htimes
  rw [List.append_nil] at hm
  simp only [Metrics.apply, hm, record_latest]
  exact ⟨h.startedAt, h.hits, h.misses, h.coalesced, congrArg (· + 1) h.errors, h.cacheSize,
    earlier ++ later, [milliseconds], [], rfl, by rw [List.append_nil, hn],
    by rw [List.append_nil]⟩

end Omits

end Metrics

/-- The read is open, and nothing but the result has been answered to it. -/
def Stage.Awaits (r : ReadResult) (stage : Stage) : Prop :=
  stage.IsOpen ∧ ∀ answer, stage.answer? = some answer → answer = .result r

namespace Loader

/-! ### What is left of a run -/

/-- The path is resolved and has the key. -/
def asksFor (l : Loader) (key requested : String) : Bool :=
  match l.resolver.resolve requested with
  | .ok path => l.resolver.key path == key
  | .error _ => false

/-- What a step is to a run without the read `i` and without those who ask for its key: nothing,
or the same step of another read or caller under its new number. -/
def otherwise (l : Loader) (key : String) (i : Nat) (askers : Nat → Bool) : Step → Option Step
  | .call requested => if l.asksFor key requested then none else some (.call requested)
  | .begin j => if j = i then none else some (.begin (rank (· == i) j))
  | .complete j answer => if j = i then none else some (.complete (rank (· == i) j) answer)
  | .announce j => if j = i then none else some (.announce (rank (· == i) j))
  | .deliver c => if askers c then none else some (.deliver (rank askers c))
  | .cancel c => if askers c then none else some (.cancel (rank askers c))
  | .clear => some .clear
  | .advance seconds => some (.advance seconds)

/-- A caller, with the read it waits for under its new number. -/
def renumbered (i : Nat) : Caller → Caller
  | .waiting j => .waiting (rank (· == i) j)
  | .done ending => .done ending

/-- The second state is the first without the read `i` and without those who ask for its key, of
whom some have joined it; the metrics differ by these and by whether the read has failed. -/
structure Omits (i : Nat) (askers : Nat → Bool) (joined failed : Nat) (s t : State) : Prop where
  cache : t.cache = s.cache
  now : t.now = s.now
  reads : Sifted (· == i) id s.reads t.reads
  inFlight : t.inFlight =
    (s.inFlight.filter fun f => f.2 != i).map fun f => (f.1, rank (· == i) f.2)
  callers : Sifted askers (renumbered i) s.callers t.callers
  waiting : ∀ c, askers c = false → s.callers[c]? ≠ some (.waiting i)
  metrics : s.metrics.Omits joined failed t.metrics

/-- The read `i` of a key is open and leads to nothing but the result, and the key has no text. -/
structure Fruitless (key path : String) (i : Nat) (r : ReadResult) (s : State) : Prop where
  flight : SingleFlight s
  uncached : s.cache.get? key = none
  read : ∃ stage, s.read? i = some ⟨key, path, stage⟩ ∧ stage.Awaits r

variable {l : Loader} {s t : State} {key path : String} {i joined failed : Nat}
  {askers : Nat → Bool} {r : ReadResult}

theorem asksFor_iff {requested : String} : l.asksFor key requested = true ↔
    ∃ path, l.resolver.resolve requested = .ok path ∧ l.resolver.key path = key := by
  rw [asksFor]
  cases l.resolver.resolve requested with
  | error e => simp
  | ok path => simp

namespace Omits

/-! ### What may happen to both states -/

theorem read? (h : Omits i askers joined failed s t) {j : Nat} (hj : j ≠ i) :
    t.read? (rank (· == i) j) = s.read? j :=
  (h.reads.getElem? j (by simp [hj])).trans (by rw [Option.map_id, id_eq]; rfl)

theorem answer? (h : Omits i askers joined failed s t) {j : Nat} (hj : j ≠ i) :
    t.answer? (rank (· == i) j) = s.answer? j := by
  rw [State.answer?, State.answer?, h.read? hj]

/-- The log and the reader's list are not compared. -/
theorem noting (h : Omits i askers joined failed s t) (log log' : List Log.Record)
    (requests requests' : List String) :
    Omits i askers joined failed { s with log := log, requests := requests }
      { t with log := log', requests := requests' } :=
  ⟨h.cache, h.now, h.reads, h.inFlight, h.callers, h.waiting, h.metrics⟩

theorem logging (h : Omits i askers joined failed s t) (r r' : Log.Record) :
    Omits i askers joined failed (s.logging r) (t.logging r') :=
  h.noting _ _ _ _

theorem counting (h : Omits i askers joined failed s t) {e : Metrics.Event} (he : e ≠ .reset) :
    Omits i askers joined failed (s.counting e) (t.counting e) :=
  ⟨h.cache, h.now, h.reads, h.inFlight, h.callers, h.waiting, h.metrics.apply he⟩

theorem withCaller (h : Omits i askers joined failed s t)
    (hleft : askers s.callers.length = false) {caller : Caller} (hother : caller ≠ .waiting i) :
    Omits i askers joined failed (s.withCaller caller) (t.withCaller (renumbered i caller)) := by
  refine ⟨h.cache, h.now, h.reads, h.inFlight, h.callers.append hleft caller,
    fun c hc hwaiting => ?_, h.metrics⟩
  rcases getElem?_concat_cases hwaiting with hold | ⟨-, heq⟩
  · exact h.waiting c hc hold
  · exact hother heq

theorem setStage (h : Omits i askers joined failed s t) {j : Nat} (hj : j ≠ i) (stage : Stage) :
    Omits i askers joined failed (s.setStage j stage)
      (t.setStage (rank (· == i) j) stage) :=
  ⟨h.cache, h.now, h.reads.modify (by simp [hj]) fun _ _ => rfl, h.inFlight, h.callers, h.waiting,
    h.metrics⟩

theorem store (h : Omits i askers joined failed s t) (key : String) (r : ReadResult) :
    Omits i askers joined failed (Loader.store s key r) (Loader.store t key r) := by
  rw [Loader.store, Loader.store]
  split
  · have hput : Omits i askers joined failed { s with cache := s.cache.put key (content r) }
        { t with cache := t.cache.put key (content r) } :=
      ⟨by rw [h.cache], h.now, h.reads, h.inFlight, h.callers, h.waiting, h.metrics⟩
    dsimp only
    rw [h.cache] at hput ⊢
    exact (hput.counting (by simp)).logging _ _
  · exact (h.counting (by simp)).logging _ _

theorem modifyCaller (h : Omits i askers joined failed s t) {c : Nat} (hc : askers c = false)
    {f g : Caller → Caller}
    (hg : ∀ caller, caller ≠ .waiting i → g (renumbered i caller) = renumbered i (f caller))
    (hf : ∀ caller, caller ≠ .waiting i → f caller ≠ .waiting i) :
    Omits i askers joined failed (s.withCallers (s.callers.modify c f))
      (t.withCallers (t.callers.modify (rank askers c) g)) := by
  have hother : ∀ d caller, askers d = false → s.callers[d]? = some caller → caller ≠ .waiting i := by
    rintro d caller hd hcaller rfl
    exact h.waiting d hd hcaller
  refine ⟨h.cache, h.now, h.reads, h.inFlight, ?_, fun d hd => ?_, h.metrics⟩
  · exact h.callers.modify hc fun caller hcaller => hg caller (hother c caller hc hcaller)
  · rw [State.withCallers_callers, List.getElem?_modify]
    cases hcaller : s.callers[d]? with
    | none => simp
    | some caller =>
      have hne := hother d caller hd hcaller
      by_cases hcd : c = d
      · simpa [hcd] using hf caller hne
      · simpa [hcd] using hne

/-! ### Other keys in flight -/

theorem lookup (h : Omits i askers joined failed s t) (hs : Fruitless key path i r s)
    {key' : String} (hkey : key' ≠ key) :
    t.inFlight.lookup key' = (s.inFlight.lookup key').map (rank (· == i)) ∧
      s.inFlight.lookup key' ≠ some i := by
  obtain ⟨stage, hread, hopen, -⟩ := hs.read
  -- The read that is left out is in flight under its own key only.
  have hown : ∀ f ∈ s.inFlight, f.2 = i → f.1 = key := by
    rintro ⟨key'', j⟩ hmem rfl
    obtain ⟨r', hr', hkey', -⟩ := (hs.flight.mem_iff key'' j).mp hmem
    obtain rfl := Option.some.inj (hread.symm.trans hr')
    exact hkey'.symm
  rw [h.inFlight]
  generalize s.inFlight = flight at hown
  induction flight with
  | nil => simp
  | cons f rest ih =>
    obtain ⟨key'', j⟩ := f
    obtain ⟨hfirst, hrest⟩ := List.forall_mem_cons.mp hown
    obtain ⟨hlookup, hne⟩ := ih hrest
    by_cases hj : j = i
    · have hother : (key' == key'') = false := by
        rw [show key'' = key from hfirst hj]
        simpa using hkey
      simpa [hj, List.lookup_cons, hother] using ⟨hlookup, hne⟩
    · by_cases hsame : key' = key''
      · simp [hj, hsame]
      · have hother : (key' == key'') = false := by simpa using hsame
        simpa [hj, List.lookup_cons, hother] using ⟨hlookup, hne⟩

/-! ### Steps of others -/

theorem start (h : Omits i askers joined failed s t) (hlt : i < s.reads.length)
    (hleft : askers s.callers.length = false) (key path : String) :
    Omits i askers joined failed (Loader.start s key path) (Loader.start t key path) := by
  have hne : s.reads.length ≠ i := by omega
  have hnew : (s.reads.length == i) = false := by simpa using hne
  have hmiss := h.counting (e := .miss) (by simp)
  have hstarted : Omits i askers joined failed
      { s.counting .miss with
        reads := s.reads ++ [⟨key, path, .queued⟩]
        inFlight := s.inFlight ++ [(key, s.reads.length)] }
      { t.counting .miss with
        reads := t.reads ++ [⟨key, path, .queued⟩]
        inFlight := t.inFlight ++ [(key, t.reads.length)] } := by
    refine ⟨h.cache, h.now, h.reads.append hnew _, ?_, h.callers, h.waiting, hmiss.metrics⟩
    simp [h.inFlight, h.reads.length, List.filter_append, hne]
  have hwaiting : Caller.waiting s.reads.length ≠ .waiting i :=
    fun heq => hne (Caller.waiting.inj heq)
  have hcaller := hstarted.withCaller hleft hwaiting
  rw [renumbered, ← h.reads.length] at hcaller
  exact hcaller

theorem call (h : Omits i askers joined failed s t) (hs : Fruitless key path i r s)
    {requested : String} (hask : l.asksFor key requested = false)
    (hleft : askers s.callers.length = false) :
    Omits i askers joined failed (l.call s requested) (l.call t requested) := by
  rw [Loader.call, Loader.call]
  rw [asksFor] at hask
  cases hresolve : l.resolver.resolve requested with
  | error e => exact h.withCaller hleft (by simp)
  | ok path' =>
    have hkey : l.resolver.key path' ≠ key := by simpa [hresolve] using hask
    dsimp only
    rw [h.cache]
    cases hcache : s.cache.get? (l.resolver.key path') with
    | some text => exact ((h.logging _ _).counting (by simp)).withCaller hleft (by simp)
    | none =>
      obtain ⟨hlookup, hne⟩ := h.lookup hs hkey
      dsimp only
      rw [hlookup]
      cases hflight : s.inFlight.lookup (l.resolver.key path') with
      | none =>
        obtain ⟨_, hread, -⟩ := hs.read
        exact h.start (List.getElem?_eq_some_iff.mp hread).1 hleft _ _
      | some j =>
        have hj : j ≠ i := fun heq => hne (heq ▸ hflight)
        show Omits _ _ _ _ (l.join s _ j) (l.join t _ (rank (· == i) j))
        rw [join_eq, join_eq, h.answer? hj]
        cases s.answer? j with
        | some answer => exact ((h.logging _ _).counting (by simp)).withCaller hleft (by simp)
        | none =>
          refine ((h.logging _ _).counting (by simp)).withCaller hleft fun heq => ?_
          exact hj (Caller.waiting.inj heq)

theorem begin (h : Omits i askers joined failed s t) {j : Nat} (hj : j ≠ i) :
    Omits i askers joined failed (Loader.begin s j) (Loader.begin t (rank (· == i) j)) := by
  rw [begin.eq_def, begin.eq_def, h.read? hj]
  split
  · have hstage : Omits i askers joined failed (s.setStage j (.running s.now))
        (t.setStage (rank (· == i) j) (.running t.now)) := by
      rw [h.now]
      exact h.setStage hj _
    exact hstage.noting _ _ _ _
  · exact h

theorem complete (h : Omits i askers joined failed s t) {j : Nat} (hj : j ≠ i)
    (answer : Answer) :
    Omits i askers joined failed (Loader.complete s j answer)
      (Loader.complete t (rank (· == i) j) answer) := by
  rw [complete.eq_def, complete.eq_def, h.read? hj]
  split
  · have hstage := h.setStage hj (.ended answer)
    cases answer with
    | raised | stopped => exact hstage
    | result r' =>
      show Omits _ _ _ _ (Loader.store (State.counting _ _) _ _)
        (Loader.store (State.counting _ (.load ((t.now.sub _).mul _))) _ _)
      rw [h.now]
      exact (hstage.counting (by simp)).store _ _
  · exact h

theorem announce (h : Omits i askers joined failed s t) {j : Nat} (hj : j ≠ i) :
    Omits i askers joined failed (Loader.announce s j) (Loader.announce t (rank (· == i) j)) := by
  rw [announce.eq_def, announce.eq_def, h.read? hj]
  split
  · rename_i key' _ answer _
    have hstage := h.setStage hj (.announced answer)
    refine ⟨hstage.cache, hstage.now, hstage.reads, ?_, hstage.callers, hstage.waiting,
      hstage.metrics⟩
    -- Of the keys that are left the same one leaves the flight.
    show (t.inFlight.filter fun f => f ≠ (key', rank (· == i) j)) = _
    rw [h.inFlight, List.filter_map, List.filter_filter, List.filter_filter]
    congr 1
    refine List.filter_congr fun f _ => ?_
    by_cases hf : f.2 = i
    · simp [hf]
    · have hrank : rank (· == i) f.2 = rank (· == i) j ↔ f.2 = j :=
        ⟨fun heq => rank_inj (by simp [hf]) (by simp [hj]) heq, fun heq => heq ▸ rfl⟩
      simp [Prod.ext_iff, hrank, Bool.and_comm]
  · exact h

theorem deliver (h : Omits i askers joined failed s t) {c : Nat} (hc : askers c = false) :
    Omits i askers joined failed (l.deliver s c) (l.deliver t (rank askers c)) := by
  rw [deliver_eq, deliver_eq]
  refine h.modifyCaller hc (fun caller hother => ?_) fun caller hother => ?_
  · cases caller with
    | done ending => rfl
    | waiting j =>
      have hj : j ≠ i := fun heq => hother (heq ▸ rfl)
      simp only [renumbered, told, h.read? hj]
      split <;> rfl
  · cases caller with
    | done ending => simp [told]
    | waiting j =>
      rw [told.eq_def]
      dsimp only
      split
      · simp
      · exact hother

theorem cancel (h : Omits i askers joined failed s t) {c : Nat} (hc : askers c = false) :
    Omits i askers joined failed (Loader.cancel s c) (Loader.cancel t (rank askers c)) := by
  rw [cancel_eq, cancel_eq]
  refine h.modifyCaller hc (fun caller _ => ?_) fun caller _ => ?_
  · cases caller <;> rfl
  · cases caller <;> simp [stopped]

theorem clear (h : Omits i askers joined failed s t) :
    Omits i askers joined failed (Loader.clear s) (Loader.clear t) := by
  have hempty : Omits i askers joined failed { s with cache := {} } { t with cache := {} } :=
    ⟨rfl, h.now, h.reads, h.inFlight, h.callers, h.waiting, h.metrics⟩
  exact (hempty.counting (by simp)).logging _ _

theorem advance (h : Omits i askers joined failed s t) (seconds : Binary64) :
    Omits i askers joined failed { s with now := s.now.add seconds }
      { t with now := t.now.add seconds } :=
  ⟨h.cache, by rw [h.now], h.reads, h.inFlight, h.callers, h.waiting, h.metrics⟩

/-! ### Own steps -/

/-- One more of those who are left out joins the read. -/
theorem addJoiner (h : Omits i askers joined failed s t) (hgone : askers s.callers.length = true)
    (caller : Caller) (log : List Log.Record) :
    Omits i askers (joined + 1) failed
      { s with
        callers := s.callers ++ [caller]
        metrics := s.metrics.apply .coalesced
        log := log } t := by
  refine ⟨h.cache, h.now, h.reads, h.inFlight, h.callers.append_gone hgone caller,
    fun c hc hwaiting => ?_, h.metrics.join⟩
  rcases getElem?_concat_cases hwaiting with hold | ⟨rfl, -⟩
  · exact h.waiting c hc hold
  · exact absurd (hgone.symm.trans hc) (by simp)

theorem setCaller (h : Omits i askers joined failed s t) {c : Nat} (hgone : askers c = true)
    (caller : Caller) :
    Omits i askers joined failed { s with callers := s.callers.set c caller } t := by
  refine ⟨h.cache, h.now, h.reads, h.inFlight, h.callers.set_gone hgone caller, fun d hd => ?_,
    h.metrics⟩
  have hne : c ≠ d := by
    rintro rfl
    exact absurd (hgone.symm.trans hd) (by simp)
  rw [List.getElem?_set_ne hne]
  exact h.waiting d hd

theorem setRead (h : Omits i askers joined failed s t) (read : Read) (requests : List String)
    (log : List Log.Record) :
    Omits i askers joined failed
      { s with reads := s.reads.set i read, requests := requests, log := log } t :=
  ⟨h.cache, h.now, h.reads.set_gone (by simp) read, h.inFlight, h.callers, h.waiting, h.metrics⟩

theorem fail (h : Omits i askers joined 0 s t) (read : Read) (milliseconds : Binary64)
    (log : List Log.Record) :
    Omits i askers joined 1
      { s with
        reads := s.reads.set i read
        metrics := (s.metrics.apply (.load milliseconds)).apply .error
        log := log } t :=
  ⟨h.cache, h.now, h.reads.set_gone (by simp) read, h.inFlight, h.callers, h.waiting,
    h.metrics.fail milliseconds⟩

end Omits

/-! ### One step of both runs -/

/-- Whether the reader has answered the read, as a number. -/
def State.answered (s : State) (i : Nat) : Nat := (s.answer? i).isSome.toNat

theorem answered_of_read? {stage : Stage} (h : s.read? i = some ⟨key, path, stage⟩) :
    s.answered i = stage.answer?.isSome.toNat := by
  rw [State.answered, State.answer?, h]
  rfl

theorem answered_set {u : State} {read : Read} (hread : s.read? i = some read) {stage : Stage}
    (hreads : u.reads = s.reads.set i ⟨key, path, stage⟩) :
    u.answered i = stage.answer?.isSome.toNat := by
  have hanswered : u.read? i = some ⟨key, path, stage⟩ := by
    rw [State.read?, hreads]
    exact (getElem?_set_of_some hread _ i).trans (if_pos rfl)
  exact answered_of_read? hanswered

theorem stage_of_set {u : State} {read new : Read} {stage : Stage} (hread : s.read? i = some read)
    (hreads : u.reads = s.reads.set i new) (hnew : u.read? i = some ⟨key, path, stage⟩) :
    stage = new.stage := by
  rcases read?_of_set hread hreads hnew with ⟨-, rfl⟩ | ⟨hne, -⟩
  · rfl
  · exact absurd rfl hne

/-- The reader has not answered a read by a step that is not about it. -/
theorem answered_step_of_ne {x : Step} (hread : ∃ read, s.read? i = some read)
    (hx : ∀ answer, x ≠ .complete i answer) : (l.step s x).answered i = s.answered i := by
  obtain ⟨⟨key, path, stage⟩, hread⟩ := hread
  obtain ⟨stage', hread', hsame | ⟨_, answer, _, rfl, _⟩⟩ := read?_step (l := l) hread x
  · rw [answered_of_read? hread, answered_of_read? hread', hsame]
  · exact absurd rfl (hx answer)

theorem length_callers_step (l : Loader) (s : State) (x : Step) :
    (l.step s x).callers.length = s.callers.length + (requested [x]).length := by
  generalize ht : l.step s x = t
  have hmove := ht ▸ moves_step l s x
  cases hmove with
  | refused | hit | joined | joinedLate | started => exact List.length_append
  | begun | stored | failed | broken | announced | cleared | advanced => rfl
  | delivered | cancelled => exact List.length_set ..
  | idle hcall =>
    rw [requested_of_not_call hcall]
    rfl

theorem length_callers_run (l : Loader) (s : State) (steps : List Step) :
    (l.run s steps).callers.length = s.callers.length + (requested steps).length := by
  induction steps generalizing s with
  | nil => rfl
  | cons x rest ih =>
    have hrequested : requested (x :: rest) = requested [x] ++ requested rest :=
      requested_append [x] rest
    have hrest := ih (l.step s x)
    rw [length_callers_step] at hrest
    rw [hrequested, List.length_append, ← Nat.add_assoc, ← hrest]
    rfl

theorem Fruitless.step (h : Fruitless key path i r s) (hfail : r.status ≠ .ok) {x : Step}
    (hread : ∃ stage, (l.step s x).read? i = some ⟨key, path, stage⟩ ∧ stage.Awaits r) :
    Fruitless key path i r (l.step s x) := by
  refine ⟨h.flight.step l x, ?_, hread⟩
  obtain ⟨old, hold, hopen, -⟩ := h.read
  obtain ⟨stage, hnew, -, hawaits⟩ := hread
  cases hcache : (l.step s x).cache.get? key with
  | none => rfl
  | some text =>
    -- A text could only come from this read, which has none.
    rcases get?_step hcache with hbefore | ⟨j, path', since, r', hrunning, rfl, hok, -⟩
    · exact absurd (h.uncached.symm.trans hbefore) (by simp)
    · obtain rfl : j = i := h.flight.eq_of_mem
        ((h.flight.mem_iff key j).mpr ⟨_, hrunning, rfl, Stage.isOpen_running since⟩)
        ((h.flight.mem_iff key i).mpr ⟨_, hold, rfl, hopen⟩)
      obtain ⟨-, -, rfl⟩ :=
        Read.mk.inj (Option.some.inj ((complete_of_running hrunning r').1.symm.trans hnew))
      obtain rfl := Answer.result.inj (hawaits _ rfl)
      exact absurd hok hfail

theorem Fruitless.lookup (h : Fruitless key path i r s) : s.inFlight.lookup key = some i := by
  obtain ⟨stage, hread, hopen, -⟩ := h.read
  exact h.flight.lookup_iff.mpr ⟨_, hread, rfl, hopen⟩

/-- Who asks for the key of an open read joins it, and waits for it or is told the result at
once. -/
theorem Fruitless.call_eq (h : Fruitless key path i r s) {asked : String}
    (hask : l.asksFor key asked = true) :
    ∃ caller log, (caller = .waiting i ∨ caller = .done (l.outcome key (.result r))) ∧
      l.step s (.call asked) =
        { s with
          callers := s.callers ++ [caller]
          metrics := s.metrics.apply .coalesced
          log := log } := by
  obtain ⟨path', hresolve, rfl⟩ := asksFor_iff.mp hask
  generalize ht : l.step s (.call asked) = t
  have hmove := ht ▸ moves_step l s (.call asked)
  cases hmove with
  | refused hrefuse => exact absurd (hrefuse.symm.trans hresolve) (by simp)
  | hit hpath hcache =>
    obtain rfl := Except.ok.inj (hpath.symm.trans hresolve)
    exact absurd (h.uncached.symm.trans hcache) (by simp)
  | joined hpath _ hflight =>
    obtain rfl := Except.ok.inj (hpath.symm.trans hresolve)
    obtain rfl := Option.some.inj (h.lookup.symm.trans hflight)
    exact ⟨_, _, .inl rfl, rfl⟩
  | joinedLate hpath _ hflight hanswer =>
    obtain rfl := Except.ok.inj (hpath.symm.trans hresolve)
    obtain rfl := Option.some.inj (h.lookup.symm.trans hflight)
    obtain ⟨stage, hread, -, hawaits⟩ := h.read
    rw [State.answer?, hread] at hanswer
    obtain rfl := hawaits _ hanswer
    exact ⟨_, _, .inr rfl, rfl⟩
  | started hpath _ hflight =>
    obtain rfl := Except.ok.inj (hpath.symm.trans hresolve)
    exact absurd (h.lookup.symm.trans hflight) (by simp)
  | idle hcall => exact absurd rfl (hcall asked)

theorem Omits.call_own (h : Omits i askers joined (s.answered i) s t)
    (hs : Fruitless key path i r s) {asked : String} (hask : l.asksFor key asked = true)
    (hgone : askers s.callers.length = true) :
    Omits i askers (joined + 1) ((l.step s (.call asked)).answered i) (l.step s (.call asked)) t := by
  obtain ⟨caller, log, -, hcall⟩ := hs.call_eq hask
  rw [hcall]
  exact h.addJoiner hgone caller log

/-- A step that is left out changes only what is left out. -/
theorem Omits.step_own (h : Omits i askers joined (s.answered i) s t) {x : Step}
    (hs : Fruitless key path i r s) (hs' : Fruitless key path i r (l.step s x))
    (hfail : r.status ≠ .ok) (hown : l.otherwise key i askers x = none)
    (hask : ∀ requested, x = .call requested →
      askers s.callers.length = l.asksFor key requested) :
    Omits i askers (joined + (requested [x]).countP (l.asksFor key)) ((l.step s x).answered i)
      (l.step s x) t := by
  obtain ⟨stage, hread', hopen, hawaits⟩ := hs'.read
  generalize ht : l.step s x = u at hread'
  have hmove := ht ▸ moves_step l s x
  cases x with
  | call p =>
    have hasks : l.asksFor key p = true := by simpa [otherwise] using hown
    have hjoined := h.call_own hs hasks ((hask p rfl).trans hasks)
    rw [ht] at hjoined
    simpa [requested, hasks] using hjoined
  | begin j =>
    obtain rfl : j = i := by simpa [otherwise] using hown
    cases hmove with
    | begun hread =>
      rw [answered_set hread rfl]
      rw [answered_of_read? hread] at h
      exact h.setRead _ _ _
    | idle => exact h
  | complete j answer =>
    obtain rfl : j = i := by simpa [otherwise] using hown
    cases hmove with
    | stored hread hok =>
      obtain rfl := stage_of_set hread rfl hread'
      obtain rfl := Answer.result.inj (hawaits _ rfl)
      exact absurd hok hfail
    | failed hread =>
      rw [answered_set hread rfl]
      rw [answered_of_read? hread] at h
      exact h.fail _ _ _
    | broken hread hanswer =>
      obtain rfl := stage_of_set hread rfl hread'
      exact absurd (hawaits _ rfl) (hanswer r)
    | idle => exact h
  | announce j =>
    obtain rfl : j = i := by simpa [otherwise] using hown
    cases hmove with
    | announced hread =>
      obtain rfl := stage_of_set hread rfl hread'
      exact absurd hopen (Stage.not_isOpen_announced _)
    | idle => exact h
  | deliver c =>
    have hgone : askers c = true := by simpa [otherwise] using hown
    cases hmove with
    | delivered => exact h.setCaller hgone _
    | idle => exact h
  | cancel c =>
    have hgone : askers c = true := by simpa [otherwise] using hown
    cases hmove with
    | cancelled => exact h.setCaller hgone _
    | idle => exact h
  | clear | advance => exact absurd hown (by simp [otherwise])

/-- A step that is left in happens to both states. -/
theorem Omits.step_other (h : Omits i askers joined failed s t) {x y : Step}
    (hs : Fruitless key path i r s) (hother : l.otherwise key i askers x = some y)
    (hask : ∀ requested, x = .call requested →
      askers s.callers.length = l.asksFor key requested) :
    Omits i askers joined failed (l.step s x) (l.step t y) := by
  cases x with
  | call p =>
    obtain ⟨hasks, rfl⟩ : l.asksFor key p = false ∧ .call p = y := by simpa [otherwise] using hother
    exact h.call hs hasks ((hask p rfl).trans hasks)
  | begin j =>
    obtain ⟨hj, rfl⟩ : j ≠ i ∧ .begin (rank (· == i) j) = y := by simpa [otherwise] using hother
    exact h.begin hj
  | complete j answer =>
    obtain ⟨hj, rfl⟩ : j ≠ i ∧ .complete (rank (· == i) j) answer = y := by
      simpa [otherwise] using hother
    exact h.complete hj answer
  | announce j =>
    obtain ⟨hj, rfl⟩ : j ≠ i ∧ .announce (rank (· == i) j) = y := by simpa [otherwise] using hother
    exact h.announce hj
  | deliver c =>
    obtain ⟨hc, rfl⟩ : askers c = false ∧ .deliver (rank askers c) = y := by
      simpa [otherwise] using hother
    exact h.deliver hc
  | cancel c =>
    obtain ⟨hc, rfl⟩ : askers c = false ∧ .cancel (rank askers c) = y := by
      simpa [otherwise] using hother
    exact h.cancel hc
  | clear =>
    obtain rfl : .clear = y := by simpa [otherwise] using hother
    exact h.clear
  | advance seconds =>
    obtain rfl : .advance seconds = y := by simpa [otherwise] using hother
    exact h.advance seconds

/-- A step of the longer run goes with the same step of the shorter one, or with none. -/
theorem Omits.step (h : Omits i askers joined (s.answered i) s t) {x : Step}
    (hs : Fruitless key path i r s) (hs' : Fruitless key path i r (l.step s x))
    (hfail : r.status ≠ .ok)
    (hask : ∀ requested, x = .call requested →
      askers s.callers.length = l.asksFor key requested) :
    Omits i askers (joined + (requested [x]).countP (l.asksFor key)) ((l.step s x).answered i)
      (l.step s x) (l.run t (l.otherwise key i askers x).toList) := by
  cases hother : l.otherwise key i askers x with
  | none => exact h.step_own hs hs' hfail hother hask
  | some y =>
    have hcount : (requested [x]).countP (l.asksFor key) = 0 := by
      cases x with
      | call p =>
        have hasks : ¬ l.asksFor key p := fun hasks => by simp [otherwise, hasks] at hother
        simp [requested, hasks]
      | _ => rfl
    have hanswered : (l.step s x).answered i = s.answered i := by
      obtain ⟨stage, hread, -⟩ := hs.read
      refine answered_step_of_ne ⟨_, hread⟩ ?_
      rintro answer rfl
      exact absurd hother (by simp [otherwise])
    rw [hcount, hanswered]
    exact h.step_other hs hother hask

/-! ### Runs -/

/-- A read that is open and leads to nothing but the result was so all the time. -/
theorem awaits_of_step {stage stage' : Stage} {x : Step}
    (h : s.read? i = some ⟨key, path, stage⟩)
    (h' : (l.step s x).read? i = some ⟨key, path, stage'⟩) (hawaits : stage'.Awaits r) :
    stage.Awaits r := by
  obtain ⟨stage'', hread, hchange⟩ := read?_step (l := l) h x
  obtain ⟨-, -, rfl⟩ := Read.mk.inj (Option.some.inj (hread.symm.trans h'))
  obtain ⟨hopen, hanswer⟩ := hawaits
  rcases hchange with hsame | ⟨since, _, rfl, -, -⟩
  · refine ⟨?_, fun answer hstage => hanswer answer (hsame.trans hstage)⟩
    cases stage with
    | queued => exact Stage.isOpen_queued
    | running since => exact Stage.isOpen_running since
    | ended answer => exact Stage.isOpen_ended answer
    | announced answer =>
      obtain ⟨-, -, rfl⟩ :=
        Read.mk.inj (Option.some.inj ((read?_step_of_announced (l := l) h x).symm.trans h'))
      exact absurd hopen (Stage.not_isOpen_announced answer)
  · exact ⟨Stage.isOpen_running since, fun answer hstage => by simp [Stage.answer?] at hstage⟩

theorem awaits_of_run {stage stage' : Stage} {steps : List Step}
    (h : s.read? i = some ⟨key, path, stage⟩)
    (h' : (l.run s steps).read? i = some ⟨key, path, stage'⟩) (hawaits : stage'.Awaits r) :
    stage.Awaits r := by
  induction steps generalizing s stage with
  | nil =>
    obtain ⟨-, -, rfl⟩ := Read.mk.inj (Option.some.inj (h.symm.trans h'))
    exact hawaits
  | cons x rest ih =>
    obtain ⟨_, hread, -⟩ := read?_step (l := l) h x
    exact awaits_of_step h hread (ih hread h')

/-- What the read leads to in the end it leads to all the time. -/
theorem Fruitless.run (h : Fruitless key path i r s) (hfail : r.status ≠ .ok)
    {steps more : List Step}
    (hend : ∃ stage, (l.run s (steps ++ more)).read? i = some ⟨key, path, stage⟩ ∧
      stage.Awaits r) : Fruitless key path i r (l.run s steps) := by
  induction steps generalizing s with
  | nil => exact h
  | cons x rest ih =>
    obtain ⟨stage, hread, -⟩ := h.read
    obtain ⟨next, hnext, -⟩ := read?_step (l := l) hread x
    obtain ⟨stage', hend', hawaits⟩ := hend
    exact ih (h.step hfail ⟨next, hnext, awaits_of_run hnext hend' hawaits⟩) ⟨stage', hend', hawaits⟩

/-- As long as the read is open and no text comes of it, the run goes like the one without it. -/
theorem omits_run (h : Omits i askers joined (s.answered i) s t)
    (hs : Fruitless key path i r s) (hfail : r.status ≠ .ok) {steps : List Step}
    (hask : ∀ k p, (requested steps)[k]? = some p →
      askers (s.callers.length + k) = l.asksFor key p)
    (hend : ∃ stage, (l.run s steps).read? i = some ⟨key, path, stage⟩ ∧ stage.Awaits r) :
    Omits i askers (joined + (requested steps).countP (l.asksFor key))
      ((l.run s steps).answered i) (l.run s steps)
      (l.run t (steps.filterMap (l.otherwise key i askers))) := by
  induction steps generalizing s t joined with
  | nil => exact h
  | cons x rest ih =>
    have hs' : Fruitless key path i r (l.run s [x]) := hs.run hfail hend
    have hrequested : requested (x :: rest) = requested [x] ++ requested rest :=
      requested_append [x] rest
    have hstep := h.step hs hs' hfail fun p hx => hask 0 p (by rw [hrequested, hx]; rfl)
    have hask' : ∀ k p, (requested rest)[k]? = some p →
        askers ((l.step s x).callers.length + k) = l.asksFor key p := by
      intro k p hk
      rw [length_callers_step, Nat.add_assoc]
      refine hask _ p ?_
      rw [hrequested, List.getElem?_append_right (by omega), Nat.add_sub_cancel_left]
      exact hk
    have hrun := ih hstep hs' hask' hend
    have hfilter : (x :: rest).filterMap (l.otherwise key i askers) =
        (l.otherwise key i askers x).toList ++ rest.filterMap (l.otherwise key i askers) := by
      cases hx : l.otherwise key i askers x <;> simp [hx]
    rw [hrequested, List.countP_append, ← Nat.add_assoc, hfilter, run_append]
    exact hrun

end Loader

end PromptShelf
