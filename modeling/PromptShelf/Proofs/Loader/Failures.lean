/-
Reads that fail.

A call whose path is refused changes nothing but its own caller.  A read that ends with a fault
is compared with the run without it (`withoutRead`): from its start until its end is announced
the cache and the keys in flight are those of the other steps alone, and the metrics differ by
what the read and its callers count for.  All who asked for its key are told of the fault.

* **`Orderly`** — callers wait for reads there are, and no more times are kept than there is room;
* **`Orderly.omits_start`** — a read that has just started may be left out;
* **`Fruitless.asker`** — who asks for the key is told of the fault, unless it is stopped;
* **`failures_traceless`** — failures leave no trace but counts.
-/
import PromptShelf.Proofs.Loader.Accounting
import PromptShelf.Proofs.Loader.Omission
import PromptShelf.Proofs.Loader.Outcomes
import PromptShelf.Proofs.Loader.Retry

namespace PromptShelf

namespace Loader

/-- Whether a caller asks for the key in the course of some steps. -/
def asks (l : Loader) (s : State) (key : String) (steps : List Step) (c : Nat) : Bool :=
  decide (s.callers.length ≤ c) &&
    (requested steps)[c - s.callers.length]?.any (l.asksFor key)

/-- What is left of some steps without the read that is the next to start, and without those who
ask for the key. -/
def withoutRead (l : Loader) (s : State) (key : String) (steps : List Step) : List Step :=
  steps.filterMap (l.otherwise key s.reads.length (l.asks s key steps))

/-- Callers wait for reads there are, and no more times are kept than there is room for. -/
structure Orderly (s : State) : Prop where
  flight : SingleFlight s
  waiting : ∀ c j : Nat, s.callers[c]? = some (.waiting j) → j < s.reads.length
  samples : s.metrics.samples.length ≤ Metrics.maxSamples

variable {l : Loader} {s t : State} {key path : String} {i : Nat} {r : ReadResult}

/-! ### Every state is orderly -/

namespace Orderly

theorem initial (cache : Cache) (now : Binary64) :
    Orderly { State.initial now with cache := cache } :=
  ⟨.initial cache now, by simp [State.initial], Nat.zero_le _⟩

theorem lt_of_lookup (h : Orderly s) (hlookup : s.inFlight.lookup key = some i) :
    i < s.reads.length := by
  obtain ⟨r, hread, -⟩ := h.flight.lookup_iff.mp hlookup
  exact (List.getElem?_eq_some_iff.mp hread).1

theorem waiting_append (h : Orderly s) {caller : Caller} {n : Nat}
    (hle : s.reads.length ≤ n) (hcaller : ∀ j, caller = .waiting j → j < n) {c j : Nat}
    (hc : (s.callers ++ [caller])[c]? = some (.waiting j)) : j < n := by
  rcases getElem?_concat_cases hc with hold | ⟨-, rfl⟩
  · exact Nat.lt_of_lt_of_le (h.waiting c j hold) hle
  · exact hcaller j rfl

theorem waiting_set (h : Orderly s) {d : Nat} {ending : Ending String} {c j : Nat}
    (hc : (s.callers.set d (.done ending))[c]? = some (.waiting j)) : j < s.reads.length := by
  rw [List.getElem?_set] at hc
  split at hc
  · split at hc <;> simp at hc
  · exact h.waiting c j hc

theorem step (h : Orderly s) (l : Loader) (x : Step) : Orderly (l.step s x) := by
  have hflight := h.flight.step l x
  generalize ht : l.step s x = t at hflight
  have hmove := ht ▸ moves_step l s x
  have happly := Metrics.length_samples_apply h.samples
  cases hmove with
  | refused =>
    exact ⟨hflight, fun c j => h.waiting_append (Nat.le_refl _) (by simp), h.samples⟩
  | hit | joinedLate =>
    exact ⟨hflight, fun c j => h.waiting_append (Nat.le_refl _) (by simp), happly _⟩
  | joined _ _ hlookup =>
    have hlt := h.lt_of_lookup hlookup
    exact ⟨hflight, fun c j => h.waiting_append (Nat.le_refl _) (by simpa using hlt), happly _⟩
  | started =>
    have hlength : ∀ r : Read, (s.reads ++ [r]).length = s.reads.length + 1 :=
      fun _ => List.length_append
    refine ⟨hflight, fun c j hc => ?_, happly _⟩
    rw [hlength]
    exact h.waiting_append (Nat.le_succ _) (by simp) hc
  | begun | broken | announced =>
    refine ⟨hflight, fun c j hc => ?_, h.samples⟩
    rw [List.length_set]
    exact h.waiting c j hc
  | stored | failed =>
    refine ⟨hflight, fun c j hc => ?_, Metrics.length_samples_apply (happly _) _⟩
    rw [List.length_set]
    exact h.waiting c j hc
  | delivered | cancelled => exact ⟨hflight, fun c j => h.waiting_set, h.samples⟩
  | cleared => exact ⟨hflight, h.waiting, happly _⟩
  | advanced => exact ⟨hflight, h.waiting, h.samples⟩
  | idle => exact h

theorem run (h : Orderly s) (l : Loader) (steps : List Step) : Orderly (l.run s steps) := by
  induction steps generalizing s with
  | nil => exact h
  | cons x rest ih => exact ih (h.step l x)

/-! ### The start of a read -/

/-- A read that has just started may be left out, with the caller who has started it. -/
theorem omits_start (h : Orderly s) {askers : Nat → Bool}
    (hbefore : ∀ c < s.callers.length, askers c = false)
    (hfirst : askers s.callers.length = true) (key path : String) :
    Omits s.reads.length askers 0 0 (start s key path) s := by
  have hold : ∀ j < s.reads.length, rank (· == s.reads.length) j = j := by
    intro j hj
    refine rank_eq_self fun m hm => ?_
    simp
    omega
  constructor
  · rfl
  · rfl
  · refine (Sifted.refl (fun n hn => ?_) fun _ _ => rfl).append_gone (by simp) _
    simp
    omega
  · -- Whatever was in flight before leads to an earlier read.
    have hearlier : ∀ f ∈ s.inFlight, f.2 < s.reads.length := by
      rintro ⟨key', j⟩ hmem
      obtain ⟨r, hread, -⟩ := (h.flight.mem_iff key' j).mp hmem
      exact (List.getElem?_eq_some_iff.mp hread).1
    have hkept : (s.inFlight ++ [(key, s.reads.length)]).filter (fun f => f.2 != s.reads.length) =
        s.inFlight := by
      rw [List.filter_append, List.filter_eq_self.mpr fun f hf => ?_]
      · simp
      · have hlt := hearlier f hf
        simp
        omega
    have hsame : s.inFlight.map (fun f => (f.1, rank (· == s.reads.length) f.2)) =
        s.inFlight.map id :=
      List.map_congr_left fun f hf => by rw [hold f.2 (hearlier f hf), id_eq]
    show s.inFlight = ((s.inFlight ++ [(key, s.reads.length)]).filter _).map _
    rw [hkept, hsame, List.map_id]
  · refine (Sifted.refl hbefore fun caller hcaller => ?_).append_gone hfirst _
    cases caller with
    | done ending => rfl
    | waiting j =>
      obtain ⟨c, hc⟩ := List.getElem?_of_mem hcaller
      rw [renumbered, hold j (h.waiting c j hc)]
  · intro c hc hwaiting
    rcases getElem?_concat_cases hwaiting with hold | ⟨rfl, -⟩
    · exact absurd (h.waiting c _ hold) (Nat.lt_irrefl _)
    · exact absurd (hfirst.symm.trans hc) (by simp)
  · refine ⟨rfl, rfl, rfl, rfl, rfl, rfl, s.metrics.samples, [], [], rfl, ?_, ?_⟩
    · rw [List.append_nil, Metrics.latest_of_length_le h.samples]
    · rw [List.append_nil, List.append_nil, Metrics.latest_of_length_le h.samples]
      rfl

end Orderly

/-- A call that starts a read finds no text and no other read of its key. -/
theorem start_of_new {asked : String}
    (h : (l.step s (.call asked)).read? s.reads.length = some ⟨key, path, .queued⟩) :
    l.step s (.call asked) = start s key path ∧ s.cache.get? key = none ∧
      l.asksFor key asked = true := by
  have hnone : s.read? s.reads.length = none := List.getElem?_eq_none (Nat.le_refl _)
  generalize ht : l.step s (.call asked) = t at h
  have hmove := ht ▸ moves_step l s (.call asked)
  cases hmove with
  | refused | hit | joined | joinedLate => exact absurd (hnone.symm.trans h) (by simp)
  | @started _ path' hresolve hcache hflight =>
    have hnew : (s.reads ++ [⟨l.resolver.key path', path', .queued⟩])[s.reads.length]? = _ := h
    rw [List.getElem?_concat_length] at hnew
    obtain ⟨rfl, rfl, -⟩ := Read.mk.inj (Option.some.inj hnew)
    exact ⟨rfl, hcache, asksFor_iff.mpr ⟨path', hresolve, rfl⟩⟩
  | idle hcall => exact absurd rfl (hcall asked)

/-! ### Who asks for the key -/

/-- A caller who asked for the key of a read waits for it, or was stopped by one of some steps, or
was told the result. -/
inductive Asker (l : Loader) (key : String) (i : Nat) (r : ReadResult) (c : Nat)
    (steps : List Step) : Caller → Prop
  | waiting : Asker l key i r c steps (.waiting i)
  | stopped (hcancel : Step.cancel c ∈ steps) :
    Asker l key i r c steps (.done (.stopped .cancelled))
  | told : Asker l key i r c steps (.done (l.outcome key (.result r)))

theorem Asker.mono {c : Nat} {steps steps' : List Step} {caller : Caller}
    (h : Asker l key i r c steps caller) (hsubset : steps ⊆ steps') :
    Asker l key i r c steps' caller := by
  cases h with
  | waiting => exact .waiting
  | stopped hcancel => exact .stopped (hsubset hcancel)
  | told => exact .told

theorem asker_of_waiting {c : Nat} {stage : Stage} {steps : List Step}
    (h : s.callers[c]? = some (.waiting i)) (hread : s.read? i = some ⟨key, path, stage⟩)
    (hanswer : (l.run s steps).answer? i = some (.result r)) :
    ∃ caller, (l.run s steps).callers[c]? = some caller ∧ Asker l key i r c steps caller := by
  rcases caller_of_waiting h hread l steps with hwaiting | ⟨hcancel, hstop⟩ | ⟨_, hanswered, htold⟩
  · exact ⟨_, hwaiting, .waiting⟩
  · exact ⟨_, hstop, .stopped hcancel⟩
  · obtain rfl := Option.some.inj (hanswered.answer?.symm.trans hanswer)
    exact ⟨_, htold, .told⟩

/-- Who asks for the key of an open read is told of its result. -/
theorem Fruitless.asker (h : Fruitless key path i r s) {asked : String} {after : List Step}
    (hask : l.asksFor key asked = true)
    (hanswer : (l.run s (.call asked :: after)).answer? i = some (.result r)) :
    ∃ caller, (l.run s (.call asked :: after)).callers[s.callers.length]? = some caller ∧
      Asker l key i r s.callers.length after caller := by
  obtain ⟨caller, log, hcaller, hcall⟩ := h.call_eq hask
  have hlast : (l.step s (.call asked)).callers[s.callers.length]? = some caller := by
    rw [hcall]
    exact List.getElem?_concat_length ..
  rcases hcaller with rfl | rfl
  · obtain ⟨stage, hread, -⟩ := h.read
    obtain ⟨stage', hread', -⟩ := read?_step (l := l) hread (.call asked)
    exact asker_of_waiting hlast hread' hanswer
  · exact ⟨_, callers_run_of_done hlast l after, .told⟩

/-- A caller is one of those who called before, or called at some step. -/
theorem exists_call_of_requested {steps : List Step} {k : Nat} {p : String}
    (h : (requested steps)[k]? = some p) :
    ∃ before after, steps = before ++ .call p :: after ∧ (requested before).length = k := by
  induction steps generalizing k with
  | nil => simp [requested] at h
  | cons x rest ih =>
    have hrequested : requested (x :: rest) = requested [x] ++ requested rest :=
      requested_append [x] rest
    rw [hrequested] at h
    rcases Nat.lt_or_ge k (requested [x]).length with hlt | hge
    · -- Only a call asks for something, and for one path.
      cases x with
      | call q =>
        obtain rfl : k = 0 := Nat.lt_one_iff.mp hlt
        obtain rfl : q = p := Option.some.inj h
        exact ⟨[], rest, rfl, rfl⟩
      | _ => exact absurd hlt (Nat.not_lt_zero k)
    · rw [List.getElem?_append_right hge] at h
      obtain ⟨before, after, rfl, hlength⟩ := ih h
      refine ⟨x :: before, after, rfl, ?_⟩
      have hbefore : requested (x :: before) = requested [x] ++ requested before :=
        requested_append [x] before
      rw [hbefore, List.length_append]
      omega

/-! ### From the start to the announcement -/

/-- When the read is announced, nothing in flight leads to it any more. -/
theorem Omits.announce_own {askers : Nat → Bool} {joined failed : Nat} {answer : Answer}
    (h : Omits i askers joined failed s t) (hflight : SingleFlight s)
    (hread : s.read? i = some ⟨key, path, .ended answer⟩) :
    let u := Loader.announce s i
    u.cache = t.cache ∧ t.inFlight = u.inFlight.map (fun f => (f.1, rank (· == i) f.2)) ∧
      Sifted (· == i) id u.reads t.reads ∧ Sifted askers (renumbered i) u.callers t.callers ∧
      u.metrics.Omits joined failed t.metrics := by
  intro u
  have hu : u = { s with
      reads := s.reads.set i ⟨key, path, .announced answer⟩
      inFlight := s.inFlight.filter fun f => f ≠ (key, i) } := by
    simp only [u, Loader.announce, hread, setStage_eq hread]
  -- The entry of the read is the only one that leads to it.
  have hown : ∀ f ∈ s.inFlight, (f.2 != i) = decide (f ≠ (key, i)) := by
    rintro ⟨key', j⟩ hmem
    by_cases hj : j = i
    · subst hj
      obtain ⟨r, hr, rfl, -⟩ := (hflight.mem_iff key' j).mp hmem
      obtain rfl := Option.some.inj (hread.symm.trans hr)
      simp
    · simp [hj]
  rw [hu]
  refine ⟨h.cache.symm, ?_, h.reads.set_gone (by simp) _, h.callers, h.metrics⟩
  rw [h.inFlight, List.filter_congr hown]

/-- A read that fails may be left out of the whole run up to its end. -/
theorem Orderly.omits_failed (h : Orderly s) {asked : String} {middle : List Step}
    (hstart : (l.step s (.call asked)).read? s.reads.length = some ⟨key, path, .queued⟩)
    (hend : (l.run s (.call asked :: middle)).read? s.reads.length =
      some ⟨key, path, .ended (.result r)⟩)
    (hfail : r.status ≠ .ok) :
    Fruitless key path s.reads.length r (l.step s (.call asked)) ∧
      Omits s.reads.length (l.asks s key (.call asked :: middle))
        ((requested middle).countP (l.asksFor key)) 1 (l.run s (.call asked :: middle))
        (l.run s (l.withoutRead s key (.call asked :: middle))) := by
  obtain ⟨heq, hcache, hask⟩ := start_of_new hstart
  generalize hasks : l.asks s key (.call asked :: middle) = askers
  have hrun : l.run s (.call asked :: middle) = l.run (l.step s (.call asked)) middle := rfl
  have hawaits : Stage.Awaits r (.ended (.result r)) :=
    ⟨Stage.isOpen_ended _, fun answer hanswer => (Option.some.inj hanswer).symm⟩
  rw [hrun] at hend ⊢
  have hs : Fruitless key path s.reads.length r (l.step s (.call asked)) :=
    ⟨h.flight.step l _, by rw [heq]; exact hcache, _, hstart, awaits_of_run hstart hend hawaits⟩
  have hbefore : ∀ c < s.callers.length, askers c = false := by
    intro c hc
    rw [← hasks, asks, decide_eq_false (by omega), Bool.false_and]
  have hat : ∀ k p, (requested (.call asked :: middle))[k]? = some p →
      askers (s.callers.length + k) = l.asksFor key p := by
    intro k p hk
    rw [← hasks, asks, decide_eq_true (by omega), Bool.true_and, Nat.add_sub_cancel_left, hk]
    rfl
  have hfirst : askers s.callers.length = true := (hat 0 asked rfl).trans hask
  have homits : Omits s.reads.length askers 0 ((l.step s (.call asked)).answered s.reads.length)
      (l.step s (.call asked)) s := by
    rw [answered_of_read? hstart, heq]
    exact h.omits_start hbefore hfirst key path
  have hlater : ∀ k p, (requested middle)[k]? = some p →
      askers ((l.step s (.call asked)).callers.length + k) = l.asksFor key p := by
    intro k p hk
    rw [length_callers_step, Nat.add_assoc, Nat.add_comm _ k]
    exact hat (k + 1) p hk
  have hfinal := omits_run homits hs hfail hlater ⟨_, hend, hawaits⟩
  rw [Nat.zero_add, answered_of_read? hend] at hfinal
  rw [withoutRead, hasks, List.filterMap_cons_none (by simp [otherwise, hask])]
  exact ⟨hs, hfinal⟩

/-- All who ask for the key from the start of the read to its end are told of its result. -/
theorem asker_of_asks {asked : String} {middle : List Step}
    (hs : Fruitless key path s.reads.length r (l.step s (.call asked)))
    (hstart : (l.step s (.call asked)).read? s.reads.length = some ⟨key, path, .queued⟩)
    (hend : (l.run s (.call asked :: middle)).read? s.reads.length =
      some ⟨key, path, .ended (.result r)⟩)
    (hfail : r.status ≠ .ok) {c : Nat} (hc : l.asks s key (.call asked :: middle) c = true)
    {more : List Step}
    (hanswer : (l.run s (.call asked :: (middle ++ more))).answer? s.reads.length =
      some (.result r)) :
    ∃ caller, (l.run s (.call asked :: (middle ++ more))).callers[c]? = some caller ∧
      Asker l key s.reads.length r c (middle ++ more) caller := by
  obtain ⟨hle, hsome⟩ := Bool.and_eq_true_iff.mp hc
  have hle : s.callers.length ≤ c := of_decide_eq_true hle
  obtain ⟨p, hp, hask⟩ := Option.any_eq_true _ _ |>.mp hsome
  obtain ⟨before, after, hsteps, hlength⟩ := exists_call_of_requested hp
  cases before with
  | nil =>
    -- The caller who has started the read waits for it.
    obtain ⟨heq, -, -⟩ := start_of_new hstart
    obtain rfl : c = s.callers.length := by
      have hzero : 0 = c - s.callers.length := hlength
      omega
    refine asker_of_waiting ?_ hstart hanswer
    rw [heq]
    exact List.getElem?_concat_length ..
  | cons x before =>
    obtain ⟨rfl, hmiddle⟩ := List.cons.inj hsteps
    obtain rfl : middle = before ++ .call p :: after := hmiddle
    have hawaits : Stage.Awaits r (.ended (.result r)) :=
      ⟨Stage.isOpen_ended _, fun answer hanswer => (Option.some.inj hanswer).symm⟩
    have hthen : Fruitless key path s.reads.length r (l.run s (.call asked :: before)) :=
      hs.run hfail ⟨_, hend, hawaits⟩
    have hcount : c = (l.run s (.call asked :: before)).callers.length := by
      rw [length_callers_run, hlength]
      omega
    have hrun : l.run s (.call asked :: (before ++ .call p :: after ++ more)) =
        l.run (l.run s (.call asked :: before)) (.call p :: (after ++ more)) := by
      rw [← run_append]
      simp
    rw [hrun] at hanswer ⊢
    rw [hcount]
    obtain ⟨caller, hcaller, hasker⟩ := hthen.asker hask hanswer
    refine ⟨caller, hcaller, hasker.mono fun x hx => ?_⟩
    rw [List.append_assoc, List.cons_append]
    exact List.mem_append_right _ (List.mem_cons_of_mem _ hx)

theorem Asker.ending_eq {c : Nat} {steps : List Step} {caller : Caller}
    (h : Asker l key i r c steps caller) (hfail : r.status ≠ .ok) {ending : Ending String}
    (hending : caller = .done ending) :
    ending = .failed (if r.status = .notFound then .notFound key l.resolver.hint
        else .unreadable key r.fault) ∨
      (ending = .stopped .cancelled ∧ .cancel c ∈ steps) := by
  cases h with
  | waiting => exact absurd hending (by simp)
  | stopped hcancel => exact .inr ⟨(Caller.done.inj hending).symm, hcancel⟩
  | told =>
    rw [← Caller.done.inj hending]
    rcases outcome_cases l key r with ⟨hok, -⟩ | ⟨hmissing, houtcome⟩ | ⟨-, hother, houtcome⟩
    · exact absurd hok hfail
    · exact .inl (by rw [houtcome, if_pos hmissing])
    · exact .inl (by rw [houtcome, if_neg hother])

/-- Whoever waits when the read is announced has an answer once it is told. -/
theorem Asker.isSome_deliver {c : Nat} {steps : List Step} {caller : Caller} {answer : Answer}
    (h : Asker l key i r c steps caller) (hcaller : s.callers[c]? = some caller)
    (hread : s.read? i = some ⟨key, path, .announced answer⟩) :
    ((l.step s (.deliver c)).ending? c).isSome := by
  cases h with
  | waiting =>
    rw [show l.step s (.deliver c) = l.deliver s c from rfl, ending?_deliver hcaller hread]
    rfl
  | stopped | told => exact isSome_of_done (callers_run_of_done hcaller l [.deliver c])

/-- Failures leave no trace but counts, in every state that can be reached.

A call whose path is refused changes neither the cache, nor the flight, nor the metrics, nor
what the reader was asked for.  Of a read that ends with a fault, whatever else happens between
its start and the announcement of its end: the cache is the one the other steps alone lead to,
and so are the keys in flight, the other reads and the other callers, under their numbers in the
run without it.  There is one miss more, one error and one time, and each caller who joined is
counted as one.  All who asked for the key are told of the same fault once they are told
anything, unless they were stopped. -/
theorem failures_traceless (l : Loader) (cache : Cache) (now : Binary64) (before : List Step)
    (asked : String) :
    let s := l.run { State.initial now with cache := cache } before
    (∀ e, l.resolver.resolve asked = .error e →
      let t := l.step s (.call asked)
      t.cache = s.cache ∧ t.inFlight = s.inFlight ∧ t.metrics = s.metrics ∧
        t.requests = s.requests ∧ t.ending? s.callers.length = some (.failed e)) ∧
      ∀ key path middle r,
        let i := s.reads.length
        let steps := .call asked :: middle
        (l.step s (.call asked)).read? i = some ⟨key, path, .queued⟩ →
        (l.run s steps).read? i = some ⟨key, path, .ended (.result r)⟩ → r.status ≠ .ok →
          let t := l.run s (l.withoutRead s key steps)
          let u := l.step (l.run s steps) (.announce i)
          u.cache = t.cache ∧
            t.inFlight = u.inFlight.map (fun f => (f.1, rank (· == i) f.2)) ∧
            Sifted (· == i) id u.reads t.reads ∧
            Sifted (l.asks s key steps) (renumbered i) u.callers t.callers ∧
            u.metrics.Omits ((requested middle).countP (l.asksFor key)) 1 t.metrics ∧
            ∀ c, l.asks s key steps c = true → ∀ later,
              let v := l.run u later
              ((l.step v (.deliver c)).ending? c).isSome ∧
                ∀ ending, v.ending? c = some ending →
                  ending = .failed (if r.status = .notFound then .notFound key l.resolver.hint
                      else .unreadable key r.fault) ∨
                    (ending = .stopped .cancelled ∧ .cancel c ∈ middle ++ later) := by
  intro s
  have hs : Orderly s := (Orderly.initial cache now).run l before
  refine ⟨fun e hresolve => ?_, ?_⟩
  · have hcall : l.step s (.call asked) = s.withCaller (.done (.failed e)) := by
      show l.call s asked = _
      rw [call, hresolve]
    intro t
    rw [show t = s.withCaller (.done (.failed e)) from hcall]
    exact ⟨rfl, rfl, rfl, rfl, ending?_eq_some_iff.mpr (List.getElem?_concat_length ..)⟩
  · intro key path middle r i steps hstart hend hfail t u
    obtain ⟨hfruitless, homits⟩ := hs.omits_failed hstart hend hfail
    obtain ⟨hcache, hflight, hreads, hcallers, hmetrics⟩ :=
      homits.announce_own (hs.run l steps).flight hend
    refine ⟨hcache, hflight, hreads, hcallers, hmetrics, fun c hc later => ?_⟩
    intro v
    have hv : v = l.run s (.call asked :: (middle ++ .announce i :: later)) := by
      rw [← List.cons_append, run_append]
      rfl
    have hannounced : v.read? i = some ⟨key, path, .announced (.result r)⟩ :=
      read?_run_of_announced (announce_of_ended hend).1 l later
    have hanswer : v.answer? i = some (.result r) := by
      rw [State.answer?, hannounced]
      rfl
    rw [hv] at hanswer
    obtain ⟨caller, hcaller, hasker⟩ := asker_of_asks hfruitless hstart hend hfail hc hanswer
    rw [← hv] at hcaller
    refine ⟨hasker.isSome_deliver hcaller hannounced, fun ending hending => ?_⟩
    have hdone := Option.some.inj (hcaller.symm.trans (ending?_eq_some_iff.mp hending))
    rcases hasker.ending_eq hfail hdone with htold | ⟨hstop, hcancel⟩
    · exact .inl htold
    · exact .inr ⟨hstop, by simpa using hcancel⟩

theorem failures_traceless_missing :
    let l : Loader := ⟨.make "/" "t" none, []⟩
    let s := State.initial (.zero false)
    let missing : ReadResult := .ofFault (.file .missing)
    let middle : List Step := [.begin 0, .call "b.md", .call "./a.md", .begin 1,
      .complete 1 (.result (.ofText "B")), .complete 0 (.result missing)]
    let t := l.run s [.call "b.md", .begin 0, .complete 0 (.result (.ofText "B"))]
    let u := l.step (l.run s (.call "a.md" :: middle)) (.announce 0)
    (l.step s (.call "../a.md")).metrics = s.metrics ∧
      (l.step s (.call "a.md")).read? 0 = some ⟨"a.md", "/t/a.md", .queued⟩ ∧
      (l.run s (.call "a.md" :: middle)).read? 0 =
        some ⟨"a.md", "/t/a.md", .ended (.result missing)⟩ ∧
      missing.status ≠ .ok ∧ u.cache = t.cache ∧
      u.metrics.coalesced = t.metrics.coalesced + 1 ∧
      (l.step u (.deliver 2)).ending? 2 = some (.failed (.notFound "a.md" "t/")) := by
  intro l s missing middle t u
  have hresolve : l.resolver.resolve "a.md" = .ok "/t/a.md" := by cbv
  have halias : l.resolver.resolve "./a.md" = .ok "/t/a.md" := by cbv
  have hother : l.resolver.resolve "b.md" = .ok "/t/b.md" := by cbv
  have hkey : l.resolver.key "/t/a.md" = "a.md" := by cbv
  have hkey' : l.resolver.key "/t/b.md" = "b.md" := by cbv
  have hhint : l.resolver.hint = "t/" := by cbv
  have hrefused : l.resolver.resolve "../a.md" = .error (.accessDenied "../a.md" .parentSegment) := by
    cbv
  have hfail : missing.status ≠ .ok := by decide
  have hstart : (l.step s (.call "a.md")).read? 0 = some ⟨"a.md", "/t/a.md", .queued⟩ := by
    simp [s, step, call, hresolve, hkey, State.initial, start, Cache.get?, State.read?,
      State.withCaller, State.counting]
  have hend : (l.run s (.call "a.md" :: middle)).read? 0 =
      some ⟨"a.md", "/t/a.md", .ended (.result missing)⟩ := by
    simp [s, middle, run, step, call, hresolve, halias, hother, hkey, hkey', State.initial, start,
      join, begin, complete, store, State.setStage, Cache.get?, State.read?, State.withCaller,
      State.counting, State.logging, ReadResult.ofText, List.lookup_cons, hfail]
  have hasks : l.asks s "a.md" (.call "a.md" :: middle) 2 = true := by
    simp [asks, s, State.initial, middle, requested, asksFor, halias, hkey]
  have hwithout : l.withoutRead s "a.md" (.call "a.md" :: middle) =
      [.call "b.md", .begin 0, .complete 0 (.result (.ofText "B"))] := by
    have hrank : rank (· == 0) 1 = 0 := rank_succ_of_gone rfl
    simp [withoutRead, otherwise, asksFor, middle, s, State.initial, hresolve, halias, hother,
      hkey, hkey', hrank]
  have hjoins : (requested middle).countP (l.asksFor "a.md") = 1 := by
    simp [middle, requested, asksFor, halias, hother, hkey, hkey']
  obtain ⟨hdenied, -⟩ := failures_traceless l {} (.zero false) [] "../a.md"
  obtain ⟨-, hfailed⟩ := failures_traceless l {} (.zero false) [] "a.md"
  obtain ⟨hcache, -, -, -, hmetrics, htold⟩ :=
    hfailed "a.md" "/t/a.md" middle missing hstart hend hfail
  have ht : l.run s (l.withoutRead s "a.md" (.call "a.md" :: middle)) = t := by rw [hwithout]
  have hcache' : u.cache = t.cache := ht ▸ hcache
  have hmetrics' : u.metrics.Omits 1 1 t.metrics := by
    conv => arg 1; rw [← hjoins]
    exact ht ▸ hmetrics
  have htold' : ∀ later, ((l.step (l.run u later) (.deliver 2)).ending? 2).isSome ∧
      ∀ ending, (l.run u later).ending? 2 = some ending →
        ending = .failed (.notFound "a.md" "t/") ∨
          (ending = .stopped .cancelled ∧ .cancel 2 ∈ middle ++ later) := by
    rw [← hhint]
    exact htold 2 hasks
  obtain ⟨-, -, hsame, -⟩ := hdenied _ hrefused
  refine ⟨hsame, hstart, hend, hfail, hcache', hmetrics'.coalesced, ?_⟩
  -- What the caller is told is all that is needed of the state.
  clear_value u
  obtain ⟨ending, hending⟩ := Option.isSome_iff_exists.mp (htold' []).1
  rcases (htold' [.deliver 2]).2 ending hending with rfl | ⟨-, hcancel⟩
  · exact hending
  · exact absurd hcancel (by simp [middle])

end Loader

end PromptShelf
