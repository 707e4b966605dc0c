/-
Work that goes on undisturbed.

`Works` relates a state to those that come after it while nobody calls, nobody is stopped, the
cache is not cleared, and the reader has one answer for each path.  Reads may begin, end and be
announced in any order, and callers may be told whenever they can be.

To settle is to go on like this until nothing is left to do: all reads begin and end, then all
ends are announced, then all callers are told.

* **`Halted.settle`** — where no read is running, settling is undisturbed work, and who waits for a
  read has an answer when it is over.
-/
import PromptShelf.Proofs.Loader.History
import PromptShelf.Proofs.Loader.Progress

namespace PromptShelf.Loader

/-- What happens by itself while a reader answers for the paths it is asked for. -/
def Permitted (reader : String → ReadResult) (s : State) : Step → Prop
  | .begin _ | .announce _ | .deliver _ | .advance _ => True
  | .complete i answer => ∀ r, s.read? i = some r → answer = .result (reader r.path)
  | .call _ | .cancel _ | .clear => False

inductive Works (l : Loader) (reader : String → ReadResult) (s : State) : State → Prop
  | refl : Works l reader s s
  | step {t : State} (h : Works l reader s t) {x : Step} (hx : Permitted reader t x) :
    Works l reader s (l.step t x)

/-- The answers of a reader that is asked for the paths of reads. -/
def answering (reader : String → ReadResult) (r : Read) : Option Answer :=
  some (.result (reader r.path))

theorem answering_eq (reader : String → ReadResult) :
    answering reader = fun r => some (.result (reader r.path)) := rfl

variable {l : Loader} {reader : String → ReadResult} {s t u : State} {x : Step}

namespace Permitted

theorem not_call (h : Permitted reader s x) (requested : String) : x ≠ .call requested := by
  rintro rfl
  exact h

theorem not_cancel (h : Permitted reader s x) (c : Nat) : x ≠ .cancel c := by
  rintro rfl
  exact h

theorem not_clear (h : Permitted reader s x) : x ≠ .clear := by
  rintro rfl
  exact h

theorem answer_eq {i : Nat} {answer : Answer} (h : Permitted reader s (.complete i answer))
    {r : Read} (hread : s.read? i = some r) : answer = .result (reader r.path) :=
  h r hread

end Permitted

namespace Works

theorem trans (hst : Works l reader s t) (htu : Works l reader t u) : Works l reader s u := by
  induction htu with
  | refl => exact hst
  | step _ hx ih => exact ih.step hx

theorem exists_run (h : Works l reader s t) : ∃ steps, t = l.run s steps := by
  induction h with
  | refl => exact ⟨[], rfl⟩
  | @step t _ x _ ih =>
    obtain ⟨steps, rfl⟩ := ih
    exact ⟨steps ++ [x], (run_append_singleton ..).symm⟩

theorem ending?_of_some (h : Works l reader s t) {c : Nat} {ending : Ending String}
    (hending : s.ending? c = some ending) : t.ending? c = some ending := by
  obtain ⟨steps, rfl⟩ := h.exists_run
  rw [ending?_eq_some_iff] at hending ⊢
  exact callers_run_of_done hending l steps

theorem isSome_ending? (h : Works l reader s t) {c : Nat} (hdone : (s.ending? c).isSome) :
    (t.ending? c).isSome := by
  obtain ⟨ending, hending⟩ := Option.isSome_iff_exists.mp hdone
  exact Option.isSome_iff_exists.mpr ⟨ending, h.ending?_of_some hending⟩

theorem read?_of_some (h : Works l reader s t) {i : Nat} {key path : String} {stage' : Stage}
    (hread : t.read? i = some ⟨key, path, stage'⟩) :
    ∃ stage, s.read? i = some ⟨key, path, stage⟩ := by
  induction h generalizing stage' with
  | refl => exact ⟨stage', hread⟩
  | step _ hx ih =>
    obtain ⟨stage, hold, -⟩ := read?_of_step hx.not_call hread
    exact ih hold

theorem exists_read? (h : Works l reader s t) {i : Nat} {r : Read} (hread : s.read? i = some r) :
    ∃ r', t.read? i = some r' ∧ r'.key = r.key ∧ r'.path = r.path := by
  induction h with
  | refl => exact ⟨r, hread, rfl, rfl⟩
  | @step _ _ x _ ih =>
    obtain ⟨⟨key, path, stage⟩, hold, hkey, hpath⟩ := ih
    obtain ⟨stage', hread', -⟩ := read?_step (l := l) hold x
    exact ⟨_, hread', hkey, hpath⟩

theorem answer?_of_some (h : Works l reader s t) {i : Nat} {answer : Answer}
    (hanswer : s.answer? i = some answer) : t.answer? i = some answer := by
  induction h with
  | refl => exact hanswer
  | @step _ _ x _ ih => exact answer?_step ih x

theorem read?_of_announced (h : Works l reader s t) {i : Nat} {key path : String}
    {answer : Answer} (hread : s.read? i = some ⟨key, path, .announced answer⟩) :
    t.read? i = some ⟨key, path, .announced answer⟩ := by
  induction h with
  | refl => exact hread
  | @step _ _ x _ ih => exact read?_step_of_announced ih x

end Works

/-! ### Folds in phases -/

/-- A fold that goes through a list reaches with each element what the steps for the other
elements leave alone. -/
theorem foldl_reaches {σ α : Type} {P : σ → Prop} {Q : α → σ → Prop} {f : σ → α → σ}
    (keep : ∀ s x, P s → P (f s x)) (stay : ∀ s x y, P s → Q y s → Q y (f s x))
    (reach : ∀ s x, P s → Q x (f s x)) {s : σ} (hs : P s) (xs : List α) :
    P (xs.foldl f s) ∧ ∀ x ∈ xs, Q x (xs.foldl f s) := by
  induction xs using List.reverseRecOn with
  | nil => exact ⟨hs, fun x hx => absurd hx List.not_mem_nil⟩
  | append_singleton xs x ih =>
    obtain ⟨hP, hQ⟩ := ih
    rw [List.foldl_append, List.foldl_cons, List.foldl_nil]
    refine ⟨keep _ x hP, fun y hy => ?_⟩
    rcases List.mem_append.mp hy with hmem | hlast
    · exact stay _ x y hP (hQ y hmem)
    · obtain rfl := List.mem_singleton.mp hlast
      exact reach _ y hP

/-! ### Reads begin and end -/

/-- No read is running: each waits to begin, or has its answer. -/
def Halted (s : State) : Prop :=
  ∀ i r, s.read? i = some r → r.stage = .queued ∨ r.stage.answer?.isSome

theorem begin_complete {i : Nat} {key path : String}
    (h : s.read? i = some ⟨key, path, .queued⟩) (r : ReadResult) :
    (complete (begin s i) i (.result r)).reads = s.reads.set i ⟨key, path, .ended (.result r)⟩ := by
  have hbegun : (begin s i).reads = s.reads.set i ⟨key, path, .running s.now⟩ := by
    rw [begin.eq_def, h]
    have hstage := setStage_eq (s := s.logging (record Log.Severity.debug
      ("Loading template from disk: " ++ key))) h (.running s.now)
    show State.reads (State.setStage _ i (.running s.now)) = _
    rw [hstage]
    rfl
  obtain ⟨hread, -⟩ := begin_of_queued h
  rw [complete, hread]
  simp only [setStage_eq hread, store]
  have hset : (begin s i).reads.set i ⟨key, path, .ended (.result r)⟩ =
      s.reads.set i ⟨key, path, .ended (.result r)⟩ := by
    rw [hbegun, List.set_set]
  split
  · exact hset
  · exact hset

/-- A queued read begins and, if there is an answer, ends. -/
def startOne (l : Loader) (answer? : Read → Option Answer) (s : State) (i : Nat) : State :=
  match s.read? i with
  | some ⟨key, path, .queued⟩ =>
    let s := l.step s (.begin i)
    match answer? ⟨key, path, .queued⟩ with
    | some answer => l.step s (.complete i answer)
    | none => s
  | _ => s

theorem startQueued_eq (l : Loader) (answer? : Read → Option Answer) (s : State) :
    l.startQueued answer? s = (List.range s.reads.length).foldl (l.startOne answer?) s := rfl

theorem startOne_of_queued {i : Nat} {key path : String}
    (h : s.read? i = some ⟨key, path, .queued⟩) :
    l.startOne (answering reader) s i = complete (begin s i) i (.result (reader path)) := by
  rw [startOne, h]
  rfl

theorem startOne_of_answer {i : Nat} {key path : String} {stage : Stage}
    (h : s.read? i = some ⟨key, path, stage⟩) (hstage : stage.answer?.isSome) :
    l.startOne (answering reader) s i = s := by
  rw [startOne, h]
  cases stage with
  | queued => exact absurd hstage (by simp [Stage.answer?])
  | running | ended | announced => rfl

theorem Halted.startOne (h : Halted s) (l : Loader) (reader : String → ReadResult) (i : Nat) :
    Works l reader s (l.startOne (answering reader) s i) ∧
      Halted (l.startOne (answering reader) s i) ∧
      ∀ r, s.read? i = some r → ((l.startOne (answering reader) s i).answer? i).isSome := by
  cases hread : s.read? i with
  | none =>
    have hsame : l.startOne (answering reader) s i = s := by rw [Loader.startOne, hread]
    rw [hsame]
    exact ⟨.refl, h, fun r hr => absurd hr (by simp)⟩
  | some r =>
    obtain ⟨key, path, stage⟩ := r
    rcases h i _ hread with hqueued | hanswer
    · obtain rfl : stage = .queued := hqueued
      have hreads := begin_complete hread (reader path)
      rw [startOne_of_queued hread]
      refine ⟨?_, fun j r hr => ?_, fun r _ => ?_⟩
      · have hbegin : Works l reader s (begin s i) := Works.refl.step (x := .begin i) trivial
        refine hbegin.step (x := .complete i (.result (reader path))) fun r hr => ?_
        obtain rfl := Option.some.inj ((begin_of_queued hread).1.symm.trans hr)
        rfl
      · rcases read?_of_set hread hreads hr with ⟨-, rfl⟩ | ⟨-, hsame⟩
        · exact .inr rfl
        · exact h j r hsame
      · rw [State.answer?, State.read?, hreads, getElem?_set_of_some hread, if_pos rfl]
        rfl
    · rw [startOne_of_answer hread hanswer]
      refine ⟨.refl, h, fun r _ => ?_⟩
      rw [State.answer?, hread]
      exact hanswer

/-- All reads have ended. -/
def Ended (s : State) : Prop := ∀ i r, s.read? i = some r → (s.answer? i).isSome

theorem Ended.works (h : Ended s) (hworks : Works l reader s t) : Ended t := by
  intro i r hread
  obtain ⟨stage, hold⟩ := hworks.read?_of_some hread
  obtain ⟨answer, hanswer⟩ := Option.isSome_iff_exists.mp (h i _ hold)
  exact Option.isSome_iff_exists.mpr ⟨answer, hworks.answer?_of_some hanswer⟩

theorem Halted.startQueued (h : Halted s) (l : Loader) (reader : String → ReadResult) :
    Works l reader s (l.startQueued (answering reader) s) ∧
      Ended (l.startQueued (answering reader) s) := by
  rw [startQueued_eq]
  have keep : ∀ t i, Works l reader s t ∧ Halted t →
      Works l reader s (l.startOne (answering reader) t i) ∧
        Halted (l.startOne (answering reader) t i) := by
    rintro t i ⟨hworks, hhalted⟩
    obtain ⟨hone, hstill, -⟩ := hhalted.startOne l reader i
    exact ⟨hworks.trans hone, hstill⟩
  have stay : ∀ t i j, Works l reader s t ∧ Halted t →
      (∀ r, t.read? j = some r → (t.answer? j).isSome) →
      ∀ r, (l.startOne (answering reader) t i).read? j = some r →
        ((l.startOne (answering reader) t i).answer? j).isSome := by
    rintro t i j ⟨-, hhalted⟩ hj r hread
    obtain ⟨hone, -⟩ := hhalted.startOne l reader i
    obtain ⟨stage, hold⟩ := hone.read?_of_some hread
    obtain ⟨answer, hanswer⟩ := Option.isSome_iff_exists.mp (hj _ hold)
    exact Option.isSome_iff_exists.mpr ⟨answer, hone.answer?_of_some hanswer⟩
  have reach : ∀ t i, Works l reader s t ∧ Halted t →
      ∀ r, (l.startOne (answering reader) t i).read? i = some r →
        ((l.startOne (answering reader) t i).answer? i).isSome := by
    rintro t i ⟨-, hhalted⟩ r hread
    obtain ⟨hone, -, hanswer⟩ := hhalted.startOne l reader i
    obtain ⟨stage, hold⟩ := hone.read?_of_some hread
    exact hanswer _ hold
  obtain ⟨⟨hworks, -⟩, hreached⟩ := foldl_reaches keep stay reach ⟨Works.refl, h⟩
    (List.range s.reads.length)
  refine ⟨hworks, fun i r hread => hreached i (List.mem_range.mpr ?_) r hread⟩
  obtain ⟨stage, hold⟩ := hworks.read?_of_some hread
  exact (List.getElem?_eq_some_iff.mp hold).1

/-! ### Ends are announced -/

/-- The ends of all reads are announced. -/
def Announced (s : State) : Prop :=
  ∀ i r, s.read? i = some r → ∃ answer, r.stage = .announced answer

theorem Announced.works (h : Announced s) (hworks : Works l reader s t) : Announced t := by
  rintro i ⟨key, path, stage'⟩ hread
  obtain ⟨stage, hold⟩ := hworks.read?_of_some hread
  obtain ⟨answer, rfl⟩ : ∃ answer, stage = .announced answer := h i _ hold
  have hkept := hworks.read?_of_announced hold
  exact ⟨answer, congrArg Read.stage (Option.some.inj (hread.symm.trans hkept))⟩

theorem Ended.announce (h : Ended s) (i : Nat) (r : Read)
    (hread : (announce s i).read? i = some r) : ∃ answer, r.stage = .announced answer := by
  cases hold : s.read? i with
  | none =>
    rw [Loader.announce, hold] at hread
    exact absurd (hold.symm.trans hread) (by simp)
  | some old =>
    obtain ⟨key, path, stage⟩ := old
    have hanswer := h i _ hold
    rw [State.answer?, hold] at hanswer
    cases stage with
    | queued | running => exact absurd hanswer (by simp [Stage.answer?])
    | ended answer =>
      have hannounced := (announce_of_ended hold).1
      exact ⟨answer, congrArg Read.stage (Option.some.inj (hread.symm.trans hannounced))⟩
    | announced answer =>
      rw [announce_of_announced hold, hold] at hread
      exact ⟨answer, congrArg Read.stage (Option.some.inj hread.symm)⟩

theorem Ended.announceAll (h : Ended s) (l : Loader) (reader : String → ReadResult) :
    let t := (List.range s.reads.length).foldl (fun s i => l.step s (.announce i)) s
    Works l reader s t ∧ Announced t := by
  intro t
  have hstep : ∀ t i, Works l reader t (l.step t (.announce i)) := fun t i =>
    Works.refl.step (x := .announce i) trivial
  have keep : ∀ t i, Works l reader s t → Works l reader s (l.step t (.announce i)) :=
    fun t i hworks => hworks.trans (hstep t i)
  have stay : ∀ t i j, Works l reader s t →
      (∀ r, t.read? j = some r → ∃ answer, r.stage = .announced answer) →
      ∀ r, (l.step t (.announce i)).read? j = some r → ∃ answer, r.stage = .announced answer := by
    rintro t i j - hj ⟨key, path, stage'⟩ hread
    obtain ⟨stage, hold⟩ := (hstep t i).read?_of_some hread
    obtain ⟨answer, rfl⟩ : ∃ answer, stage = .announced answer := hj _ hold
    have hkept := (hstep t i).read?_of_announced hold
    exact ⟨answer, congrArg Read.stage (Option.some.inj (hread.symm.trans hkept))⟩
  have reach : ∀ t i, Works l reader s t →
      ∀ r, (l.step t (.announce i)).read? i = some r → ∃ answer, r.stage = .announced answer :=
    fun t i hworks => (h.works hworks).announce i
  obtain ⟨hworks, hreached⟩ := foldl_reaches keep stay reach Works.refl
    (List.range s.reads.length)
  refine ⟨hworks, fun i r hread => hreached i (List.mem_range.mpr ?_) r hread⟩
  obtain ⟨stage, hold⟩ := hworks.read?_of_some hread
  exact (List.getElem?_eq_some_iff.mp hold).1

/-! ### Callers are told -/

/-- A caller waits until it is done. -/
theorem Works.callers (h : Works l reader s t) {c i : Nat}
    (hcaller : s.callers[c]? = some (.waiting i)) :
    t.callers[c]? = some (.waiting i) ∨ (t.ending? c).isSome := by
  induction h with
  | refl => exact .inl hcaller
  | @step t _ x hx ih =>
    rcases ih with hwaiting | hdone
    · rcases callers_step hwaiting l x with hsame | ⟨_, -, ⟨rfl, -⟩ | ⟨_, _, _, -, htold⟩⟩
      · exact .inl hsame
      · exact absurd rfl (hx.not_cancel c)
      · exact .inr (isSome_of_done htold)
    · have hstep : Works l reader t (l.step t x) := Works.refl.step hx
      exact .inr (hstep.isSome_ending? hdone)

theorem Announced.deliverAll (h : Announced s) (l : Loader) (reader : String → ReadResult) :
    let t := (List.range s.callers.length).foldl (fun s c => l.step s (.deliver c)) s
    Works l reader s t ∧ ∀ c i, s.callers[c]? = some (.waiting i) → (s.read? i).isSome →
      (t.ending? c).isSome := by
  intro t
  have hstep : ∀ t c, Works l reader t (l.step t (.deliver c)) := fun t c =>
    Works.refl.step (x := .deliver c) trivial
  have keep : ∀ t c, Works l reader s t → Works l reader s (l.step t (.deliver c)) :=
    fun t c hworks => hworks.trans (hstep t c)
  have stay : ∀ t c d, Works l reader s t →
      (∀ i, s.callers[d]? = some (.waiting i) → (s.read? i).isSome → (t.ending? d).isSome) →
      ∀ i, s.callers[d]? = some (.waiting i) → (s.read? i).isSome →
        ((l.step t (.deliver c)).ending? d).isSome :=
    fun t c d _ hd i hcaller hread => (hstep t c).isSome_ending? (hd i hcaller hread)
  have reach : ∀ t c, Works l reader s t → ∀ i, s.callers[c]? = some (.waiting i) →
      (s.read? i).isSome → ((l.step t (.deliver c)).ending? c).isSome := by
    intro t c hworks i hcaller hread
    obtain ⟨⟨key, path, stage⟩, hold⟩ := Option.isSome_iff_exists.mp hread
    obtain ⟨answer, rfl⟩ : ∃ answer, stage = .announced answer := h i _ hold
    rcases hworks.callers hcaller with hwaiting | hdone
    · have htold := ending?_deliver (l := l) hwaiting (hworks.read?_of_announced hold)
      exact Option.isSome_iff_exists.mpr ⟨_, htold⟩
    · exact (hstep t c).isSome_ending? hdone
  obtain ⟨hworks, hreached⟩ := foldl_reaches keep stay reach Works.refl
    (List.range s.callers.length)
  refine ⟨hworks, fun c i hcaller => hreached c (List.mem_range.mpr ?_) i hcaller⟩
  exact (List.getElem?_eq_some_iff.mp hcaller).1

/-- Settling is work that goes on undisturbed, and nobody waits for a read in vain. -/
theorem Halted.settle (h : Halted s) (l : Loader) (reader : String → ReadResult) :
    Works l reader s (l.settle (answering reader) s) ∧
      ∀ c i, s.callers[c]? = some (.waiting i) → (s.read? i).isSome →
        ((l.settle (answering reader) s).ending? c).isSome := by
  obtain ⟨hstarted, hended⟩ := h.startQueued l reader
  obtain ⟨hannouncing, hannounced⟩ := hended.announceAll l reader
  obtain ⟨hdelivering, htold⟩ := hannounced.deliverAll l reader
  have hbefore := hstarted.trans hannouncing
  refine ⟨hbefore.trans hdelivering, fun c i hcaller hread => ?_⟩
  rcases hbefore.callers hcaller with hwaiting | hdone
  · refine htold c i hwaiting (Option.isSome_iff_exists.mpr ?_)
    obtain ⟨⟨key, path, stage⟩, hold⟩ := Option.isSome_iff_exists.mp hread
    obtain ⟨r, hread', -⟩ := hbefore.exists_read? hold
    exact ⟨r, hread'⟩
  · exact hdelivering.isSome_ending? hdone

end PromptShelf.Loader
