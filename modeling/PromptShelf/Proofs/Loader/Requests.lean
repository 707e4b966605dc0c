/-
What the reader is asked for.

The reader is asked once for each read that has begun, for the path of the read, and the path of
a read is that of a request that was resolved.

* **`requests_run`** — the requests to the reader are the paths of the reads that have begun, in
  the order in which they began;
* **`resolves_run`** — every read is one of a resolved request;
* **`extension_gate`** — so with a list of extensions the reader is only asked for paths below
  the root that have one of them.
-/
import PromptShelf.Proofs.Loader.History
import PromptShelf.Proofs.Path.Extensions

namespace PromptShelf.Loader

/-- The reader has been asked for the read. -/
def HasBegun (s : State) (i : Nat) : Prop := ∃ r, s.read? i = some r ∧ r.stage ≠ .queued

/-- The paths of some reads. -/
def pathsOf (s : State) (reads : List Nat) : List String :=
  reads.filterMap fun i => (s.read? i).map Read.path

/-- Every read is one of a request that was resolved. -/
def Resolves (l : Loader) (s : State) : Prop :=
  ∀ i r, s.read? i = some r →
    r.key = l.resolver.key r.path ∧ ∃ requested, l.resolver.resolve requested = .ok r.path

variable {l : Loader} {s t : State} {steps : List Step}

theorem resolves_step (h : Resolves l s) (x : Step) : Resolves l (l.step s x) := by
  intro i r hread
  cases hold : s.read? i with
  | none =>
    obtain ⟨requested, path, -, hresolve, rfl⟩ := exists_call_of_read?_step hold hread
    exact ⟨rfl, requested, hresolve⟩
  | some old =>
    obtain ⟨key, path, stage⟩ := old
    obtain ⟨stage', hread', -⟩ := read?_step (l := l) hold x
    obtain rfl := Option.some.inj (hread'.symm.trans hread)
    exact h i ⟨key, path, stage⟩ hold

theorem resolves_run (h : Resolves l s) (steps : List Step) : Resolves l (l.run s steps) := by
  induction steps generalizing s with
  | nil => exact h
  | cons x rest ih => exact ih (resolves_step h x)

/-! ### One request for each read that has begun -/

theorem pathsOf_step (l : Loader) (s : State) (x : Step) {reads : List Nat}
    (h : ∀ i ∈ reads, HasBegun s i) : pathsOf (l.step s x) reads = pathsOf s reads := by
  refine List.filterMap_congr fun i hi => ?_
  obtain ⟨⟨key, path, stage⟩, hread, -⟩ := h i hi
  obtain ⟨stage', hread', -⟩ := read?_step (l := l) hread x
  rw [hread, hread']
  rfl

theorem hasBegun_set {i : Nat} {key path : String} {old new : Stage}
    (hold : s.read? i = some ⟨key, path, old⟩) (hreads : t.reads = s.reads.set i ⟨key, path, new⟩)
    (hnew : new ≠ .queued) (j : Nat) : HasBegun t j ↔ HasBegun s j ∨ j = i := by
  rw [HasBegun, State.read?, hreads, getElem?_set_of_some hold]
  by_cases hj : i = j
  · subst hj
    simp [hnew]
  · rw [if_neg hj, HasBegun, State.read?]
    simp [Ne.symm hj]

/-- With a step one read begins, and the reader is asked for its path, or none does. -/
theorem hasBegun_step (l : Loader) (s : State) (x : Step) :
    (∃ i key path, s.read? i = some ⟨key, path, .queued⟩ ∧
        (l.step s x).read? i = some ⟨key, path, .running s.now⟩ ∧
        (∀ j, HasBegun (l.step s x) j ↔ HasBegun s j ∨ j = i) ∧
        (l.step s x).requests = s.requests ++ [path]) ∨
      (∀ j, HasBegun (l.step s x) j ↔ HasBegun s j) ∧ (l.step s x).requests = s.requests := by
  generalize ht : l.step s x = t
  have hmove := ht ▸ moves_step l s x
  -- Setting the stage of a read that has begun makes no read begin.
  have hset : ∀ {i : Nat} {key path : String} {old new : Stage},
      s.read? i = some ⟨key, path, old⟩ → t.reads = s.reads.set i ⟨key, path, new⟩ →
      old ≠ .queued → new ≠ .queued → ∀ j, HasBegun t j ↔ HasBegun s j := by
    intro i key path old new hold hreads hbegun hnew j
    rw [hasBegun_set hold hreads hnew]
    refine or_iff_left_of_imp ?_
    rintro rfl
    exact ⟨_, hold, hbegun⟩
  cases hmove with
  | refused | hit | joined | joinedLate | delivered | cancelled | cleared | advanced | idle =>
    exact .inr ⟨fun j => Iff.rfl, rfl⟩
  | started =>
    refine .inr ⟨fun j => ?_, rfl⟩
    rw [HasBegun, HasBegun, State.read?, State.read?]
    rcases Nat.lt_or_ge j s.reads.length with hlt | hge
    · rw [List.getElem?_append_left hlt]
    · rw [List.getElem?_append_right hge, List.getElem?_eq_none hge, List.getElem?_singleton]
      split <;> simp
  | @begun i key path log hread =>
    exact .inl ⟨i, key, path, hread, (getElem?_set_of_some hread _ i).trans (if_pos rfl),
      hasBegun_set hread rfl (by simp), rfl⟩
  | stored hread | failed hread | broken hread =>
    exact .inr ⟨hset hread rfl (by simp) (by simp), rfl⟩
  | announced hread => exact .inr ⟨hset hread rfl (by simp) (by simp), rfl⟩

theorem HasBegun.run {i : Nat} (h : HasBegun s i) (l : Loader) (steps : List Step) :
    HasBegun (l.run s steps) i := by
  induction steps generalizing s with
  | nil => exact h
  | cons x rest ih =>
    refine ih ?_
    rcases hasBegun_step l s x with ⟨j, -, -, -, -, hbegun, -⟩ | ⟨hbegun, -⟩
    · exact (hbegun i).mpr (.inl h)
    · exact (hbegun i).mpr h

/-- The requests to the reader are the paths of the reads that have begun, each once and in the
order in which they began. -/
theorem requests_run (l : Loader) (s : State) (steps : List Step) :
    ∃ begun : List Nat, begun.Nodup ∧
      (∀ i, i ∈ begun ↔ HasBegun (l.run s steps) i ∧ ¬ HasBegun s i) ∧
      (l.run s steps).requests = s.requests ++ pathsOf (l.run s steps) begun := by
  induction steps using List.reverseRecOn with
  | nil => exact ⟨[], List.nodup_nil, by simp [run_nil], by simp [run_nil, pathsOf]⟩
  | append_singleton steps x ih =>
    obtain ⟨begun, hnodup, hmem, hrequests⟩ := ih
    rw [run_append_singleton]
    have hkept : ∀ i, HasBegun s i → HasBegun (l.run s steps) i := fun i h => h.run l steps
    generalize l.run s steps = t at hmem hrequests hkept
    have hpaths : pathsOf (l.step t x) begun = pathsOf t begun :=
      pathsOf_step l t x fun i hi => ((hmem i).mp hi).1
    rcases hasBegun_step l t x with
      ⟨i, key, path, hqueued, hrunning, hbegun, hasked⟩ | ⟨hbegun, hasked⟩
    · have hi : ¬ HasBegun t i := by
        rintro ⟨r, hread, hstage⟩
        obtain rfl := Option.some.inj (hqueued.symm.trans hread)
        exact hstage rfl
      have hold : ¬ HasBegun s i := fun h => hi (hkept i h)
      refine ⟨begun ++ [i], ?_, fun j => ?_, ?_⟩
      · rw [List.nodup_append]
        refine ⟨hnodup, List.nodup_singleton _, fun j hj k hk heq => ?_⟩
        obtain rfl := List.mem_singleton.mp hk
        exact hi (heq ▸ ((hmem j).mp hj).1)
      · rw [List.mem_append, List.mem_singleton, hmem, hbegun]
        constructor
        · rintro (⟨h, hs⟩ | rfl)
          · exact ⟨.inl h, hs⟩
          · exact ⟨.inr rfl, hold⟩
        · rintro ⟨h | rfl, hs⟩
          · exact .inl ⟨h, hs⟩
          · exact .inr rfl
      · rw [hasked, hrequests, ← hpaths, List.append_assoc, pathsOf, pathsOf, List.filterMap_append]
        simp [hrunning]
    · exact ⟨begun, hnodup, fun j => by rw [hmem, hbegun], by rw [hasked, hrequests, hpaths]⟩

/-! ### Requests and extensions -/

/-- The reader is only asked for the paths of requests that were resolved. -/
theorem exists_resolve_of_mem_requests (hs : Resolves l s) (hrequests : s.requests = [])
    {path : String} (h : path ∈ (l.run s steps).requests) :
    ∃ requested, l.resolver.resolve requested = .ok path := by
  obtain ⟨begun, -, -, hasked⟩ := requests_run l s steps
  rw [hasked, hrequests, List.nil_append] at h
  obtain ⟨i, -, hpath⟩ := List.mem_filterMap.mp h
  obtain ⟨r, hread, rfl⟩ := Option.map_eq_some_iff.mp hpath
  exact (resolves_run hs steps i r hread).2

/-- However a request is spelled: when it must have one of some extensions and is resolved, by
itself or by a resolver, its path is below the root and the last segment of that path has one of
them.  So in every run of a loader the reader is only asked for such paths. -/
theorem extension_gate (directory root : String)
    (hdirectory : Path.isAbsolute directory.toList = true) (extensions : List String)
    (hextensions : ∀ e ∈ extensions, Path.IsExtension e) :
    let base := Path.absolute directory.toList root.toList
    (∀ requested path, Path.resolve directory root requested (some extensions) = .ok path →
        Path.Allowed base extensions path) ∧
      (∀ requested path,
        (Resolver.make directory root (some extensions)).resolve requested = .ok path →
        Path.Allowed base extensions path) ∧
      ∀ l : Loader, l.resolver = .make directory root (some extensions) →
        ∀ (cache : Cache) (now : Binary64) (steps : List Step),
          ∀ path ∈ (l.run { State.initial now with cache := cache } steps).requests,
            Path.Allowed base extensions path := by
  intro base
  have hresolver : ∀ requested path,
      (Resolver.make directory root (some extensions)).resolve requested = .ok path →
        Path.Allowed base extensions path := by
    intro requested path h
    have hallowed := Path.allowed_of_resolve hdirectory hextensions h
    -- The root of the resolver is in normal form already.
    rw [Resolver.make, String.toList_ofList, Path.absolute_eq_text directory.toList root.toList,
      Path.absolute_text (Path.rooted_read (Path.isAbsolute_append hdirectory root.toList))]
      at hallowed
    exact hallowed
  refine ⟨fun requested path h => Path.allowed_of_resolve hdirectory hextensions h, hresolver, ?_⟩
  intro l hl cache now steps path hpath
  have hnone : Resolves l { State.initial now with cache := cache } := fun i r hread =>
    absurd hread (by simp [State.initial, State.read?])
  obtain ⟨requested, hresolve⟩ := exists_resolve_of_mem_requests hnone rfl hpath
  rw [hl] at hresolve
  exact hresolver requested path hresolve

theorem extension_gate_kelvin :
    let l : Loader := ⟨.make "/srv" "../t/" (some [".mk"]), []⟩
    let s := l.run (.initial (.zero false)) [.call "./Σ\\b.M\u212A", .begin 0]
    (∀ e ∈ [".mk"], Path.IsExtension e) ∧ s.requests = ["/t/Σ/b.M\u212A"] ∧
      Path.Allowed "/t".toList [".mk"] "/t/Σ/b.M\u212A" := by
  intro l s
  have hextensions : ∀ e ∈ [".mk"], Path.IsExtension e := by
    intro e he
    obtain rfl := List.mem_singleton.mp he
    have htext : ".mk".toList = ['.', 'm', 'k'] := rfl
    refine ⟨⟨'m', ['k'], htext⟩, fun c hc => ?_⟩
    rw [htext] at hc
    simp only [List.mem_cons, List.not_mem_nil, or_false] at hc
    rcases hc with rfl | rfl | rfl <;> decide
  have hextension : Path.hasExtension "./Σ\\b.M\u212A" [".mk"] = true := by decide +kernel
  have hcheck : Path.checkExtension "./Σ\\b.M\u212A" (some [".mk"]) = .ok () := by
    rw [Path.checkExtension, if_pos hextension]
  have hresolve : l.resolver.resolve "./Σ\\b.M\u212A" = .ok "/t/Σ/b.M\u212A" :=
    Path.resolve_eq_ok_iff.mpr ⟨by cbv, hcheck⟩
  have hrequests : s.requests = ["/t/Σ/b.M\u212A"] := by
    simp [s, run, step, call, hresolve, State.initial, start, begin, State.setStage, Cache.get?,
      State.read?, State.withCaller, State.counting, State.logging]
  obtain ⟨-, -, hallowed⟩ := extension_gate "/srv" "../t/" (by decide) [".mk"] hextensions
  have hbase : Path.absolute "/srv".toList "../t/".toList = "/t".toList := by decide
  rw [hbase] at hallowed
  exact ⟨hextensions, hrequests, hallowed l rfl {} _ _ _ (by
    show _ ∈ s.requests
    rw [hrequests]
    exact List.mem_singleton_self _)⟩

end PromptShelf.Loader
