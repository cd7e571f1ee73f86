import Runlimit.Proof.Batch
import Runlimit.Spec.History

/-!
# What a call does to one key

`serve_keyStep` says once, for the reference store over any algorithm, everything a call can
do to the entry of a key: leave its shard alone, let time pass on it, or charge it with one
allowed check. The run-level results about a key are inductions over these three cases.
-/

namespace Runlimit

variable {P E : Type} [RateLimitPolicy P] {config : MemoryStoreConfig}

/-- The effect of an event on a key, from its shard before to its shard after. -/
inductive KeyStep (config : MemoryStoreConfig) (alg : Algorithm P E) (key : CounterKey)
    (event : Event P) (s s' : RefShard E) : Prop where
  /-- The shard was not touched. -/
  | idle (hidle : ¬ event.Touches config (config.shardIndex key)) (hcosts : event.costs key = [])
      (hsame : s' = s)
  /-- Time moved on, and the key was not charged. -/
  | passed (htouch : event.Touches config (config.shardIndex key)) (hcosts : event.costs key = [])
      (hobs : s.observedMillis ≤ event.nowMillis) (hobs' : s'.observedMillis = event.nowMillis)
      (hentry : s'.entries.lookup key = (s.advance event.nowMillis).entries.lookup key)
  /-- One check of the key was allowed. -/
  | charged (htouch : event.Touches config (config.shardIndex key)) (c : Check P)
      (hc : c ∈ event.request.checks) (hkey : c.counterKey = key) (hcosts : event.costs key = [c.cost])
      (hobs : s.observedMillis ≤ event.nowMillis) (hobs' : s'.observedMillis = event.nowMillis)
      (entry : StoredEntry E) (allowance : Allowance)
      (hevaluate : alg.evaluate c event.nowMillis ((s.advance event.nowMillis).entries.lookup key) =
        .ok (.allowed entry allowance))
      (hentry : s'.entries.lookup key = some entry)

/-- The entries that survive the advance of a shard. -/
theorem RefShard.lookup_advance {s : RefShard E} {key : CounterKey} {now : ℕ} {entry : StoredEntry E} :
    (s.advance now).entries.lookup key = some entry ↔
      s.entries.lookup key = some entry ∧ now < entry.expiresAtMillis := by
  unfold RefShard.advance
  simp only [Finmap.lookup_filter, Option.filter_eq_some_iff, decide_eq_true_eq]

/-- The verdicts on a batch are on distinct keys, like its checks. -/
theorem nodup_verdicts {checks : List (Check P)} {verdicts : List (Check P × Verdict E)}
    (hchecks : verdicts.map Prod.fst = checks) (hnodup : (checks.map Check.counterKey).Nodup) :
    (verdicts.map fun p => p.1.counterKey).Nodup := by
  have hmap : (verdicts.map fun p => p.1.counterKey) = checks.map Check.counterKey := by
    rw [← hchecks, List.map_map]
    rfl
  rw [hmap]
  exact hnodup

/-! ## Storing a batch -/

namespace RefStore

variable {store : RefStore config E}

theorem advance_of_mem {touched : Finset (Fin config.shardCount)} {now : ℕ} {i : Fin config.shardCount}
    (h : i ∈ touched) : store.advance touched now i = (store i).advance now := if_pos h

theorem advance_of_notMem {touched : Finset (Fin config.shardCount)} {now : ℕ}
    {i : Fin config.shardCount} (h : i ∉ touched) : store.advance touched now i = store i := if_neg h

/-- Storing one key, seen from another. -/
theorem lookup_update_put {i : Fin config.shardCount} {k key : CounterKey} (h : key ≠ k)
    (entry : StoredEntry E) (j : Fin config.shardCount) :
    (Function.update store i ((store i).put k entry) j).entries.lookup key =
      (store j).entries.lookup key := by
  by_cases hj : j = i
  · rw [hj, Function.update_self]
    unfold RefShard.put
    rw [Finmap.lookup_insert_if, if_neg h]
  · rw [Function.update_of_ne hj]

theorem observed_update_put (i : Fin config.shardCount) (k : CounterKey) (entry : StoredEntry E)
    (j : Fin config.shardCount) :
    (Function.update store i ((store i).put k entry) j).observedMillis = (store j).observedMillis := by
  by_cases hj : j = i
  · rw [hj, Function.update_self]
    rfl
  · rw [Function.update_of_ne hj]

/-- Storing entries moves no time. -/
theorem observed_putAll : ∀ (verdicts : List (Check P × Verdict E)) (store : RefStore config E)
    (i : Fin config.shardCount), (putAll verdicts store i).observedMillis = (store i).observedMillis := by
  intro verdicts
  induction verdicts with
  | nil => intro store i; rfl
  | cons p rest ih =>
    intro store i
    obtain ⟨c, v⟩ := p
    cases v with
    | denied d => exact ih store i
    | allowed e a =>
      unfold putAll
      rw [ih, observed_update_put]

/-- A shard no check is routed to is left alone. -/
theorem putAll_of_notMem : ∀ {verdicts : List (Check P × Verdict E)} (store : RefStore config E)
    {i : Fin config.shardCount}, (∀ p ∈ verdicts, p.1.shard config ≠ i) → putAll verdicts store i = store i := by
  intro verdicts
  induction verdicts with
  | nil => intro store i _; rfl
  | cons p rest ih =>
    intro store i h
    obtain ⟨c, v⟩ := p
    rw [List.forall_mem_cons] at h
    cases v with
    | denied d => exact ih store h.2
    | allowed e a =>
      unfold putAll
      rw [ih _ h.2, Function.update_of_ne (Ne.symm h.1)]

/-- A key without a check is left alone. -/
theorem lookup_putAll_of_notMem {key : CounterKey} : ∀ {verdicts : List (Check P × Verdict E)}
    (store : RefStore config E) (i : Fin config.shardCount), (∀ p ∈ verdicts, p.1.counterKey ≠ key) →
    (putAll verdicts store i).entries.lookup key = (store i).entries.lookup key := by
  intro verdicts
  induction verdicts with
  | nil => intro store i _; rfl
  | cons p rest ih =>
    intro store i h
    obtain ⟨c, v⟩ := p
    rw [List.forall_mem_cons] at h
    cases v with
    | denied d => exact ih store i h.2
    | allowed e a =>
      unfold putAll
      rw [ih _ i h.2, lookup_update_put (Ne.symm h.1)]

/-- A key of the batch gets the entry of its verdict. -/
theorem lookup_putAll_of_mem : ∀ {verdicts : List (Check P × Verdict E)} (store : RefStore config E),
    (verdicts.map fun p => p.1.counterKey).Nodup → ∀ {c : Check P} {entry : StoredEntry E}
    {allowance : Allowance}, (c, .allowed entry allowance) ∈ verdicts →
    (putAll verdicts store (c.shard config)).entries.lookup c.counterKey = some entry := by
  intro verdicts
  induction verdicts with
  | nil => intro store _ c entry allowance h; cases h
  | cons p rest ih =>
    intro store hnodup c entry allowance h
    obtain ⟨c', v⟩ := p
    rw [List.map_cons, List.nodup_cons] at hnodup
    rcases List.mem_cons.1 h with heq | hmem
    · -- the entry of this verdict; the later ones are of other keys
      cases heq
      unfold putAll
      rw [lookup_putAll_of_notMem]
      · rw [Function.update_self]
        unfold RefShard.put
        rw [Finmap.lookup_insert_if, if_pos rfl]
      · intro p hp heq
        exact hnodup.1 (List.mem_map.2 ⟨p, hp, heq⟩)
    · cases v with
      | denied d => exact ih store hnodup.2 hmem
      | allowed e a =>
        unfold putAll
        exact ih _ hnodup.2 hmem

end RefStore

/-! ## Costs -/

/-- What is refused is not charged. -/
theorem costs_of_not_allowed {event : Event P} {key : CounterKey} (h : event.response.allowed = false) :
    event.costs key = [] := by
  unfold Event.costs
  rw [h]
  rfl

/-- A request without the key charges nothing to it. -/
theorem costs_of_notMem {event : Event P} {key : CounterKey}
    (h : ∀ c ∈ event.request.checks, c.counterKey ≠ key) : event.costs key = [] := by
  have hfilter : event.request.checks.filter (fun c => decide (c.counterKey = key)) = [] := by
    rw [List.filter_eq_nil_iff]
    intro c hc
    rw [decide_eq_true_eq]
    exact h c hc
  unfold Event.costs
  rw [hfilter]
  split
  · rfl
  · rfl

/-- A batch has at most one check of a key. -/
theorem filter_key_eq_singleton {c : Check P} : ∀ {checks : List (Check P)},
    (checks.map Check.counterKey).Nodup → c ∈ checks →
    checks.filter (fun d => decide (d.counterKey = c.counterKey)) = [c] := by
  intro checks
  induction checks with
  | nil => intro _ h; cases h
  | cons d rest ih =>
    intro hnodup hmem
    rw [List.map_cons, List.nodup_cons] at hnodup
    rcases List.mem_cons.1 hmem with rfl | hmem
    · have hrest : rest.filter (fun d => decide (d.counterKey = c.counterKey)) = [] := by
        rw [List.filter_eq_nil_iff]
        intro d hd
        rw [decide_eq_true_eq]
        intro heq
        exact hnodup.1 (List.mem_map.2 ⟨d, hd, heq⟩)
      rw [List.filter_cons_of_pos (by simp), hrest]
    · have hne : d.counterKey ≠ c.counterKey := by
        intro heq
        exact hnodup.1 (heq ▸ List.mem_map_of_mem hmem)
      rw [List.filter_cons_of_neg (by simpa using hne)]
      exact ih hnodup.2 hmem

/-- A check of an allowed request is charged once. -/
theorem costs_of_mem {event : Event P} {c : Check P} (hallowed : event.response.allowed = true)
    (hnodup : (event.request.checks.map Check.counterKey).Nodup) (hc : c ∈ event.request.checks) :
    event.costs c.counterKey = [c.cost] := by
  unfold Event.costs
  rw [hallowed, filter_key_eq_singleton hnodup hc]
  rfl

/-! ## What an operation of the reference store can do -/

namespace RefStore

variable {alg : Algorithm P E} {now : ℕ} {store : RefStore config E}

/-- A single check fails, exceeds its quota, or has quota: then it is refused for lack of storage,
or its entry is stored. -/
theorem check_cases (alg : Algorithm P E) (now : ℕ) (c : Check P) (store : RefStore config E) :
    (∃ e, alg.evaluate c now ((store.advance {c.shard config} now).entry c) = .error e ∧
      check alg now c store = (.error e, store)) ∨
    (∃ d, alg.evaluate c now ((store.advance {c.shard config} now).entry c) = .ok (.denied d) ∧
      check alg now c store = (.ok (.quotaExceeded c.quotaMode d), store.advance {c.shard config} now)) ∨
    ∃ entry allowance,
      alg.evaluate c now ((store.advance {c.shard config} now).entry c) = .ok (.allowed entry allowance) ∧
      ((∃ after, check alg now c store =
          (.ok (.denied (.storageCapacity after)), store.advance {c.shard config} now)) ∨
        check alg now c store = (.ok (.allowed allowance),
          Function.update (store.advance {c.shard config} now) (c.shard config)
            ((store.advance {c.shard config} now (c.shard config)).put c.counterKey entry))) := by
  unfold check
  cases hev : alg.evaluate c now ((store.advance {c.shard config} now).entry c) with
  | error e =>
    refine Or.inl ⟨e, rfl, ?_⟩
    simp only [hev]
  | ok verdict =>
    cases verdict with
    | denied d =>
      refine Or.inr (Or.inl ⟨d, rfl, ?_⟩)
      simp only [hev]
    | allowed entry allowance =>
      refine Or.inr (Or.inr ⟨entry, allowance, rfl, ?_⟩)
      simp only [hev]
      by_cases hfull : c.counterKey ∉ (store.advance {c.shard config} now (c.shard config)).entries.keys ∧
          config.shardCapacity (c.shard config) ≤
            (store.advance {c.shard config} now (c.shard config)).entries.keys.card
      · rw [if_pos hfull]
        exact Or.inl ⟨_, rfl⟩
      · rw [if_neg hfull]
        exact Or.inr rfl

/-- A batch fails, refuses, or stores one entry for each of its checks. -/
theorem checkAll_cases (alg : Algorithm P E) (now : ℕ) (checks : List (Check P))
    (store : RefStore config E) :
    (∃ e, checkAll alg now checks store = (.error e, store)) ∨
    (∃ o, checkAll alg now checks store = (.ok ⟨o⟩, store.advance (touched config checks) now) ∧
      (Response.checkAll (.returned (.ok ⟨o⟩))).allowed = false) ∨
    ∃ verdicts, evaluateAll alg now (store.advance (touched config checks) now).entry checks = .ok verdicts ∧
      (checks.map Check.counterKey).Nodup ∧
      (∀ p ∈ verdicts, ∃ entry allowance, p.2 = .allowed entry allowance) ∧
      checkAll alg now checks store = (.ok ⟨.allowed (allowances verdicts)⟩,
        (store.advance (touched config checks) now).putAll verdicts) := by
  unfold checkAll
  cases hvalid : validateBatch checks config.maxBatchSize with
  | error e => exact Or.inl ⟨_, rfl⟩
  | ok u =>
    cases overfull config checks with
    | some e => exact Or.inl ⟨_, rfl⟩
    | none =>
      simp only
      cases hev : evaluateAll alg now (store.advance (touched config checks) now).entry checks with
      | error e => exact Or.inl ⟨_, rfl⟩
      | ok verdicts =>
        simp only
        split
        · -- the scan only ever finds denials
          rename_i outcome hscan
          refine Or.inr (Or.inl ⟨outcome, rfl, ?_⟩)
          cases outcome with
          | allowed a => exact absurd hscan scan_ne_allowed
          | denied index size d => rfl
          | shadowDenied index size d => rfl
        · rename_i hscan
          exact Or.inr (Or.inr ⟨verdicts, rfl, (validateBatch_ok hvalid).2, scan_none_allowed hscan, rfl⟩)

/-- A quota denial is no admission, in either mode. -/
theorem quotaExceeded_not_allowed (mode : QuotaMode) (d : QuotaDenial) :
    (Response.check (.returned (.ok (.quotaExceeded mode d)))).allowed = false := by
  unfold Decision.quotaExceeded
  split
  · rfl
  · rfl

/-- A refusal lets time pass on the shards it touches. -/
theorem refused_keyStep {now : ℕ} {request : Request P} {response : Response} {key : CounterKey}
    (hdecided : response.decided = true) (hrefused : response.allowed = false)
    (hobs : ∀ i ∈ touched config request.checks, (store i).observedMillis ≤ now) :
    KeyStep config alg key ⟨now, request, response⟩ (store (config.shardIndex key))
      (store.advance (touched config request.checks) now (config.shardIndex key)) := by
  have hcosts : Event.costs ⟨now, request, response⟩ key = [] := costs_of_not_allowed hrefused
  by_cases hmem : config.shardIndex key ∈ touched config request.checks
  · rw [advance_of_mem hmem]
    exact .passed ⟨hdecided, hmem⟩ hcosts (hobs _ hmem) rfl rfl
  · rw [advance_of_notMem hmem]
    exact .idle (fun h => hmem h.2) hcosts rfl

/-- An admission charges the keys of its checks, and lets time pass for the others. -/
theorem allowed_keyStep {now : ℕ} {request : Request P} {response : Response} {key : CounterKey}
    {verdicts : List (Check P × Verdict E)}
    (hdecided : response.decided = true) (hallowed : response.allowed = true)
    (hobs : ∀ i ∈ touched config request.checks, (store i).observedMillis ≤ now)
    (hnodup : (request.checks.map Check.counterKey).Nodup)
    (hchecks : verdicts.map Prod.fst = request.checks)
    (hverdicts : ∀ p ∈ verdicts, ∃ entry allowance, p.2 = .allowed entry allowance ∧
      alg.evaluate p.1 now ((store.advance (touched config request.checks) now).entry p.1) =
        .ok (.allowed entry allowance)) :
    KeyStep config alg key ⟨now, request, response⟩ (store (config.shardIndex key))
      ((store.advance (touched config request.checks) now).putAll verdicts (config.shardIndex key)) := by
  set i := config.shardIndex key with hi
  by_cases hmem : i ∈ touched config request.checks
  · have hobs' : ((store.advance (touched config request.checks) now).putAll verdicts i).observedMillis =
        now := by
      rw [observed_putAll, advance_of_mem hmem]
      rfl
    by_cases hkey : ∃ p ∈ verdicts, p.1.counterKey = key
    · obtain ⟨⟨c, v⟩, hp, hkey⟩ := hkey
      obtain ⟨entry, allowance, hv, hev⟩ := hverdicts _ hp
      simp only at hkey hv hev
      subst hv
      have hc : c ∈ request.checks := hchecks ▸ List.mem_map_of_mem hp
      have hshard : c.shard config = i := by
        rw [hi, ← hkey]
        rfl
      have hlookup : (store.advance (touched config request.checks) now).entry c =
          ((store i).advance now).entries.lookup key := by
        unfold RefStore.entry
        rw [hshard, advance_of_mem hmem, hkey]
      have hverdictsNodup := nodup_verdicts hchecks hnodup
      refine .charged ⟨hdecided, hmem⟩ c hc hkey ?_ (hobs i hmem) hobs' entry allowance ?_ ?_
      · rw [← hkey]
        exact costs_of_mem hallowed hnodup hc
      · rw [← hlookup]
        exact hev
      · rw [← hshard, ← hkey]
        exact lookup_putAll_of_mem _ hverdictsNodup hp
    · -- the shard is touched for other keys: time passes for this one
      have hother : ∀ p ∈ verdicts, p.1.counterKey ≠ key := fun p hp heq => hkey ⟨p, hp, heq⟩
      refine .passed ⟨hdecided, hmem⟩ (costs_of_notMem ?_) (hobs i hmem) hobs' ?_
      · intro c hc
        rw [← hchecks] at hc
        obtain ⟨p, hp, rfl⟩ := List.mem_map.1 hc
        exact hother p hp
      · rw [lookup_putAll_of_notMem _ _ hother, advance_of_mem hmem]
  · -- no check of the request is routed to the shard of the key
    have hrouted : ∀ p ∈ verdicts, p.1.shard config ≠ i := by
      intro p hp heq
      have hc : p.1 ∈ request.checks := hchecks ▸ List.mem_map_of_mem hp
      exact hmem (heq ▸ List.mem_toFinset.2 (List.mem_map_of_mem hc))
    refine .idle (fun h => hmem h.2) (costs_of_notMem ?_) ?_
    · intro c hc heq
      rw [← hchecks] at hc
      obtain ⟨p, hp, rfl⟩ := List.mem_map.1 hc
      exact hrouted p hp (by rw [hi, ← heq]; rfl)
    · rw [putAll_of_notMem _ hrouted, advance_of_notMem hmem]

/-- **One call, one key.** -/
theorem serve_keyStep (alg : Algorithm P E) (call : Call P) (store : RefStore config E)
    (key : CounterKey) :
    KeyStep config alg key (serve alg call store).1 (store (config.shardIndex key))
      ((serve alg call store).2 (config.shardIndex key)) := by
  obtain ⟨reading, request⟩ := call
  have hobs : ∀ i ∈ touched config request.checks,
      (store i).observedMillis ≤ clampedMillis store.observed request.checks reading := by
    intro i hi
    change store.observed i ≤ _
    exact le_clampedMillis hi
  set now := clampedMillis store.observed request.checks reading with hnow
  cases request with
  | check c =>
    have hserve : serve alg ⟨reading, .check c⟩ store =
        (⟨now, .check c, .check (.returned ((check alg now c store).1.mapError fun _ => .arithmeticOverflow))⟩,
          (check alg now c store).2) := rfl
    rw [hserve]
    rcases check_cases alg now c store with
      ⟨e, -, heq⟩ | ⟨d, -, heq⟩ | ⟨entry, allowance, hev, ⟨after, heq⟩ | heq⟩
    · rw [heq]
      -- what fails touches no shard
      exact .idle (fun h => by cases h.1) rfl rfl
    · rw [heq]
      exact refused_keyStep rfl (quotaExceeded_not_allowed c.quotaMode d) hobs
    · rw [heq]
      -- no room: refused like a quota denial
      exact refused_keyStep rfl rfl hobs
    · rw [heq]
      have hverdicts : ∀ p ∈ [(c, Verdict.allowed entry allowance)], ∃ entry allowance,
          p.2 = .allowed entry allowance ∧
          alg.evaluate p.1 now ((store.advance (touched config (Request.check c).checks) now).entry p.1) =
            .ok (.allowed entry allowance) := by
        intro p hp
        rw [List.mem_singleton] at hp
        subst hp
        exact ⟨entry, allowance, rfl, hev⟩
      exact allowed_keyStep rfl rfl hobs (List.nodup_singleton _) rfl hverdicts
  | checkAll checks =>
    have hserve : serve alg ⟨reading, .checkAll checks⟩ store =
        (⟨now, .checkAll checks, .checkAll (.returned (checkAll alg now checks store).1)⟩,
          (checkAll alg now checks store).2) := rfl
    rw [hserve]
    rcases checkAll_cases alg now checks store with
      ⟨e, heq⟩ | ⟨o, heq, ho⟩ | ⟨verdicts, hev, hnodup, hallowed, heq⟩
    · rw [heq]
      exact .idle (fun h => by cases h.1) rfl rfl
    · rw [heq]
      exact refused_keyStep rfl ho hobs
    · rw [heq]
      obtain ⟨hchecks, heach⟩ := evaluateAll_ok hev
      refine allowed_keyStep rfl rfl hobs hnodup hchecks ?_
      intro p hp
      obtain ⟨entry, allowance, hp2⟩ := hallowed p hp
      have hp1 := heach p hp
      rw [hp2] at hp1
      exact ⟨entry, allowance, hp2, hp1⟩

/-- A call leaves the observed time of a shard alone or moves it to its own time. -/
theorem observed_serve (alg : Algorithm P E) (call : Call P) (store : RefStore config E)
    (i : Fin config.shardCount) :
    ((serve alg call store).2 i).observedMillis = (store i).observedMillis ∨
      ((serve alg call store).2 i).observedMillis = (serve alg call store).1.nowMillis := by
  obtain ⟨reading, request⟩ := call
  have hadvance : ∀ (touched : Finset (Fin config.shardCount)) (now : ℕ),
      (store.advance touched now i).observedMillis = (store i).observedMillis ∨
        (store.advance touched now i).observedMillis = now := by
    intro touched now
    by_cases hmem : i ∈ touched
    · rw [advance_of_mem hmem]
      exact Or.inr rfl
    · rw [advance_of_notMem hmem]
      exact Or.inl rfl
  cases request with
  | check c =>
    change ((check alg (clampedMillis store.observed [c] reading) c store).2 i).observedMillis = _ ∨
      ((check alg (clampedMillis store.observed [c] reading) c store).2 i).observedMillis =
        clampedMillis store.observed [c] reading
    rcases check_cases alg (clampedMillis store.observed [c] reading) c store with
      ⟨e, -, heq⟩ | ⟨d, -, heq⟩ | ⟨entry, allowance, -, ⟨after, heq⟩ | heq⟩
    · rw [heq]
      exact Or.inl rfl
    · rw [heq]
      exact hadvance _ _
    · rw [heq]
      exact hadvance _ _
    · rw [heq]
      simp only [observed_update_put]
      exact hadvance _ _
  | checkAll checks =>
    change ((checkAll alg (clampedMillis store.observed checks reading) checks store).2 i).observedMillis = _ ∨
      ((checkAll alg (clampedMillis store.observed checks reading) checks store).2 i).observedMillis =
        clampedMillis store.observed checks reading
    rcases checkAll_cases alg (clampedMillis store.observed checks reading) checks store with
      ⟨e, heq⟩ | ⟨o, heq, -⟩ | ⟨verdicts, -, -, -, heq⟩
    · rw [heq]
      exact Or.inl rfl
    · rw [heq]
      exact hadvance _ _
    · rw [heq]
      simp only [observed_putAll]
      exact hadvance _ _

/-- The operations of a run that touch a shard are evaluated at nondecreasing times. -/
theorem touch_times_le (alg : Algorithm P E) (calls : List (Call P)) (key : CounterKey) {m n : ℕ}
    (hmn : m ≤ n) {first last : Event P} (hfirst : (run alg config calls)[m]? = some first)
    (hlast : (run alg config calls)[n]? = some last)
    (htouchFirst : first.Touches config (config.shardIndex key))
    (htouchLast : last.Touches config (config.shardIndex key)) : first.nowMillis ≤ last.nowMillis := by
  -- the observed time of the shard is a potential that is not charged
  refine le_trans (Nat.le_add_right _ _) (Machine.charged_between (fun _ => True)
    (fun store : RefStore config E => (store (config.shardIndex key)).observedMillis)
    (fun _ : Event P => 0) Event.nowMillis Event.nowMillis (·.Touches config (config.shardIndex key))
    ?_ ?_ ?_ trivial (fun _ _ => trivial) hmn hfirst hlast htouchFirst htouchLast)
  · intro call store _ _
    refine ⟨?_, trivial⟩
    cases serve_keyStep alg call store key with
    | idle hidle hcosts hsame => rw [hsame]; omega
    | passed htouch hcosts hobs hobs' hentry => omega
    | charged htouch c hc hkey hcosts hobs hobs' entry allowance hevaluate hentry => omega
  · intro call store _ _ hmark
    cases serve_keyStep alg call store key with
    | idle hidle hcosts hsame => exact absurd hmark hidle
    | passed htouch hcosts hobs hobs' hentry => omega
    | charged htouch c hc hkey hcosts hobs hobs' entry allowance hevaluate hentry => omega
  · intro call store _ _ hmark
    cases serve_keyStep alg call store key with
    | idle hidle hcosts hsame => exact absurd hmark hidle
    | passed htouch hcosts hobs hobs' hentry => omega
    | charged htouch c hc hkey hcosts hobs hobs' entry allowance hevaluate hentry => omega

end RefStore

end Runlimit
