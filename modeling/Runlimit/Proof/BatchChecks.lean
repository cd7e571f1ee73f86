import Runlimit.Proof.Representation
import Runlimit.Proof.Sequential
import Runlimit.Proof.SingleCheck

/-!
# A batch equals its checks performed one after another

`check` and `check_all` are separate code paths in both stores. Main results:

* `batchAsEach_of_refines`: what `RefStore.checkAll_each` says of settled shards, for any store that
  refines the reference store: the single checks are simulated on the shards of the batch,
  advanced to the time of the batch;
* `batch_equals_checks`: the statement about both stores.
-/

namespace Runlimit

open Gcra (ArithmeticOverflow)

variable {P E : Type} [RateLimitPolicy P] {config : MemoryStoreConfig}

/-- A check that was allowed. -/
def Response.ofAllowance (allowance : Allowance) : Response := .check (.returned (.ok (.allowed allowance)))

/-- A batch agrees with single checks that gave these responses and this store. -/
structure BatchAsEach (checks : List (Check P)) (now : ℕ) (batch : Response × BoundedShards config E)
    (responses : List Response) (final : BoundedShards config E) : Prop where
  allowed_iff : (∃ allowances, batch.1 = .checkAll (.returned (.ok ⟨.allowed allowances⟩))) ↔
    validateBatch checks config.maxBatchSize = .ok () ∧ ∀ r ∈ responses, ∃ allowance, r = .ofAllowance allowance
  allowances_eq : ∀ allowances, batch.1 = .checkAll (.returned (.ok ⟨.allowed allowances⟩)) →
    responses = allowances.map Response.ofAllowance
  live_eq : ∀ allowances, batch.1 = .checkAll (.returned (.ok ⟨.allowed allowances⟩)) →
    ∀ i key, (batch.2 i).data.live key now = (final i).data.live key now
  denied : ∀ outcome index, batch.1 = .checkAll (.returned (.ok ⟨outcome⟩)) → outcome.deniedIndex = some index →
    ∃ (before : List Allowance) (decision : Decision), before.length = index ∧
      responses.take (index + 1) = before.map Response.ofAllowance ++ [.check (.returned (.ok decision))] ∧
      outcome.SameKind decision

namespace RefStore

variable {store : RefStore config E} {now : ℕ} {alg : Algorithm P E}

/-- A batch that is decided on a store is decided alike on its shards advanced to the time of the
batch. -/
theorem checkAll_advance (alg : Algorithm P E) (now : ℕ) (checks : List (Check P)) (store : RefStore config E) :
    (checkAll alg now checks (store.advance (touched config checks) now)).1 = (checkAll alg now checks store).1 ∧
      ∀ decision, (checkAll alg now checks store).1 = .ok decision →
        (checkAll alg now checks (store.advance (touched config checks) now)).2 = (checkAll alg now checks store).2 := by
  have hadvance : (store.advance (touched config checks) now).advance (touched config checks) now =
      store.advance (touched config checks) now := advance_advance store subset_rfl now
  unfold checkAll
  simp only [hadvance]
  cases validateBatch checks config.maxBatchSize with
  | error e => exact ⟨rfl, fun decision h => by cases h⟩
  | ok u =>
    simp only
    cases overfull config checks with
    | some e => exact ⟨rfl, fun decision h => by cases h⟩
    | none =>
      simp only
      cases evaluateAll alg now (store.advance (touched config checks) now).entry checks with
      | error e => exact ⟨rfl, fun decision h => by cases h⟩
      | ok verdicts => exact ⟨rfl, fun _ _ => rfl⟩

/-- A single check at a reading that is not before its shard. -/
theorem answer_check {c : Check P} {reading : Duration} (h : (store (c.shard config)).observedMillis ≤ reading.asMillis) :
    answer alg ⟨reading, .check c⟩ store =
      (.check (.returned ((check alg reading.asMillis c store).1.mapError fun _ => .arithmeticOverflow)),
        (check alg reading.asMillis c store).2) := by
  have hclamp : clampedMillis store.observed [c] reading = reading.asMillis := by
    rw [clampedMillis_singleton]
    exact max_eq_left h
  unfold answer Request.checks
  simp only [hclamp]

/-- A batch at a reading that is not before its shards. -/
theorem answer_checkAll {checks : List (Check P)} {reading : Duration}
    (h : ∀ i ∈ touched config checks, (store i).observedMillis ≤ reading.asMillis) :
    answer alg ⟨reading, .checkAll checks⟩ store =
      (.checkAll (.returned (checkAll alg reading.asMillis checks store).1),
        (checkAll alg reading.asMillis checks store).2) := by
  have hclamp : clampedMillis store.observed checks reading = reading.asMillis :=
    max_eq_left (Finset.sup_le h)
  unfold answer Request.checks
  simp only [hclamp]

/-- A single check observes its time on its own shard at most. -/
theorem check_observed_le (alg : Algorithm P E) {c : Check P} {store : RefStore config E} {i : Fin config.shardCount}
    (h : (store i).observedMillis ≤ now) : ((check alg now c store).2 i).observedMillis ≤ now := by
  have hadvance : (store.advance {c.shard config} now i).observedMillis ≤ now := by
    unfold RefStore.advance
    split
    · exact le_rfl
    · exact h
  rcases check_cases alg now c store with ⟨e, -, heq⟩ | ⟨d, -, heq⟩ | ⟨entry, allowance, -, ⟨after, heq⟩ | heq⟩
  · rw [heq]
    exact h
  · rw [heq]
    exact hadvance
  · rw [heq]
    exact hadvance
  · rw [heq]
    simp only
    rw [observed_update_put]
    exact hadvance

end RefStore

/-! ## Stores that refine the reference store -/

section Refines

variable {alg : Algorithm P E} {Sound : BoundedShards config E → Prop} {ok : Check P → Prop}
  {tryAdmit : Panics Duration → Request P → BoundedShards config E → Response × BoundedShards config E}

/-- The response to a single check. -/
def Response.ofCheck (result : Except ArithmeticOverflow Decision) : Response :=
  .check (.returned (result.mapError fun _ => .arithmeticOverflow))

/-- **The single checks are simulated on the shards of the batch**, advanced to the time of the
batch. -/
theorem each_simulated {reading : Duration} {shards : Finset (Fin config.shardCount)}
    (hrefines : ∀ c (s : BoundedShards config E), ok c → Sound s →
      RefStore.answer alg ⟨reading, .check c⟩ s.abs =
          ((tryAdmit (.ok reading) (.check c) s).1, (tryAdmit (.ok reading) (.check c) s).2.abs) ∧
        Sound (tryAdmit (.ok reading) (.check c) s).2)
    {s : BoundedShards config E} (hs : Sound s) (hobserved : ∀ i ∈ shards, s.observed i ≤ reading.asMillis)
    (hwithin : RefStore.Within shards reading.asMillis s.abs) {checks : List (Check P)}
    (hchecks : ∀ c ∈ checks, ok c ∧ c.shard config ∈ shards) :
    Machine.outputs (fun c => tryAdmit (.ok reading) (.check c)) s checks =
        (Machine.outputs (RefStore.check alg reading.asMillis) (s.abs.advance shards reading.asMillis)
          checks).map Response.ofCheck ∧
      (Machine.final (fun c => tryAdmit (.ok reading) (.check c)) s checks).abs.advance shards reading.asMillis =
        Machine.final (RefStore.check alg reading.asMillis) (s.abs.advance shards reading.asMillis) checks ∧
      Sound (Machine.final (fun c => tryAdmit (.ok reading) (.check c)) s checks) ∧
      ∀ i ∈ shards, (Machine.final (fun c => tryAdmit (.ok reading) (.check c)) s checks).observed i ≤
        reading.asMillis := by
  have hstep : ∀ (c : Check P) (s : BoundedShards config E), (ok c ∧ c.shard config ∈ shards) →
      (Sound s ∧ (∀ i ∈ shards, s.observed i ≤ reading.asMillis) ∧
        RefStore.Within shards reading.asMillis s.abs) →
      (Response.ofCheck (RefStore.check alg reading.asMillis c (s.abs.advance shards reading.asMillis)).1,
          (RefStore.check alg reading.asMillis c (s.abs.advance shards reading.asMillis)).2) =
        ((tryAdmit (.ok reading) (.check c) s).1,
          (tryAdmit (.ok reading) (.check c) s).2.abs.advance shards reading.asMillis) ∧
      (Sound (tryAdmit (.ok reading) (.check c) s).2 ∧
        (∀ i ∈ shards, (tryAdmit (.ok reading) (.check c) s).2.observed i ≤ reading.asMillis) ∧
        RefStore.Within shards reading.asMillis (tryAdmit (.ok reading) (.check c) s).2.abs) := by
    rintro c s ⟨hok, hc⟩ ⟨hs, hobserved, hwithin⟩
    obtain ⟨hanswer, hs'⟩ := hrefines c s hok hs
    rw [RefStore.answer_check (hobserved _ hc), Prod.mk.injEq] at hanswer
    obtain ⟨hresponse, hstore⟩ := hanswer
    obtain ⟨hcheck, hwithin'⟩ := @RefStore.check_advance _ _ _ _ _ _ alg _ hwithin c hc
    rw [hstore] at hcheck hwithin'
    rw [hcheck, ← hresponse]
    refine ⟨rfl, hs', ?_, hwithin'⟩
    intro i hi
    -- a single check observes the time of the batch at most
    have hstart : (s.abs i).observedMillis ≤ reading.asMillis := hobserved i hi
    have hle := @RefStore.check_observed_le _ _ _ _ _ alg c _ _ hstart
    rw [hstore] at hle
    exact hle
  obtain ⟨houtputs, hfinal, hs', hobserved', -⟩ := @Machine.simulation _ _ _ _ _
    (fun c v => (Response.ofCheck (RefStore.check alg reading.asMillis c v).1,
      (RefStore.check alg reading.asMillis c v).2))
    (fun s : BoundedShards config E => s.abs.advance shards reading.asMillis) _ _ hstep s
    ⟨hs, hobserved, hwithin⟩ checks hchecks
  obtain ⟨hrename, hrename'⟩ := @Machine.run_rename _ _ _ (RefStore.check alg reading.asMillis) _ Response.ofCheck
    (s.abs.advance shards reading.asMillis) checks
  rw [hrename] at houtputs
  rw [hrename'] at hfinal
  exact ⟨houtputs, hfinal, hs', hobserved'⟩

/-- The response tells the result. -/
theorem ofCheck_injective : Function.Injective Response.ofCheck := by
  intro a b h
  unfold Response.ofCheck at h
  cases a with
  | error e =>
    cases b with
    | error e' => rfl
    | ok d => cases h
  | ok d =>
    cases b with
    | error e => cases h
    | ok d' =>
      cases h
      rfl

/-- The responses of allowed checks. -/
theorem granted_ofCheck (allowances : List Allowance) :
    (RefStore.granted allowances).map Response.ofCheck = allowances.map Response.ofAllowance := by
  unfold RefStore.granted
  rw [List.map_map]
  rfl

/-- All responses are allowances where all results are. -/
theorem mem_map_ofCheck {results : List (Except ArithmeticOverflow Decision)} :
    (∀ r ∈ results.map Response.ofCheck, ∃ allowance, r = .ofAllowance allowance) ↔
      ∀ r ∈ results, ∃ allowance, r = .ok (.allowed allowance) := by
  rw [List.forall_mem_map]
  refine forall₂_congr fun r _ => exists_congr fun allowance => ?_
  constructor
  · intro h
    exact ofCheck_injective h
  · rintro rfl
    rfl

/-- **A batch is its checks performed one after another**, in any store that refines the reference
store. -/
theorem batchAsEach_of_refines {reading : Duration} {checks : List (Check P)}
    (hrefines : ∀ request (s : BoundedShards config E), (∀ c ∈ request.checks, ok c) → Sound s →
      RefStore.answer alg ⟨reading, request⟩ s.abs =
          ((tryAdmit (.ok reading) request s).1, (tryAdmit (.ok reading) request s).2.abs) ∧
        Sound (tryAdmit (.ok reading) request s).2)
    (hinv : ∀ s, Sound s → Bounded.Inv s.data)
    (huntouched : ∀ request (s : BoundedShards config E), (∀ c ∈ request.checks, ok c) → Sound s →
      ∀ i, i ∉ touched config request.checks → (tryAdmit (.ok reading) request s).2 i = s i)
    (hok : ∀ c ∈ checks, ok c) {s : BoundedShards config E} (hs : Sound s)
    (hnow : ∀ i ∈ touched config checks, s.observed i ≤ reading.asMillis)
    (hoverflow : (tryAdmit (.ok reading) (.checkAll checks) s).1 ≠ .checkAll (.returned (.error .arithmeticOverflow))) :
    BatchAsEach checks reading.asMillis (tryAdmit (.ok reading) (.checkAll checks) s)
      (Machine.outputs (fun c => tryAdmit (.ok reading) (.check c)) s checks)
      (Machine.final (fun c => tryAdmit (.ok reading) (.check c)) s checks) := by
  have hd := hinv s hs
  have hlookup : ∀ i key entry, (s.abs i).entries.lookup key = some entry →
      (s.data i).entries.lookup key = some entry := by
    intro i key entry hentry
    unfold BoundedShards.abs Bounded.abs Shard.abs at hentry
    simp only [Finmap.lookup_filter, Option.filter_eq_some_iff] at hentry
    exact hentry.1
  have hwithin : RefStore.Within (touched config checks) reading.asMillis s.abs := by
    intro i hi key entry hentry
    have hle := (hd.shard i).expires_le key entry (hlookup i key entry hentry)
    have hobserved : (s.data i).latestObservedMillis ≤ reading.asMillis := hnow i hi
    omega
  have hcard : ∀ i, (s.abs.advance (touched config checks) reading.asMillis i).entries.keys.card ≤
      config.shardCapacity i := by
    intro i
    have hused : (s.data i).used ≤ config.shardCapacity i := (hd.shard i).used_le.trans_eq (hd.capacity_eq i)
    refine (Finset.card_le_card ?_).trans hused
    intro key hkey
    obtain ⟨entry, hentry⟩ := Finmap.mem_keys_iff.1 hkey
    refine Finmap.mem_keys_iff.2 ⟨entry, hlookup i key entry ?_⟩
    unfold RefStore.advance at hentry
    split at hentry
    · exact (RefShard.lookup_advance.1 hentry).1
    · exact hentry
  -- both operations, on the shards of the batch advanced to its time
  obtain ⟨hanswer, hsBatch⟩ := hrefines (.checkAll checks) s hok hs
  rw [RefStore.answer_checkAll (fun i hi => hnow i hi), Prod.mk.injEq] at hanswer
  obtain ⟨hresponse, hstore⟩ := hanswer
  obtain ⟨hdecision, hdecided⟩ := RefStore.checkAll_advance alg reading.asMillis checks s.abs
  have heach := @RefStore.checkAll_each _ _ _ _ _ _ alg checks
    (RefStore.advance_settled s.abs (touched config checks) reading.asMillis) (hwithin.advance _) hcard (by
      rw [hdecision]
      intro h
      rw [h] at hresponse
      exact hoverflow hresponse.symm)
  obtain ⟨houtputs, hfinal, hsEach, hobservedEach⟩ := each_simulated
    (fun c s hc hs => hrefines (.check c) s (by simpa [Request.checks] using hc) hs) hs hnow hwithin
    (fun c hc => ⟨hok c hc, mem_touched.2 ⟨c, hc, rfl⟩⟩)
  have hbatch : ∀ decision, (tryAdmit (.ok reading) (.checkAll checks) s).1 = .checkAll (.returned (.ok decision)) ↔
      (RefStore.checkAll alg reading.asMillis checks
        (s.abs.advance (touched config checks) reading.asMillis)).1 = .ok decision := by
    intro decision
    rw [hdecision, ← hresponse]
    constructor
    · intro h
      exact CallResult.returned.inj (Response.checkAll.inj h)
    · intro h
      rw [h]
  refine ⟨?_, ?_, ?_, ?_⟩
  · rw [houtputs, mem_map_ofCheck, ← heach.allowed_iff]
    exact exists_congr fun allowances => hbatch _
  · intro allowances h
    rw [houtputs, (heach.allowed allowances ((hbatch _).1 h)).1, granted_ofCheck]
  · intro allowances h i key
    have hallowed := (hbatch _).1 h
    by_cases hi : i ∈ touched config checks
    · -- a touched shard: both ways lead to the same reference shard, at the time of the batch
      have habs : (tryAdmit (.ok reading) (.checkAll checks) s).2.abs =
          (Machine.final (fun c => tryAdmit (.ok reading) (.check c)) s checks).abs.advance
            (touched config checks) reading.asMillis := by
        rw [hfinal, (heach.allowed allowances hallowed).2, ← hstore]
        exact (hdecided _ (hdecision ▸ hallowed)).symm
      have hshard := congrFun habs i
      rw [RefStore.advance_of_mem hi] at hshard
      have hobserved : ((tryAdmit (.ok reading) (.checkAll checks) s).2 i).data.latestObservedMillis =
          reading.asMillis := congrArg RefShard.observedMillis hshard
      have hlive := Shard.lookup_advance_abs (le_of_eq hobserved) key
      have hlive' := Shard.lookup_advance_abs (hobservedEach i hi) key
      rw [← hlive, ← hlive']
      have hadvance := congrArg (fun shard => (shard.advance reading.asMillis).entries.lookup key) hshard
      simp only [RefShard.advance_advance] at hadvance
      exact hadvance
    · -- a shard without a check of the batch: both ways leave it as it is
      have hbatchShard := huntouched (.checkAll checks) s hok hs i hi
      have heachShard : Sound (Machine.final (fun c => tryAdmit (.ok reading) (.check c)) s checks) ∧
          Machine.final (fun c => tryAdmit (.ok reading) (.check c)) s checks i = s i := by
        refine @Machine.final_inv _ _ _ _ (fun c => ok c ∧ c.shard config ≠ i) (fun s' => Sound s' ∧ s' i = s i)
          ?_ s ⟨hs, rfl⟩ checks ?_
        · rintro c s' ⟨hc, hne⟩ ⟨hs', heq⟩
          have hc' : ∀ d ∈ (Request.check c).checks, ok d := by simpa [Request.checks] using hc
          refine ⟨(hrefines (.check c) s' hc' hs').2, ?_⟩
          rw [huntouched (.check c) s' hc' hs' i, heq]
          intro hmem
          exact hne (Finset.mem_singleton.1 hmem).symm
        · intro c hc
          refine ⟨hok c hc, ?_⟩
          rintro rfl
          exact hi (mem_touched.2 ⟨c, hc, rfl⟩)
      rw [hbatchShard, heachShard.2]
  · intro outcome index h hindex
    -- denied: the checks before the denied one were allowed
    obtain ⟨before, decision, hindex', htake, hkind⟩ := heach.denied outcome ((hbatch _).1 h) (by rw [hindex]; simp)
    rw [hindex, Option.some.injEq, Nat.zero_add] at hindex'
    refine ⟨before, decision, hindex'.symm, ?_, hkind⟩
    rw [houtputs, hindex', ← List.map_take, htake, List.map_append, granted_ofCheck]
    rfl

end Refines

/-- Storing the entries of a batch leaves the shards of the other keys alone. -/
theorem Bounded.putAll_untouched {i : Fin config.shardCount} : ∀ {verdicts : List (Check P × Verdict E)}
    {data : Bounded.Data config E}, (∀ p ∈ verdicts, p.1.shard config ≠ i) →
    Bounded.putAll verdicts data i = data i := by
  intro verdicts
  induction verdicts with
  | nil => exact fun _ => rfl
  | cons p rest ih =>
    intro data hother
    rw [List.forall_mem_cons] at hother
    obtain ⟨c, v⟩ := p
    cases v with
    | denied d => exact ih hother.2
    | allowed entry allowance =>
      unfold Bounded.putAll
      rw [ih hother.2, Function.update_of_ne (Ne.symm hother.1)]

/-- An admission leaves the shards it does not touch alone. -/
theorem StoreStep.untouched {alg : Algorithm P E} {shards shards' : BoundedShards config E}
    {clock : Panics Duration} {request : Request P} {response : StoreResponse}
    (hstep : StoreStep alg shards (.tryAdmit clock request) response shards') {i : Fin config.shardCount}
    (hi : i ∉ touched config request.checks) : shards' i = shards i := by
  cases hstep with
  | failed => rfl
  | unwound _ hlocked => exact if_neg fun h => hi (hlocked i h)
  | @evaluated reading =>
    have hanswered := Bounded.answer_answered alg (clampedMillis shards.observed request.checks reading) request
      shards.data
    generalize Bounded.answer alg (clampedMillis shards.observed request.checks reading) request shards.data =
      result at hanswered
    have hcleanup : ∀ budget, Bounded.cleanup budget (touched config request.checks)
        (clampedMillis shards.observed request.checks reading) shards.data i = (shards i).data := fun budget => if_neg hi
    unfold BoundedShards.unlock
    cases hanswered with
    | failed => rfl
    | denied _ budget =>
      simp only [hcleanup]
    | allowed _ budget verdicts hchecks =>
      -- only shards of the checks are written
      have hother : ∀ p ∈ verdicts, p.1.shard config ≠ i := by
        rintro p hp rfl
        refine hi (mem_touched.2 ⟨p.1, ?_, rfl⟩)
        rw [← hchecks]
        exact List.mem_map_of_mem hp
      simp only [Bounded.putAll_untouched hother, hcleanup]

namespace MemoryStore

variable [Sha2] {known : Set FixedWindowPolicy}

/-- A request at one reading is the reference store's, and leaves the store sound. -/
theorem tryAdmit_refines (hfree : Set.InjOn Sha2.sha256 (FixedWindowPolicy.preimage '' known)) (reading : Duration)
    (request : Request FixedWindowPolicy) (shards : BoundedShards config WindowEntry)
    (hrequest : ∀ c ∈ request.checks, c.policy ∈ known) (hs : Sound known shards) :
    RefStore.answer fixedWindow ⟨reading, request⟩ shards.abs =
        ((tryAdmit (.ok reading) request shards).1, (tryAdmit (.ok reading) request shards).2.abs) ∧
      Sound known (tryAdmit (.ok reading) request shards).2 := by
  have hanswer : tryAdmit (.ok reading) request shards = answer ⟨reading, request⟩ shards := by
    cases request with
    | check c => rfl
    | checkAll checks => rfl
  rw [hanswer]
  exact answer_refines hfree hs ⟨reading, request⟩ hrequest

/-- The batch and its checks, from any sound state. -/
theorem batchAsEach (hfree : Set.InjOn Sha2.sha256 (FixedWindowPolicy.preimage '' known)) {reading : Duration}
    {checks : List (Check FixedWindowPolicy)} (hchecks : ∀ c ∈ checks, c.policy ∈ known)
    {shards : BoundedShards config WindowEntry} (hs : Sound known shards)
    (hnow : ∀ i ∈ touched config checks, shards.observed i ≤ reading.asMillis)
    (hoverflow : (tryAdmit (.ok reading) (.checkAll checks) shards).1 ≠
      .checkAll (.returned (.error .arithmeticOverflow))) :
    BatchAsEach checks reading.asMillis (tryAdmit (.ok reading) (.checkAll checks) shards)
      (Machine.outputs (fun c => tryAdmit (.ok reading) (.check c)) shards checks)
      (Machine.final (fun c => tryAdmit (.ok reading) (.check c)) shards checks) := by
  refine batchAsEach_of_refines (tryAdmit_refines hfree reading) (fun s hs => hs.inv) ?_ hchecks hs hnow hoverflow
  intro request s hrequest hs i hi
  have hstep := perform_step hs.inv hs.within (.tryAdmit (.ok reading) request) hrequest
  exact hstep.untouched hi

/-- A batch of the fixed-window store does not overflow. -/
theorem checkAll_ne_overflow (clock : Panics Duration) (checks : List (Check FixedWindowPolicy))
    (shards : BoundedShards config WindowEntry) :
    (tryAdmit clock (.checkAll checks) shards).1 ≠ .checkAll (.returned (.error .arithmeticOverflow)) := by
  unfold tryAdmit
  simp only
  generalize (checkAll clock checks shards).1 = result
  cases result with
  | panicked => exact fun h => by cases h
  | returned result =>
    cases result with
    | ok decision => exact fun h => by cases h
    | error e => exact fun h => by cases h

end MemoryStore

namespace GcraStore

variable [Sha2]

theorem tryAdmit_refines (reading : Duration) (request : Request GcraPolicy) (shards : BoundedShards config GcraEntry)
    (hs : Sound shards) :
    RefStore.answer gcra ⟨reading, request⟩ shards.abs =
        ((tryAdmit (.ok reading) request shards).1, (tryAdmit (.ok reading) request shards).2.abs) ∧
      Sound (tryAdmit (.ok reading) request shards).2 := by
  have hanswer : tryAdmit (.ok reading) request shards = answer ⟨reading, request⟩ shards := by
    cases request with
    | check c => rfl
    | checkAll checks => rfl
  rw [hanswer]
  exact answer_refines hs ⟨reading, request⟩

/-- The batch and its checks, from any sound state. -/
theorem batchAsEach {reading : Duration} {checks : List (Check GcraPolicy)} {shards : BoundedShards config GcraEntry}
    (hs : Sound shards) (hnow : ∀ i ∈ touched config checks, shards.observed i ≤ reading.asMillis)
    (hoverflow : (tryAdmit (.ok reading) (.checkAll checks) shards).1 ≠
      .checkAll (.returned (.error .arithmeticOverflow))) :
    BatchAsEach checks reading.asMillis (tryAdmit (.ok reading) (.checkAll checks) shards)
      (Machine.outputs (fun c => tryAdmit (.ok reading) (.check c)) shards checks)
      (Machine.final (fun c => tryAdmit (.ok reading) (.check c)) shards checks) := by
  refine @batchAsEach_of_refines _ _ _ _ _ _ (fun _ => True) _ _ _
    (fun request s _ hs => tryAdmit_refines reading request s hs) (fun s hs => hs.inv) ?_ (fun _ _ => trivial) _
    hs hnow hoverflow
  intro request s _ hs i hi
  have hstep := perform_step hs.inv (.tryAdmit (.ok reading) request)
  exact hstep.untouched hi

end GcraStore

/-- **A batch equals its checks performed one after another**, in both stores, from every reachable
state without a poisoned shard; and a batch of one check is the check, from every state and for
every clock. -/
theorem batch_equals_checks [Sha2] (config : MemoryStoreConfig) :
    (∀ (requests : List (StoreRequest FixedWindowPolicy)) (checks : List (Check FixedWindowPolicy)) (reading : Duration),
      Set.InjOn Sha2.sha256 (FixedWindowPolicy.preimage ''
        storePolicies (requests ++ [.tryAdmit (.ok reading) (.checkAll checks)])) →
      (∀ i, (MemoryStore.reached config requests i).poisoned = false) →
      (∀ i ∈ touched config checks, (MemoryStore.reached config requests).observed i ≤ reading.asMillis) →
      BatchAsEach checks reading.asMillis
        (MemoryStore.tryAdmit (.ok reading) (.checkAll checks) (MemoryStore.reached config requests))
        (Machine.outputs (fun c => MemoryStore.tryAdmit (.ok reading) (.check c))
          (MemoryStore.reached config requests) checks)
        (Machine.final (fun c => MemoryStore.tryAdmit (.ok reading) (.check c))
          (MemoryStore.reached config requests) checks)) ∧
    (∀ (requests : List (StoreRequest GcraPolicy)) (checks : List (Check GcraPolicy)) (reading : Duration),
      (∀ i, (GcraStore.reached config requests i).poisoned = false) →
      (∀ i ∈ touched config checks, (GcraStore.reached config requests).observed i ≤ reading.asMillis) →
      (GcraStore.tryAdmit (.ok reading) (.checkAll checks) (GcraStore.reached config requests)).1 ≠
        .checkAll (.returned (.error .arithmeticOverflow)) →
      BatchAsEach checks reading.asMillis
        (GcraStore.tryAdmit (.ok reading) (.checkAll checks) (GcraStore.reached config requests))
        (Machine.outputs (fun c => GcraStore.tryAdmit (.ok reading) (.check c))
          (GcraStore.reached config requests) checks)
        (Machine.final (fun c => GcraStore.tryAdmit (.ok reading) (.check c))
          (GcraStore.reached config requests) checks)) ∧
    (∀ (clock : Panics Duration) (c : Check FixedWindowPolicy) (shards : BoundedShards config WindowEntry),
      (∀ i, (shards i).data.Countable) →
      MemoryStore.tryAdmit clock (.checkAll [c]) shards =
        ((MemoryStore.tryAdmit clock (.check c) shards).1.asBatch, (MemoryStore.tryAdmit clock (.check c) shards).2)) ∧
    ∀ (clock : Panics Duration) (c : Check GcraPolicy) (shards : BoundedShards config GcraEntry),
      (∀ i, (shards i).data.Countable) →
      GcraStore.tryAdmit clock (.checkAll [c]) shards =
        ((GcraStore.tryAdmit clock (.check c) shards).1.asBatch, (GcraStore.tryAdmit clock (.check c) shards).2) := by
  refine ⟨?_, ?_, MemoryStore.checkAll_singleton, GcraStore.checkAll_singleton⟩
  · intro requests checks reading hfree hunpoisoned hnow
    have hknown : storePolicies requests ⊆ storePolicies (requests ++ [.tryAdmit (.ok reading) (.checkAll checks)]) := by
      rintro p ⟨request, hrequest, hp⟩
      exact ⟨request, List.mem_append_left _ hrequest, hp⟩
    have hrepresents := @MemoryStore.reached_represents _ config _ hfree requests hknown
    refine MemoryStore.batchAsEach hfree ?_ ⟨hunpoisoned, hrepresents.inv, ?_⟩ hnow
      (MemoryStore.checkAll_ne_overflow _ checks _)
    · intro c hc
      exact ⟨_, List.mem_append_right _ List.mem_cons_self, c, hc, rfl⟩
    · exact fun i key entry hentry => (hrepresents.stored i key entry hentry).2.2
  · intro requests checks reading hunpoisoned hnow hoverflow
    have hrepresents := GcraStore.reached_represents config requests
    exact GcraStore.batchAsEach ⟨hunpoisoned, hrepresents.inv⟩ hnow hoverflow

/-- A batch that ended as allowed. -/
theorem MemoryStore.checkAll_ending [Sha2] {config : MemoryStoreConfig} {clock : Panics Duration}
    {checks : List (Check FixedWindowPolicy)} {shards : BoundedShards config WindowEntry}
    (h : (tryAdmit clock (.checkAll checks) shards).1.ending = .allowed) :
    ∃ allowances, (tryAdmit clock (.checkAll checks) shards).1 = .checkAll (.returned (.ok ⟨.allowed allowances⟩)) := by
  unfold tryAdmit at *
  simp only at *
  generalize (checkAll clock checks shards).1 = result at *
  cases result with
  | panicked => cases h
  | returned result =>
    cases result with
    | error e => cases h
    | ok decision =>
      obtain ⟨outcome⟩ := decision
      cases outcome with
      | allowed allowances => exact ⟨allowances, rfl⟩
      | denied index size denial => cases h
      | shadowDenied index size denial => cases h

/-- Two checks of one batch. -/
def pairChecks : letI := vectorSha2; List (Check FixedWindowPolicy) :=
  letI := vectorSha2
  [Check.new loginPolicy (Digest.replicate 1), Check.new searchPolicy (Digest.replicate 2)]

/-- The batch of two checks is allowed after a check of the first key, and so are both checks. -/
theorem batch_equals_checks_pair :
    letI := vectorSha2
    ∃ allowances,
      (MemoryStore.tryAdmit (.ok (Duration.fromMillis 7)) (.checkAll pairChecks)
        (MemoryStore.reached pairConfig [loginRequest (.ok (Duration.fromMillis 5))])).1 =
          .checkAll (.returned (.ok ⟨.allowed allowances⟩)) ∧
      Machine.outputs (fun c => MemoryStore.tryAdmit (.ok (Duration.fromMillis 7)) (.check c))
        (MemoryStore.reached pairConfig [loginRequest (.ok (Duration.fromMillis 5))]) pairChecks =
          allowances.map Response.ofAllowance := by
  let := vectorSha2
  have hsub : storePolicies ([loginRequest (.ok (Duration.fromMillis 5))] ++
      [.tryAdmit (.ok (Duration.fromMillis 7)) (.checkAll pairChecks)]) ⊆ {loginPolicy, searchPolicy} := by
    rintro p ⟨request, hrequest, c, hc, rfl⟩
    rcases List.mem_pair.1 hrequest with rfl | rfl
    · rw [List.mem_singleton.1 hc]
      exact Or.inl rfl
    · rcases List.mem_pair.1 hc with rfl | rfl
      · exact Or.inl rfl
      · exact Or.inr rfl
  have hfree := vector_fixedWindow_injOn.mono (Set.image_mono hsub)
  have hbatch := (batch_equals_checks pairConfig).1 _ pairChecks (Duration.fromMillis 7) hfree (by decide +kernel)
    (by decide +kernel)
  have hending : (MemoryStore.tryAdmit (.ok (Duration.fromMillis 7)) (.checkAll pairChecks)
      (MemoryStore.reached pairConfig [loginRequest (.ok (Duration.fromMillis 5))])).1.ending = .allowed := by
    decide +kernel
  obtain ⟨allowances, hallowed⟩ := MemoryStore.checkAll_ending hending
  exact ⟨allowances, hallowed, hbatch.allowances_eq allowances hallowed⟩

end Runlimit
