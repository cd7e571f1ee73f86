import Runlimit.Spec.MemoryStore
import Runlimit.Spec.GcraStore

/-!
# The reference store

What the two memory stores are for, without what makes them fast. A quota algorithm turns
a check, a time and the live entry of its key into a verdict. The reference store keeps,
for each shard, the greatest time observed and the entries; an operation deletes *every*
expired entry of the shards it touches and then scans its checks left to right. There is no
expiration index and no bound on the removals. An operation that fails is one that never
happened.
-/

namespace Runlimit

open Gcra (ArithmeticOverflow)

/-! ## Quota algorithms -/

/-- What an algorithm says about one check. -/
inductive Verdict (E : Type) where
  | allowed (entry : StoredEntry E) (allowance : Allowance)
  | denied (denial : QuotaDenial)

/-- A quota algorithm: the verdict on a check at a time, given the live entry of its key.
An entry it writes is live, for at most the portable window. -/
structure Algorithm (P E : Type) [RateLimitPolicy P] where
  evaluate : Check P → ℕ → Option (StoredEntry E) → Except ArithmeticOverflow (Verdict E)
  expires_bound : ∀ {check : Check P} {now : ℕ} {live : Option (StoredEntry E)}
    {entry : StoredEntry E} {allowance : Allowance},
    evaluate check now live = .ok (.allowed entry allowance) →
    (∀ e ∈ live, now < e.expiresAtMillis ∧ e.expiresAtMillis ≤ now + maxWindowMillis) →
    now < entry.expiresAtMillis ∧ entry.expiresAtMillis ≤ now + maxWindowMillis

section Algorithms

variable [Sha2]

/-- A window anchored at the first admitted check: it closes after the policy's window,
whatever is admitted in it. -/
def fixedWindowVerdict (check : Check FixedWindowPolicy) (now : ℕ) :
    Option (StoredEntry WindowEntry) → Verdict WindowEntry
  | none =>
    .allowed ⟨⟨check.cost⟩, now + check.policy.window.millis⟩
      ⟨check.policy.limit, check.policy.limit.get - check.cost,
        ⟨Duration.fromMillis check.policy.window.millis⟩, Nat.sub_le _ _⟩
  | some entry =>
    if check.policy.limit.get < entry.value.used + check.cost then
      .denied (QuotaDenial.new check.policy.limit (Duration.fromMillis (entry.expiresAtMillis - now)))
    else
      .allowed ⟨⟨entry.value.used + check.cost⟩, entry.expiresAtMillis⟩
        ⟨check.policy.limit, check.policy.limit.get - (entry.value.used + check.cost),
          ⟨Duration.fromMillis (entry.expiresAtMillis - now)⟩, Nat.sub_le _ _⟩

def fixedWindow : Algorithm FixedWindowPolicy WindowEntry where
  evaluate check now live := .ok (fixedWindowVerdict check now live)
  expires_bound := by
    intro check now live entry allowance h hlive
    rw [Except.ok.injEq] at h
    unfold fixedWindowVerdict at h
    split at h
    · cases h
      have hpos := check.policy.window.pos
      have hle := check.policy.window.le_max
      exact ⟨by simp only; omega, by simp only; omega⟩
    · rename_i e
      split at h
      · cases h
      · cases h
        exact hlive e rfl

/-- The exact GCRA transition; an entry is an arrival time. -/
def gcraVerdict : Gcra.QuotaEvaluation → Verdict GcraEntry
  | .allowed pending => .allowed ⟨⟨pending.tatScaled⟩, pending.expiresAtMillis⟩ pending.allowance
  | .denied denial => .denied denial

def gcraEvaluate (check : Check GcraPolicy) (now : ℕ) (live : Option (StoredEntry GcraEntry)) :
    Except ArithmeticOverflow (Verdict GcraEntry) :=
  (Gcra.evaluate check now (live.map (·.value.tatScaled))).map gcraVerdict

end Algorithms

/-! ## Shards of the reference store -/

@[ext]
structure RefShard (E : Type) where
  observedMillis : ℕ
  entries : Table CounterKey (StoredEntry E)

namespace RefShard

variable {E : Type}

def new : RefShard E := ⟨0, ∅⟩

/-- Time moves to `now`: everything that has expired is deleted. -/
def advance (s : RefShard E) (now : ℕ) : RefShard E :=
  ⟨now, s.entries.filter fun _ entry => decide (now < entry.expiresAtMillis)⟩

def put (s : RefShard E) (key : CounterKey) (entry : StoredEntry E) : RefShard E :=
  { s with entries := s.entries.insert key entry }

/-- The denial of a new key: it may fit when the first entry expires. -/
def full (s : RefShard E) (now : ℕ) : Denial :=
  .storageCapacity ((s.entries.range (·.expiresAtMillis)).first.map fun expiresAtMillis =>
    ⟨Duration.fromMillis (expiresAtMillis - now)⟩)

end RefShard

abbrev RefStore (config : MemoryStoreConfig) (E : Type) := Fin config.shardCount → RefShard E

/-! ## Operations -/

/-- The batch outcome for an exceeded quota. -/
def BatchOutcome.quotaExceeded (mode : QuotaMode) (index batchSize : ℕ) (denial : QuotaDenial) :
    BatchOutcome :=
  if mode = .shadow then .shadowDenied index batchSize denial
  else .denied index batchSize (.quotaExceeded denial)

section Operations

variable {P E : Type} [RateLimitPolicy P] {config : MemoryStoreConfig}

/-- The shard of a check. -/
def Check.shard (config : MemoryStoreConfig) (check : Check P) : Fin config.shardCount :=
  config.shardIndex check.counterKey

/-- The shards some checks touch. -/
def touched (config : MemoryStoreConfig) (checks : List (Check P)) : Finset (Fin config.shardCount) :=
  (checks.map (Check.shard config)).toFinset

/-- The time of an operation: the clock, but not before any shard it touches. -/
def clampedMillis (observed : Fin config.shardCount → ℕ) (checks : List (Check P))
    (reading : Duration) : ℕ :=
  max reading.asMillis ((touched config checks).sup observed)

/-- The number of checks routed to a shard. -/
def demand (config : MemoryStoreConfig) (checks : List (Check P)) (i : Fin config.shardCount) : ℕ :=
  (checks.map (Check.shard config)).count i

/-- The first shard, by index, that could not hold the keys the batch routes to it. -/
def overfull (config : MemoryStoreConfig) (checks : List (Check P)) : Option MemoryBatchError :=
  ((List.finRange config.shardCount).find? fun i : Fin config.shardCount =>
      decide (config.shardCapacity i < demand config checks i)).map fun i : Fin config.shardCount =>
    .batchExceedsShardCapacity i (demand config checks i) (config.shardCapacity i)

/-- The left-to-right scan of a batch: its first denial, if there is one. `present` says
which keys have an entry, `used` how many entries a shard holds, `full` what a full shard
answers, and `pending` counts the new keys of the checks scanned so far. -/
def scan (config : MemoryStoreConfig) (batchSize : ℕ) (present : CounterKey → Bool)
    (used : Fin config.shardCount → ℕ) (full : Fin config.shardCount → Denial) :
    ℕ → (Fin config.shardCount → ℕ) → List (Check P × Verdict E) → Option BatchOutcome
  | _, _, [] => none
  | index, _, (check, .denied denial) :: _ =>
    some (.quotaExceeded check.quotaMode index batchSize denial)
  | index, pending, (check, .allowed _ _) :: rest =>
    let i := check.shard config
    if present check.counterKey then scan config batchSize present used full (index + 1) pending rest
    else if config.shardCapacity i ≤ used i + pending i then some (.denied index batchSize (full i))
    else scan config batchSize present used full (index + 1)
      (Function.update pending i (pending i + 1)) rest

/-- The verdicts on the checks of a batch, each on the live entry its key has before the
batch. -/
def evaluateAll (alg : Algorithm P E) (now : ℕ) (entry : Check P → Option (StoredEntry E))
    (checks : List (Check P)) : Except ArithmeticOverflow (List (Check P × Verdict E)) :=
  checks.mapM fun check => do return (check, ← alg.evaluate check now (entry check))

/-- The allowances of a batch that is allowed as a whole. -/
def allowances (verdicts : List (Check P × Verdict E)) : List Allowance :=
  verdicts.filterMap fun
    | (_, .allowed _ allowance) => some allowance
    | (_, .denied _) => none

namespace RefStore

def new (config : MemoryStoreConfig) : RefStore config E := fun _ => .new

/-- Time moves to `now` on the touched shards. -/
def advance (store : RefStore config E) (touched : Finset (Fin config.shardCount)) (now : ℕ) :
    RefStore config E :=
  fun i => if i ∈ touched then (store i).advance now else store i

/-- The live entry of a check's key, in a store that has advanced. -/
def entry (store : RefStore config E) (check : Check P) : Option (StoredEntry E) :=
  (store (check.shard config)).entries.lookup check.counterKey

/-- Stores the entries of an allowed batch. -/
def putAll : List (Check P × Verdict E) → RefStore config E → RefStore config E
  | [], store => store
  | (_, .denied _) :: rest, store => putAll rest store
  | (check, .allowed entry _) :: rest, store =>
    putAll rest (Function.update store (check.shard config)
      ((store (check.shard config)).put check.counterKey entry))

/-- One check. -/
def check (alg : Algorithm P E) (now : ℕ) (check : Check P) (store : RefStore config E) :
    Except ArithmeticOverflow Decision × RefStore config E :=
  let i := check.shard config
  let advanced := store.advance {i} now
  match alg.evaluate check now (advanced.entry check) with
  | .error error => (.error error, store)
  | .ok (.denied denial) => (.ok (.quotaExceeded check.quotaMode denial), advanced)
  | .ok (.allowed entry allowance) =>
    if check.counterKey ∉ (advanced i).entries.keys ∧
        config.shardCapacity i ≤ (advanced i).entries.keys.card then
      (.ok (.denied ((advanced i).full now)), advanced)
    else
      (.ok (.allowed allowance), Function.update advanced i ((advanced i).put check.counterKey entry))

/-- An atomic batch. -/
def checkAll (alg : Algorithm P E) (now : ℕ) (checks : List (Check P)) (store : RefStore config E) :
    Except GcraBatchError BatchDecision × RefStore config E :=
  match validateBatch checks config.maxBatchSize with
  | .error error => (.error (.store (.invalidBatch error)), store)
  | .ok () =>
    match overfull config checks with
    | some error => (.error (.store error), store)
    | none =>
      let advanced := store.advance (touched config checks) now
      match evaluateAll alg now advanced.entry checks with
      | .error _ => (.error .arithmeticOverflow, store)
      | .ok verdicts =>
        let denial := scan config checks.length
          (fun key => decide (key ∈ (advanced (config.shardIndex key)).entries.keys))
          (fun i => (advanced i).entries.keys.card) (fun i => (advanced i).full now) 0 (fun _ => 0) verdicts
        match denial with
        | some outcome => (.ok ⟨outcome⟩, advanced)
        | none => (.ok ⟨.allowed (allowances verdicts)⟩, advanced.putAll verdicts)

end RefStore

end Operations

end Runlimit
