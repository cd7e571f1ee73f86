import Runlimit.Spec.Run

/-!
# What a run charges

An operation of a run *touches* a shard if it returned a decision and one of its checks is
routed there: an operation that failed has left every shard as it was. It *charges* a key the
cost of each of its checks of that key, if it was allowed.
-/

namespace Runlimit

section

variable {P : Type} [RateLimitPolicy P]

/-- A decision was returned. -/
def Response.decided : Response → Bool
  | .check (.returned (.ok _)) => true
  | .checkAll (.returned (.ok _)) => true
  | _ => false

/-- Every check was allowed. -/
def Response.allowed : Response → Bool
  | .check (.returned (.ok (.allowed _))) => true
  | .checkAll (.returned (.ok ⟨.allowed _⟩)) => true
  | _ => false

namespace Event

/-- The operation evaluated checks of this shard and recorded its time there. -/
def Touches (config : MemoryStoreConfig) (event : Event P) (i : Fin config.shardCount) : Prop :=
  event.response.decided = true ∧ i ∈ touched config event.request.checks

/-- The costs of the allowed checks of a key. -/
def costs (event : Event P) (key : CounterKey) : List ℕ :=
  if event.response.allowed then
    (event.request.checks.filter fun c => decide (c.counterKey = key)).map (·.cost)
  else []

/-- The total cost of the allowed checks of a key. -/
def cost (event : Event P) (key : CounterKey) : ℕ := (event.costs key).sum

end Event

/-- The allowed checks of a key over a run, in order: the time and the cost of each. -/
def charges (key : CounterKey) (events : List (Event P)) : List (ℕ × ℕ) :=
  events.flatMap fun event => (event.costs key).map fun cost => (event.nowMillis, cost)

end

/-- The same quota, possibly in another mode: the mode is not part of the identity. -/
def GcraPolicy.SameQuota (p q : GcraPolicy) : Prop :=
  p.quota = q.quota ∧ p.period = q.period ∧ p.burstCapacity = q.burstCapacity

/-- The quota of a counter key in a run: every check of the key is made under a policy with the
quota, period and burst capacity of this one. -/
def QuotaOf [Sha2] (calls : List (Call GcraPolicy)) (key : CounterKey) (policy : GcraPolicy) : Prop :=
  ∀ call ∈ calls, ∀ c ∈ call.request.checks, c.counterKey = key → c.policy.SameQuota policy

end Runlimit
