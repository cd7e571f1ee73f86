import Runlimit.Spec.Prim
import Runlimit.Spec.Policy
import Runlimit.Proof.Encoding
import Runlimit.Proof.Subjects
import Runlimit.Finite.Table
import Runlimit.Spec.Decision
import Runlimit.Spec.Shards
import Runlimit.Proof.Constructors
import Runlimit.Spec.MemoryStore
import Runlimit.Machine.Run
import Runlimit.Spec.GcraStore
import Runlimit.Spec.Reference
import Runlimit.Proof.GcraExact
import Runlimit.Proof.Shard
import Runlimit.Proof.Batch
import Runlimit.Proof.Bounded
import Runlimit.Proof.Topology
import Runlimit.Spec.Run
import Runlimit.Proof.Locked
import Runlimit.Proof.MemoryRefines
import Runlimit.Proof.GcraRefines
import Runlimit.Proof.Unobservable
import Runlimit.Proof.KeySteps
import Runlimit.Bucket.Level
import Runlimit.Proof.GcraRate
import Runlimit.Proof.GcraRange
import Runlimit.Spec.TokenBucket
import Runlimit.Proof.TokenBucket
import Runlimit.Proof.WindowBound
import Runlimit.Proof.AttemptSteps
import Runlimit.Proof.Fencing
import Runlimit.Proof.EagerRefines
import Runlimit.Proof.Backoff
import Runlimit.Proof.Identity
import Runlimit.Spec.StoreRun
import Runlimit.Proof.Representation
import Runlimit.Proof.Intact
import Runlimit.Proof.BatchChecks
import Runlimit.Spec.PgGcra
import Runlimit.Proof.PgGcraSteps
import Runlimit.Proof.PgGcraRate
import Runlimit.Proof.PgGcraAgrees
import Runlimit.Proof.Durable
import Runlimit.Spec.PgWindows
import Runlimit.Proof.PgWindowScan
import Runlimit.Proof.PgWindowAgrees
import Runlimit.Proof.GcraExpiry
import Runlimit.Proof.NoPanic
import Runlimit.Proof.ShadowMode
import Runlimit.Proof.RetryHints
import Runlimit.Cursor.Scan
import Runlimit.Proof.AttemptCleanup
import Runlimit.Spec.PgAttempts
import Runlimit.Field.Structured
import Runlimit.Spec.RateLimitFields
import Runlimit.Proof.RateLimitFields
import Runlimit.Proof.PgBackoff
import Runlimit.Proof.BatchRules
import Runlimit.Fallible.Triple
import Runlimit.Spec.Faults
import Runlimit.Ledger.Transactions
import Runlimit.Ledger.Sessions
import Runlimit.Spec.Sessions
import Runlimit.Spec.GcraSessions
import Runlimit.Proof.Triggers
import Runlimit.Proof.SessionSteps
import Runlimit.Proof.SessionKept
import Runlimit.Proof.Consumption
import Runlimit.Proof.GcraSessionSteps
import Runlimit.Proof.LedgerRoom
import Runlimit.Proof.LedgerExact
import Runlimit.Proof.Protocol
import Runlimit.Proof.LockOrder
import Runlimit.Proof.Serial
import Runlimit.Spec.AttemptSessions
import Runlimit.Proof.AttemptMoves
import Runlimit.Proof.AttemptLocks
import Runlimit.Proof.AttemptSlots
import Runlimit.Proof.AttemptTokens
import Runlimit.Proof.AttemptFences
import Runlimit.Spec.Backends
import Runlimit.Proof.AttemptRows
import Runlimit.Proof.BackendsAgree
import Runlimit.Spec.RateLimitLayer
import Runlimit.Proof.RateLimitLayer
