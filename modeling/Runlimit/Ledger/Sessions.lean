import Runlimit.Ledger.Transactions
import Runlimit.Machine.Run

/-!
# Sessions

Sessions run their transactions side by side over one database: each runs its own program, holds its locks to
its end, and may be rolled back at any point. What the programs do is a parameter (`Programs`); a statement that
would have to wait for a lock does not run yet.

Where every statement takes only free locks, writes only what it has locked, and counts what it writes
(`Lawful`), every interleaving of every number of sessions leaves the database `Orderly`: no lock is held
twice, the ledger is exact, and what a session adds is what its program names.
-/

namespace Ledger

variable {K V S L A P : Type}

structure Session (K V S L A P : Type) where
  advisory : Finset A
  txn : Txn K V S L
  program : P

inductive Lock (K S A : Type) where
  | advisory (id : A)
  | row (key : K)
  | ledger (shard : S)
  deriving DecidableEq

/-- The database and its clock. -/
structure World (K V S L A P : Type) where
  committed : Tables K V S L
  sessions : Table ℕ (Session K V S L A P)
  now : ℕ

/-- A database without sessions. -/
def World.start (committed : Tables K V S L) : World K V S L A P := ⟨committed, ∅, 0⟩

/-- What the sessions do: how one is opened, what its statements do and what its commit reports. -/
structure Programs (K V S L A P Start Statement Report : Type) where
  opens : World K V S L A P → Start → Option P
  /-- The next state of a session after a statement that ends at `responseNow`; `none` if it has to wait or the
  statement is not its own. -/
  execute : World K V S L A P → (i responseNow : ℕ) → Session K V S L A P → Statement → Option (Session K V S L A P)
  /-- A session that is not at its end has nothing to commit. -/
  reported : Session K V S L A P → Option Report

inductive Move (Start Statement : Type) where
  | start (i : ℕ) (what : Start)
  | run (i responseNow : ℕ) (statement : Statement)
  | commit (i : ℕ)
  | abort (i : ℕ)

/-- What a run shows of a move. -/
inductive Occurrence (Report : Type) where
  | blocked
  | quiet
  | committed (report : Report)

section Locks

variable [DecidableEq K] [DecidableEq S] [DecidableEq A]

def Session.holds (session : Session K V S L A P) : Lock K S A → Bool
  | .advisory id => decide (id ∈ session.advisory)
  | .row key => decide (key ∈ session.txn.rows)
  | .ledger shard => decide (shard ∈ session.txn.shards)

/-- No other session holds the lock. -/
def World.free (w : World K V S L A P) (i : ℕ) (lock : Lock K S A) : Bool :=
  decide (∀ j ∈ w.sessions.keys, j ≠ i → ∀ session ∈ w.sessions.lookup j, session.holds lock = false)

variable {w w' : World K V S L A P} {i j : ℕ} {session session' : Session K V S L A P}

/-- A lock is free for a session if no other session holds it. -/
theorem free_iff {lock : Lock K S A} :
    w.free i lock = true ↔ ∀ j session, j ≠ i → w.sessions.lookup j = some session → session.holds lock = false := by
  unfold World.free
  rw [decide_eq_true_iff]
  constructor
  · intro h j session hne hsession
    exact h j (Finmap.mem_keys_iff.2 ⟨session, hsession⟩) hne session hsession
  · intro h j _ hne session hsession
    exact h j session hne hsession

theorem holds_advisory {id : A} : session.holds (.advisory id) = true ↔ id ∈ session.advisory := decide_eq_true_iff

theorem holds_row {key : K} : session.holds (.row key) = true ↔ key ∈ session.txn.rows := decide_eq_true_iff

theorem holds_ledger {shard : S} : session.holds (.ledger shard) = true ↔ shard ∈ session.txn.shards :=
  decide_eq_true_iff

end Locks

/-! ## Moves -/

section Moves

variable {Start Statement Report : Type} (programs : Programs K V S L A P Start Statement Report)
  [DecidableEq K] [DecidableEq S]

/-- A move, unless it has to wait or does not apply. -/
def World.act (w : World K V S L A P) : Move Start Statement → Option (Occurrence Report × World K V S L A P)
  | .start i what => do
    let program ← programs.opens w what
    if i ∈ w.sessions.keys then none
    else some (.quiet, { w with sessions := w.sessions.insert i ⟨∅, .new w.committed, program⟩ })
  | .run i responseNow statement => do
    let session ← w.sessions.lookup i
    let session' ← programs.execute w i responseNow session statement
    if w.now ≤ responseNow then
      some (.quiet, { w with now := responseNow, sessions := w.sessions.insert i session' })
    else none
  | .commit i => do
    let session ← w.sessions.lookup i
    let report ← programs.reported session
    return (.committed report, { w with committed := session.txn.view w.committed, sessions := w.sessions.erase i })
  | .abort i => do
    let _ ← w.sessions.lookup i
    return (.quiet, { w with sessions := w.sessions.erase i })

/-- A step of the database: a move that has to wait changes nothing. -/
def moveOn (move : Move Start Statement) (w : World K V S L A P) : Occurrence Report × World K V S L A P :=
  (w.act programs move).getD (.blocked, w)

/-- The database after some moves. -/
def interleaved (committed : Tables K V S L) (moves : List (Move Start Statement)) : World K V S L A P :=
  Machine.final (moveOn programs) (World.start committed) moves

/-- What a move does, if it does anything. -/
inductive Acts (w : World K V S L A P) :
    Move Start Statement → Occurrence Report → World K V S L A P → Prop
  | opened {i : ℕ} {what : Start} {program : P} (hnew : i ∉ w.sessions.keys)
      (hopens : programs.opens w what = some program) :
    Acts w (.start i what) .quiet { w with sessions := w.sessions.insert i ⟨∅, .new w.committed, program⟩ }
  | ran {i responseNow : ℕ} {statement : Statement} {session session' : Session K V S L A P}
      (hsession : w.sessions.lookup i = some session)
      (hexecute : programs.execute w i responseNow session statement = some session') (hnow : w.now ≤ responseNow) :
    Acts w (.run i responseNow statement) .quiet
      { w with now := responseNow, sessions := w.sessions.insert i session' }
  | committed {i : ℕ} {session : Session K V S L A P} {report : Report}
      (hsession : w.sessions.lookup i = some session) (hreported : programs.reported session = some report) :
    Acts w (.commit i) (.committed report)
      { w with committed := session.txn.view w.committed, sessions := w.sessions.erase i }
  | aborted {i : ℕ} {session : Session K V S L A P} (hsession : w.sessions.lookup i = some session) :
    Acts w (.abort i) .quiet { w with sessions := w.sessions.erase i }

variable {programs} {w w' : World K V S L A P}

/-- Every move that is made is one of four. -/
theorem act_acts {move : Move Start Statement} {occurrence : Occurrence Report}
    (h : w.act programs move = some (occurrence, w')) : Acts programs w move occurrence w' := by
  unfold World.act at h
  cases move with
  | start i what =>
    obtain ⟨program, hopens, h⟩ := Option.bind_eq_some_iff.1 h
    split at h
    · cases h
    · rename_i hnew
      cases h
      exact Acts.opened hnew hopens
  | run i responseNow statement =>
    obtain ⟨session, hsession, h⟩ := Option.bind_eq_some_iff.1 h
    obtain ⟨session', hexecute, h⟩ := Option.bind_eq_some_iff.1 h
    split at h
    · rename_i hnow
      cases h
      exact Acts.ran hsession hexecute hnow
    · cases h
  | commit i =>
    obtain ⟨session, hsession, h⟩ := Option.bind_eq_some_iff.1 h
    obtain ⟨report, hreported, h⟩ := Option.bind_eq_some_iff.1 h
    cases h
    exact Acts.committed hsession hreported
  | abort i =>
    obtain ⟨session, hsession, h⟩ := Option.bind_eq_some_iff.1 h
    cases h
    exact Acts.aborted hsession

/-- A step is a move, or a wait. -/
theorem moveOn_cases (move : Move Start Statement) (w : World K V S L A P) :
    Acts programs w move (moveOn programs move w).1 (moveOn programs move w).2 ∨
      moveOn programs move w = (.blocked, w) := by
  unfold moveOn
  cases h : w.act programs move with
  | none => exact Or.inr rfl
  | some result => exact Or.inl (act_acts h)

theorem moveOn_of_act {move : Move Start Statement} {occurrence : Occurrence Report}
    (h : w.act programs move = some (occurrence, w')) : moveOn programs move w = (occurrence, w') := by
  unfold moveOn
  rw [h, Option.getD_some]

/-- **Invariants of interleavings.** What every move keeps holds after any moves. -/
theorem interleaved_inv {ok : Move Start Statement → Prop} {Keeps : World K V S L A P → Prop}
    (hacts : ∀ {move occurrence w w'}, ok move → Acts programs w move occurrence w' → Keeps w → Keeps w')
    {w : World K V S L A P} (hstart : Keeps w) {moves : List (Move Start Statement)} (hok : ∀ move ∈ moves, ok move) :
    Keeps (Machine.final (moveOn programs) w moves) := by
  refine Machine.final_inv (fun move w hmove hw => ?_) hstart hok
  rcases moveOn_cases move w with h | hblocked
  · exact hacts hmove h hw
  · rw [hblocked]
    exact hw

/-! ## Commits, one after another -/

/-- What the commit of a move reports. -/
def Occurrence.reported : Occurrence Report → Option Report
  | .blocked => none
  | .quiet => none
  | .committed report => some report

/-- The commits of a run, in order. -/
def reports (occurrences : List (Occurrence Report)) : List Report := occurrences.filterMap Occurrence.reported

/-- Transactions one after another, where `alone` says what each of them does by itself. -/
inductive Serially {T : Type} (alone : Report → T → T → Prop) : List Report → T → T → Prop
  | nil {t : T} : Serially alone [] t t
  | cons {report : Report} {rest : List Report} {t t' t'' : T} (hfirst : alone report t t')
      (hrest : Serially alone rest t' t'') : Serially alone (report :: rest) t t''

/-- **Serializability.** Where every commit does what its transaction does alone, an interleaving does what its commits
do one after another. -/
theorem interleaved_serially {ok : Move Start Statement → Prop} {Keeps : World K V S L A P → Prop}
    {alone : Report → Tables K V S L → Tables K V S L → Prop}
    (hacts : ∀ {move occurrence w w'}, ok move → Acts programs w move occurrence w' → Keeps w → Keeps w')
    (hcommit : ∀ {w : World K V S L A P} {i session report}, Keeps w → w.sessions.lookup i = some session →
      programs.reported session = some report → alone report w.committed (session.txn.view w.committed))
    {w : World K V S L A P} (hstart : Keeps w) {moves : List (Move Start Statement)} (hok : ∀ move ∈ moves, ok move) :
    Serially alone (reports (Machine.outputs (moveOn programs) w moves)) w.committed
      (Machine.final (moveOn programs) w moves).committed := by
  induction moves generalizing w with
  | nil => exact Serially.nil
  | cons move moves ih =>
    rw [List.forall_mem_cons] at hok
    rw [Machine.outputs_cons, Machine.final_cons]
    rcases moveOn_cases move w with h | hblocked
    · have hrest := ih (hacts hok.1 h hstart) hok.2
      generalize moveOn programs move w = result at h hrest ⊢
      obtain ⟨occurrence, w'⟩ := result
      cases h with
      | opened hnew hopens => exact hrest
      | ran hsession hexecute hnow => exact hrest
      | committed hsession hreported => exact Serially.cons (hcommit hstart hsession hreported) hrest
      | aborted hsession => exact hrest
    · rw [hblocked]
      exact ih hstart hok.2

end Moves

/-! ## Orderly databases -/

section Orderly

variable [DecidableEq K] [DecidableEq S] [DecidableEq A] (count : L → ℕ) (shardOf : K → S) (maximum : ℕ)
  (Names : P → K → Prop) (Good : Session K V S L A P → Prop)

/-- What a statement may do to the locks and the versions of its session. -/
inductive Changes (w : World K V S L A P) (i : ℕ) (session session' : Session K V S L A P) : Prop
  | quiet (hadvisory : session'.advisory = session.advisory) (htxn : session'.txn = session.txn)
  | advisory {id : A} (hadvisory : session'.advisory = insert id session.advisory) (htxn : session'.txn = session.txn)
      (hfree : w.free i (.advisory id) = true)
  | locked {rows : Finset K} {shards : Finset S} (hadvisory : session'.advisory = session.advisory)
      (htxn : session'.txn = session.txn.lock rows shards w.committed)
      (hrows : ∀ key ∈ rows, w.free i (.row key) = true)
      (hshards : ∀ shard ∈ shards, w.free i (.ledger shard) = true)
  | wrote {rows : Finset K} {shards : Finset S} {tables : Tables K V S L}
      (hadvisory : session'.advisory = session.advisory) (htxn : session'.txn = session.txn.write rows shards tables)
      (hrows : ∀ key ∈ rows, w.free i (.row key) = true)
      (hshards : ∀ shard ∈ shards, w.free i (.ledger shard) = true)
      (hcounted : Counted count shardOf maximum (session.txn.view w.committed) tables rows shards)
      (hnamed : ∀ key ∈ tables.rows.keys,
        key ∈ (session.txn.view w.committed).rows.keys ∨ Names session'.program key)

/-- The transactions of the sessions. -/
def World.txns (w : World K V S L A P) (i : ℕ) : Option (Txn K V S L) := (w.sessions.lookup i).map Session.txn

/-- What every interleaving keeps. -/
structure Orderly (w : World K V S L A P) : Prop where
  good : ∀ i session, w.sessions.lookup i = some session → Good session
  exclusive : ∀ i j session other, i ≠ j → w.sessions.lookup i = some session → w.sessions.lookup j = some other →
    ∀ lock, session.holds lock = true → other.holds lock = false
  ledger : Inv count shardOf maximum w.committed w.txns
  named : ∀ i session, w.sessions.lookup i = some session → ∀ key ∈ (session.txn.view w.committed).rows.keys,
    key ∈ w.committed.rows.keys ∨ Names session.program key

/-- Programs that lock what they write and count it. -/
structure Lawful {Start Statement Report : Type} (programs : Programs K V S L A P Start Statement Report) : Prop where
  opens : ∀ {w what program}, programs.opens w what = some program → Good ⟨∅, .new w.committed, program⟩
  changes : ∀ {w i responseNow session statement session'}, Good session →
    programs.execute w i responseNow session statement = some session' →
    Changes count shardOf maximum Names w i session session'
  good : ∀ {w i responseNow session statement session'}, Good session →
    programs.execute w i responseNow session statement = some session' → Good session'
  names : ∀ {w i responseNow session statement session' key},
    programs.execute w i responseNow session statement = some session' → Names session.program key →
    Names session'.program key

variable {count shardOf maximum Names Good} {w w' : World K V S L A P} {i j : ℕ}
  {session session' other : Session K V S L A P}

/-- A session takes only locks that no other session holds. -/
theorem Changes.takes (h : Changes count shardOf maximum Names w i session session') {lock : Lock K S A}
    (hlock : session'.holds lock = true) : session.holds lock = true ∨ w.free i lock = true := by
  -- a statement that leaves the locks holds nothing new
  have hsame : session'.advisory = session.advisory → session'.txn = session.txn → session.holds lock = true := by
    intro hadvisory htxn
    cases lock with
    | advisory id => rwa [holds_advisory, hadvisory, ← holds_advisory] at hlock
    | row key => rwa [holds_row, htxn, ← holds_row] at hlock
    | ledger shard => rwa [holds_ledger, htxn, ← holds_ledger] at hlock
  -- a statement that takes rows and ledgers found each of them free
  have hgrown : ∀ {rows : Finset K} {shards : Finset S}, session'.advisory = session.advisory →
      session'.txn.rows = session.txn.rows ∪ rows → session'.txn.shards = session.txn.shards ∪ shards →
      (∀ key ∈ rows, w.free i (.row key) = true) → (∀ shard ∈ shards, w.free i (.ledger shard) = true) →
      session.holds lock = true ∨ w.free i lock = true := by
    intro rows shards hadvisory hrows hshards hfreeRows hfreeShards
    cases lock with
    | advisory id =>
      left
      rwa [holds_advisory, hadvisory, ← holds_advisory] at hlock
    | row key =>
      rw [holds_row, hrows, Finset.mem_union] at hlock
      exact hlock.imp holds_row.2 (hfreeRows key)
    | ledger shard =>
      rw [holds_ledger, hshards, Finset.mem_union] at hlock
      exact hlock.imp holds_ledger.2 (hfreeShards shard)
  cases h with
  | quiet hadvisory htxn => exact Or.inl (hsame hadvisory htxn)
  | advisory hadvisory htxn hfree =>
    cases lock with
    | advisory id =>
      rw [holds_advisory, hadvisory, Finset.mem_insert] at hlock
      rcases hlock with rfl | hmem
      · exact Or.inr hfree
      · exact Or.inl (holds_advisory.2 hmem)
    | row key =>
      left
      rwa [holds_row, htxn, ← holds_row] at hlock
    | ledger shard =>
      left
      rwa [holds_ledger, htxn, ← holds_ledger] at hlock
  | locked hadvisory htxn hrows hshards =>
    exact hgrown hadvisory (by rw [htxn]; rfl) (by rw [htxn]; rfl) hrows hshards
  | wrote hadvisory htxn hrows hshards hcounted hnamed =>
    exact hgrown hadvisory (by rw [htxn]; rfl) (by rw [htxn]; rfl) hrows hshards

/-- What a session sees after a statement. -/
theorem Changes.view_or (h : Changes count shardOf maximum Names w i session session') :
    session'.txn.view w.committed = session.txn.view w.committed ∨
      ∀ key ∈ (session'.txn.view w.committed).rows.keys,
        key ∈ (session.txn.view w.committed).rows.keys ∨ Names session'.program key := by
  cases h with
  | quiet hadvisory htxn => exact Or.inl (by rw [htxn])
  | advisory hadvisory htxn _ => exact Or.inl (by rw [htxn])
  | locked hadvisory htxn hrows hshards => exact Or.inl (by rw [htxn, Txn.view_lock])
  | wrote hadvisory htxn hrows hshards hcounted hnamed =>
    right
    rw [htxn, Txn.view_wrote hcounted]
    exact hnamed

omit [DecidableEq K] [DecidableEq S] [DecidableEq A] in
theorem txns_insert (w : World K V S L A P) (i now : ℕ) (session : Session K V S L A P) :
    World.txns { w with now, sessions := w.sessions.insert i session } =
      Function.update w.txns i (some session.txn) := by
  funext j
  unfold World.txns
  rw [Finmap.lookup_insert_if]
  by_cases hj : j = i
  · rw [if_pos hj, hj, Function.update_self]
    rfl
  · rw [if_neg hj, Function.update_of_ne hj]

omit [DecidableEq K] [DecidableEq S] [DecidableEq A] in
theorem txns_erase (w : World K V S L A P) (i : ℕ) (committed : Tables K V S L) :
    World.txns { w with committed, sessions := w.sessions.erase i } = Function.update w.txns i none := by
  funext j
  unfold World.txns
  rw [Finmap.lookup_erase_if]
  by_cases hj : j = i
  · rw [if_pos hj, hj, Function.update_self]
    rfl
  · rw [if_neg hj, Function.update_of_ne hj]

omit [DecidableEq K] [DecidableEq S] [DecidableEq A] in
/-- The transaction of a session. -/
theorem txns_of_lookup (h : w.sessions.lookup i = some session) : w.txns i = some session.txn := by
  unfold World.txns
  rw [h]
  rfl

/-- The rows and the shards of two sessions are apart, where no lock is held twice. -/
theorem disjoint_of_holds (h : ∀ lock, session.holds lock = true → other.holds lock = false) :
    Disjoint session.txn.rows other.txn.rows ∧ Disjoint session.txn.shards other.txn.shards := by
  refine ⟨Finset.disjoint_left.2 fun key hkey hother => ?_, Finset.disjoint_left.2 fun shard hshard hother => ?_⟩
  · have hnot := h (.row key) (holds_row.2 hkey)
    rw [holds_row.2 hother] at hnot
    cases hnot
  · have hnot := h (.ledger shard) (holds_ledger.2 hshard)
    rw [holds_ledger.2 hother] at hnot
    cases hnot

omit [DecidableEq K] [DecidableEq S] [DecidableEq A] in
theorem lookup_of_erase (h : (w.sessions.erase i).lookup j = some other) :
    j ≠ i ∧ w.sessions.lookup j = some other := by
  rw [Finmap.lookup_erase_if] at h
  split at h
  · cases h
  · rename_i hne
    exact ⟨hne, h⟩

/-- No lock is held twice, also after a session has taken free ones. -/
theorem exclusive_insert
    (h : ∀ i j session other, i ≠ j → w.sessions.lookup i = some session → w.sessions.lookup j = some other →
      ∀ lock, session.holds lock = true → other.holds lock = false)
    (hnew : ∀ j other, j ≠ i → w.sessions.lookup j = some other → ∀ lock, session'.holds lock = true →
      other.holds lock = false) :
    ∀ j k first second, j ≠ k → (w.sessions.insert i session').lookup j = some first →
      (w.sessions.insert i session').lookup k = some second →
      ∀ lock, first.holds lock = true → second.holds lock = false := by
  intro j k first second hne hfirst hsecond lock hlock
  rw [Finmap.lookup_insert_if] at hfirst hsecond
  split at hfirst
  · rename_i hj
    cases hfirst
    rw [if_neg fun hk => hne (hj.trans hk.symm)] at hsecond
    -- the first is the session that moved
    exact hnew k second (fun hk => hne (hj.trans hk.symm)) hsecond lock hlock
  · rename_i hj
    split at hsecond
    · cases hsecond
      -- what the first session holds the second has not taken
      cases hholds : session'.holds lock with
      | false => rfl
      | true =>
        have hnot := hnew j first hj hfirst lock hholds
        rw [hlock] at hnot
        cases hnot
    · exact h j k first second hne hfirst hsecond lock hlock

/-- Whatever a session holds after its statement no other session holds. -/
theorem Changes.not_held (h : Changes count shardOf maximum Names w i session session')
    (hw : Orderly count shardOf maximum Names Good w) (hsession : w.sessions.lookup i = some session) :
    ∀ j other, j ≠ i → w.sessions.lookup j = some other → ∀ lock, session'.holds lock = true →
      other.holds lock = false := by
  intro j other hne hother lock hlock
  rcases h.takes hlock with hheld | hfree
  · exact hw.exclusive i j session other (Ne.symm hne) hsession hother lock hheld
  · exact free_iff.1 hfree j other hne hother

/-- A statement leaves the ledger exact. -/
theorem Changes.ledger (h : Changes count shardOf maximum Names w i session session')
    (hw : Orderly count shardOf maximum Names Good w) (hsession : w.sessions.lookup i = some session) :
    Inv count shardOf maximum w.committed (Function.update w.txns i (some session'.txn)) := by
  have htxns := txns_of_lookup hsession
  -- no lock is held twice, so the other transactions own other rows and shards
  have hfree : ∀ j u, j ≠ i → w.txns j = some u →
      Disjoint session'.txn.rows u.rows ∧ Disjoint session'.txn.shards u.shards := by
    intro j u hne hu
    obtain ⟨other, hother, rfl⟩ := Option.map_eq_some_iff.1 hu
    exact disjoint_of_holds (h.not_held hw hsession j other hne hother)
  have hsame : session'.txn = session.txn →
      Inv count shardOf maximum w.committed (Function.update w.txns i (some session'.txn)) := by
    intro htxn
    rw [htxn, ← htxns, Function.update_eq_self]
    exact hw.ledger
  cases h with
  | quiet hadvisory htxn => exact hsame htxn
  | advisory hadvisory htxn _ => exact hsame htxn
  | locked hadvisory htxn hrows hshards =>
    rw [htxn] at hfree ⊢
    exact hw.ledger.locked htxns hfree
  | wrote hadvisory htxn hrows hshards hcounted _ =>
    rw [htxn] at hfree ⊢
    exact hw.ledger.wrote htxns hcounted hfree

/-- A commit leaves what another session has locked. -/
theorem Orderly.undisturbed (hw : Orderly count shardOf maximum Names Good w) (hne : j ≠ i)
    (hsession : w.sessions.lookup i = some session) (hother : w.sessions.lookup j = some other) :
    Undisturbed shardOf w.committed (session.txn.view w.committed) other.txn :=
  hw.ledger.undisturbed hne (txns_of_lookup hsession) (txns_of_lookup hother)

/-- **A move leaves an orderly database.** -/
theorem Lawful.orderly {Start Statement Report : Type} {programs : Programs K V S L A P Start Statement Report}
    (hlawful : Lawful count shardOf maximum Names Good programs) {move : Move Start Statement}
    {occurrence : Occurrence Report} (h : Acts programs w move occurrence w')
    (hw : Orderly count shardOf maximum Names Good w) : Orderly count shardOf maximum Names Good w' := by
  cases h with
  | @opened i what program hnew hopens =>
    refine ⟨?_, ?_, ?_, ?_⟩
    · intro j session hsession
      rw [Finmap.lookup_insert_if] at hsession
      split at hsession
      · cases hsession
        exact hlawful.opens hopens
      · exact hw.good j session hsession
    · refine exclusive_insert hw.exclusive ?_
      intro j other _ _ lock hlock
      cases lock with
      | advisory id => exact absurd (holds_advisory.1 hlock) (Finset.notMem_empty _)
      | row key => exact absurd (holds_row.1 hlock) (Finset.notMem_empty _)
      | ledger shard => exact absurd (holds_ledger.1 hlock) (Finset.notMem_empty _)
    · rw [show World.txns _ = Function.update w.txns i (some (Txn.new w.committed)) from txns_insert w i w.now _]
      exact hw.ledger.began i
    · intro j session hsession key hkey
      rw [Finmap.lookup_insert_if] at hsession
      split at hsession
      · cases hsession
        rw [Txn.view_new] at hkey
        exact Or.inl hkey
      · exact hw.named j session hsession key hkey
  | @ran i responseNow statement session session' hsession hexecute hnow =>
    have hchanges := hlawful.changes (hw.good i session hsession) hexecute
    refine ⟨?_, exclusive_insert hw.exclusive (hchanges.not_held hw hsession), ?_, ?_⟩
    · intro j other hother
      rw [Finmap.lookup_insert_if] at hother
      split at hother
      · cases hother
        exact hlawful.good (hw.good i session hsession) hexecute
      · exact hw.good j other hother
    · rw [show World.txns _ = _ from txns_insert w i responseNow session']
      exact hchanges.ledger hw hsession
    · intro j other hother key hkey
      rw [Finmap.lookup_insert_if] at hother
      split at hother
      · cases hother
        have hnamed := hw.named i session hsession key
        rcases hchanges.view_or with hview | hview
        · change key ∈ (session'.txn.view w.committed).rows.keys at hkey
          rw [hview] at hkey
          exact (hnamed hkey).imp_right (hlawful.names hexecute)
        · rcases hview key hkey with hold | hnew
          · exact (hnamed hold).imp_right (hlawful.names hexecute)
          · exact Or.inr hnew
      · exact hw.named j other hother key hkey
  | @committed i session _ hsession hreported =>
    refine ⟨fun j other hother => hw.good j other (lookup_of_erase hother).2, ?_, ?_, ?_⟩
    · intro j k first second hne hfirst hsecond
      exact hw.exclusive j k first second hne (lookup_of_erase hfirst).2 (lookup_of_erase hsecond).2
    · rw [show World.txns _ = _ from txns_erase w i _]
      exact hw.ledger.committed (txns_of_lookup hsession)
    · intro j other hother key hkey
      obtain ⟨hne, hother⟩ := lookup_of_erase hother
      by_cases hlocked : key ∈ other.txn.rows
      · -- its own row, which the commit has left alone
        have hrow := (hw.undisturbed hne hsession hother).rows key hlocked
        have hsame : key ∈ (other.txn.view w.committed).rows.keys := by
          refine (Finmap.mem_keys_congr ?_).1 hkey
          rw [Txn.view_lookup, if_pos hlocked, Txn.view_lookup, if_pos hlocked]
        refine (hw.named j other hother key hsame).imp_left ?_
        exact (Finmap.mem_keys_congr hrow).2
      · left
        refine (Finmap.mem_keys_congr ?_).1 hkey
        rw [Txn.view_lookup, if_neg hlocked]
  | @aborted i session hsession =>
    refine ⟨fun j other hother => hw.good j other (lookup_of_erase hother).2, ?_, ?_, ?_⟩
    · intro j k first second hne hfirst hsecond
      exact hw.exclusive j k first second hne (lookup_of_erase hfirst).2 (lookup_of_erase hsecond).2
    · rw [show World.txns _ = _ from txns_erase w i _]
      exact hw.ledger.ended i
    · exact fun j other hother => hw.named j other (lookup_of_erase hother).2

/-- A database without sessions is orderly where its ledger is exact. -/
theorem Orderly.start {committed : Tables K V S L} (h : ∀ s, committed.ExactAt count shardOf maximum s) :
    Orderly count shardOf maximum Names Good (World.start committed : World K V S L A P) :=
  ⟨nofun, nofun, Inv.start h, nofun⟩

/-- **Every interleaving leaves an orderly database.** -/
theorem Lawful.interleaved {Start Statement Report : Type} {programs : Programs K V S L A P Start Statement Report}
    (hlawful : Lawful count shardOf maximum Names Good programs) {committed : Tables K V S L}
    (h : ∀ s, committed.ExactAt count shardOf maximum s) (moves : List (Move Start Statement)) :
    Orderly count shardOf maximum Names Good (Ledger.interleaved programs committed moves) :=
  @interleaved_inv _ _ _ _ _ _ _ _ _ _ _ _ (fun _ => True) _ (fun _ hacts hw => hlawful.orderly hacts hw) _
    (Orderly.start h) moves fun _ _ => trivial

end Orderly

/-! ## Waiting -/

section Waiting

/-- The order of the locks: advisory locks before rows, rows before the ledger. -/
def Lock.rank : Lock K S A → A ⊕ₗ (K ⊕ₗ S)
  | .advisory id => toLex (.inl id)
  | .row key => toLex (.inr (toLex (.inl key)))
  | .ledger shard => toLex (.inr (toLex (.inr shard)))

/-- **No circle of waiting**, where everyone waits only for locks above those it holds: along the circle the locks
would only rise. -/
theorem not_transGen_of_ascending {I B R : Type} [Preorder R] {wants holds : I → B → Prop} {rank : B → R}
    (h : ∀ i b c, wants i b → holds i c → rank c < rank b) (i : I) :
    ¬Relation.TransGen (fun i j => ∃ b, wants i b ∧ holds j b) i i := by
  have hrises : ∀ {i j : I}, Relation.TransGen (fun i j => ∃ b, wants i b ∧ holds j b) i j →
      ∃ b c, wants i b ∧ holds j c ∧ rank b ≤ rank c := by
    intro i j hpath
    induction hpath with
    | single hstep =>
      obtain ⟨b, hwants, hholds⟩ := hstep
      exact ⟨b, b, hwants, hholds, le_rfl⟩
    | tail _ hstep ih =>
      obtain ⟨b, c, hwants, hholds, hle⟩ := ih
      obtain ⟨d, hnext, hheld⟩ := hstep
      exact ⟨b, d, hwants, hheld, hle.trans (h _ d c hnext hholds).le⟩
  intro hcycle
  obtain ⟨b, c, hwants, hholds, hle⟩ := hrises hcycle
  exact lt_irrefl _ ((h i b c hwants hholds).trans_le hle)

end Waiting

end Ledger
