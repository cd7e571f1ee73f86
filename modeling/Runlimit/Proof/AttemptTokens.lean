import Runlimit.Proof.AttemptSlots

/-!
# The tokens of the attempts

Every lease, in whatever version of a row, stands under a token that was issued for its key and its deadline. The
token of a claim stands in the versions of its own transaction only, while that is open; and there it stands as long as
the claim is neither finished nor undone (`Knows`). So what `finish_in` finds in the row tells it whether the claim is
still there.
-/

namespace Runlimit

namespace PgAttempts

/-! ## Leases -/

section Leases

variable {rows rows' : AttemptRows} {key other : AttemptKey} {lease : ℕ × LeaseToken} {txn : Txn}
  {issued issued' : Table LeaseToken Reservation} {token : LeaseToken}

/-- The lease of the row of a key. -/
def leaseAt (rows : AttemptRows) (key : AttemptKey) : Option (ℕ × LeaseToken) :=
  (rows.lookup key).bind AttemptRow.lease

theorem leaseAt_eq_some : leaseAt rows key = some lease ↔ ∃ row, rows.lookup key = some row ∧ row.lease = some lease :=
  Option.bind_eq_some_iff

theorem leaseAt_of_lookup {row : AttemptRow} (h : rows.lookup key = some row) : leaseAt rows key = row.lease := by
  unfold leaseAt
  rw [h, Option.bind_some]

/-- A lease is a matter of its own row. -/
theorem leaseAt_congr (h : rows'.lookup key = rows.lookup key) : leaseAt rows' key = leaseAt rows key := by
  unfold leaseAt
  rw [h]

/-- A row that is written brings its lease. -/
theorem leaseAt_insert (row : AttemptRow) (other : AttemptKey) :
    leaseAt (rows.insert key row) other = if other = key then row.lease else leaseAt rows other := by
  unfold leaseAt
  rw [Finmap.lookup_insert_if]
  split
  · rfl
  · rfl

/-- A transaction sees the leases of its own rows, and the committed ones. -/
theorem leaseAt_view (txn : Txn) (committed : AttemptRows) (key : AttemptKey) :
    leaseAt (txn.view committed) key = if key ∈ txn.locked then leaseAt txn.own key else leaseAt committed key := by
  unfold leaseAt
  rw [Txn.view_lookup]
  split
  · rfl
  · rfl

/-- A key whose lease, if it has one, is under a token that was issued for it. -/
def LeasedAt (issued : Table LeaseToken Reservation) (rows : AttemptRows) (key : AttemptKey) : Prop :=
  ∀ untilMs token, leaseAt rows key = some (untilMs, token) →
    ∃ receipt, issued.lookup token = some ⟨receipt, key, untilMs⟩

/-- Tokens are only ever added. -/
def Extends (issued issued' : Table LeaseToken Reservation) : Prop :=
  ∀ token reservation, issued.lookup token = some reservation → issued'.lookup token = some reservation

theorem Extends.refl (issued : Table LeaseToken Reservation) : Extends issued issued := fun _ _ h => h

/-- A fresh token adds to what was issued. -/
theorem extends_insert (hfresh : token ∉ issued.keys) (reservation : Reservation) :
    Extends issued (issued.insert token reservation) := by
  intro old kept hkept
  rw [Finmap.lookup_insert_if]
  split
  · rename_i heq
    have hmem : token ∈ issued.keys := Finmap.mem_keys_iff.2 ⟨kept, heq ▸ hkept⟩
    exact absurd hmem hfresh
  · exact hkept

/-- A lease stays that of an issued token. -/
theorem LeasedAt.mono (h : LeasedAt issued rows key) (hextends : Extends issued issued') : LeasedAt issued' rows key := by
  intro untilMs token hlease
  obtain ⟨receipt, hissued⟩ := h untilMs token hlease
  exact ⟨receipt, hextends _ _ hissued⟩

theorem LeasedAt.congr (h : LeasedAt issued rows key) (hlease : leaseAt rows' key = leaseAt rows key) :
    LeasedAt issued rows' key := by
  intro untilMs token hsome
  rw [hlease] at hsome
  exact h untilMs token hsome

end Leases

variable [Sha2] {w w' : World} {i j nowMs : ℕ} {session other : Session} {txn txn' saved : Txn} {key : AttemptKey}

/-! ## What the statements do to leases -/

/-- The leases a statement leaves: those it saw, and one under a token it has issued. -/
def Carries (w : World) (txn txn' : Txn) (issued : Table LeaseToken Reservation) : Prop :=
  ∀ key ∈ txn'.locked, ∀ untilMs token, leaseAt txn'.own key = some (untilMs, token) →
    leaseAt (txn.view w.committed) key = some (untilMs, token) ∨
      token ∉ w.issued.keys ∧ ∃ receipt, issued.lookup token = some ⟨receipt, key, untilMs⟩

omit [Sha2] in
/-- Locked rows whose leases are as they were seen carry them. -/
theorem carries_own (h : ∀ key ∈ txn'.locked, leaseAt txn'.own key = leaseAt (txn.view w.committed) key)
    (issued : Table LeaseToken Reservation) : Carries w txn txn' issued :=
  fun key hkey _ _ hlease => Or.inl (h key hkey ▸ hlease)

omit [Sha2] in
theorem carries_same (txn : Txn) (issued : Table LeaseToken Reservation) : Carries w txn txn issued := by
  refine carries_own (fun key hkey => ?_) issued
  rw [leaseAt_view, if_pos hkey]

omit [Sha2] in
/-- A row that is written with a token of its own. -/
theorem carries_insert {row : AttemptRow} {claims : List LeaseToken} {completed : List LeaseToken} {token : LeaseToken}
    {untilMs : ℕ} {receipt : LeaseToken} (hfresh : token ∉ w.issued.keys) (hlease : row.lease = some (untilMs, token)) :
    Carries w txn { txn.write {key} ((txn.view w.committed).insert key row) with claims, completed }
      (w.issued.insert token ⟨receipt, key, untilMs⟩) := by
  intro other hother until' token' hfound
  change leaseAt ((txn.view w.committed).insert key row) other = _ at hfound
  rw [leaseAt_insert] at hfound
  split at hfound
  · rename_i heq
    rw [hlease] at hfound
    cases hfound
    exact Or.inr ⟨hfresh, receipt, by rw [Finmap.lookup_insert, heq]⟩
  · exact Or.inl hfound

/-- An admission takes no token back. -/
theorem Advances.extends {maximum : ℕ} {subject : AttemptSubject} {phase phase' : AdmitPhase}
    {issued : Table LeaseToken Reservation} (h : Advances w i nowMs maximum subject txn phase txn' phase' issued) :
    Extends w.issued issued := by
  cases h with
  | inserted hfresh hfree hinsertable => exact extends_insert hfresh _
  | updated hrow hfresh hfree hstorable => exact extends_insert hfresh _
  | _ => exact Extends.refl _

/-- An admission writes no lease but that of its own fresh token. -/
theorem Advances.carries {maximum : ℕ} {subject : AttemptSubject} {phase phase' : AdmitPhase}
    {issued : Table LeaseToken Reservation} (h : Advances w i nowMs maximum subject txn phase txn' phase' issued) :
    Carries w txn txn' issued := by
  cases h with
  | @cleaned scan rows hrows =>
    intro key hkey untilMs token hlease
    left
    obtain ⟨row, hrow, hsome⟩ := leaseAt_eq_some.1 hlease
    change rows.lookup key = some row at hrow
    rw [hrows] at hrow
    split at hrow
    · cases hrow
    · exact leaseAt_eq_some.2 ⟨row, hrow, hsome⟩
  | found hrow hfree => exact carries_own (fun key hkey => rfl) _
  | inserted hfresh hfree hinsertable => exact carries_insert hfresh rfl
  | updated hrow hfresh hfree hstorable => exact carries_insert hfresh rfl
  | _ => exact carries_same txn _

/-- An admission makes no claims, and completes nothing. -/
theorem Advances.claims {maximum : ℕ} {subject : AttemptSubject} {phase phase' : AdmitPhase}
    {issued : Table LeaseToken Reservation} (h : Advances w i nowMs maximum subject txn phase txn' phase' issued) :
    txn'.claims = txn.claims ∧ txn'.completed = txn.completed := by
  cases h with
  | _ => exact ⟨rfl, rfl⟩

/-- What an admission issues its token for. -/
theorem Advances.reserved {maximum : ℕ} {subject : AttemptSubject} {phase : AdmitPhase} {token : LeaseToken}
    {issued : Table LeaseToken Reservation}
    (h : Advances w i nowMs maximum subject txn phase txn' (.reserved token) issued) :
    ∃ untilMs, issued = w.issued.insert token ⟨token, subject.key, untilMs⟩ ∧ token ∉ w.issued.keys ∧
      subject.key ∈ txn'.locked ∧ leaseAt txn'.own subject.key = some (untilMs, token) ∧
      ∀ key, key ≠ subject.key → leaseAt txn'.own key = leaseAt (txn.view w.committed) key := by
  have hwritten : ∀ {row : AttemptRow}, subject.key ∈
      (txn.write {subject.key} ((txn.view w.committed).insert subject.key row)).locked ∧
      leaseAt ((txn.view w.committed).insert subject.key row) subject.key = row.lease ∧
      ∀ key, key ≠ subject.key →
        leaseAt ((txn.view w.committed).insert subject.key row) key = leaseAt (txn.view w.committed) key := by
    intro row
    refine ⟨Txn.mem_write.2 (Or.inr (Finset.mem_singleton_self _)), ?_, fun key hkey => ?_⟩
    · rw [leaseAt_insert, if_pos rfl]
    · rw [leaseAt_insert, if_neg hkey]
  generalize hphase : AdmitPhase.reserved token = phase' at h
  cases h with
  | inserted hfresh hfree hinsertable =>
    cases hphase
    exact ⟨_, rfl, hfresh, hwritten.1, hwritten.2.1, hwritten.2.2⟩
  | updated hrow hfresh hfree hstorable =>
    cases hphase
    exact ⟨_, rfl, hfresh, hwritten.1, hwritten.2.1, hwritten.2.2⟩
  | judged row =>
    unfold PgAttempts.judged at hphase
    split at hphase
    · cases hphase
    · cases hphase
    · cases hphase
  | _ => cases hphase

/-- A host transaction takes no token back. -/
theorem Serves.extends {outcome : Outcome} (h : Serves w i nowMs txn outcome) : Extends w.issued outcome.issued := by
  cases h with
  | claimed hticket hrow hfree hfresh hlease hlive => exact extends_insert hfresh _
  | _ => exact Extends.refl _

/-- A host transaction writes no lease but that of its own fresh claim. -/
theorem Serves.carries {outcome : Outcome} (h : Serves w i nowMs txn outcome) :
    Carries w txn outcome.txn outcome.issued := by
  cases h with
  | claimed hticket hrow hfree hfresh hlease hlive => exact carries_insert hfresh rfl
  | missed hshown hticket hnone => exact carries_same txn _
  | stale hshown hticket hrow hfree => exact carries_own (fun key hkey => rfl) _
  | completed hticket hrow hfree hcompletes =>
    intro key hkey untilMs token hlease
    left
    change leaseAt ((txn.view w.committed).insert _ _) key = _ at hlease
    rw [leaseAt_insert] at hlease
    split at hlease
    · -- a completion leaves no lease
      rw [(completeRow_ok hcompletes).2.1] at hlease
      cases hlease
    · exact hlease

/-- The tickets after a statement: old ones, or that of its claim. -/
theorem Serves.tickets {outcome : Outcome} (h : Serves w i nowMs txn outcome) {token : LeaseToken}
    {ticket : PgAttemptTicket} (hticket : outcome.tickets.lookup token = some ticket) :
    w.tickets.lookup token = some ticket ∨
      token ∉ w.issued.keys ∧ token ∈ outcome.txn.claims ∧ ticket.inner.token = token ∧ ticket.fence = some i ∧
        ∃ reservation, outcome.issued.lookup token = some reservation ∧ reservation.key = ticket.inner.key := by
  have herase : ∀ {presented : LeaseToken}, (w.tickets.erase presented).lookup token = some ticket →
      w.tickets.lookup token = some ticket := by
    intro presented hold
    rw [Finmap.lookup_erase_if] at hold
    split at hold
    · cases hold
    · exact hold
  cases h with
  | claimed hpresented hrow hfree hfresh hlease hlive =>
    rw [Finmap.lookup_insert_if] at hticket
    split at hticket
    · rename_i heq
      subst heq
      cases hticket
      exact Or.inr ⟨hfresh, List.mem_cons_self, rfl, rfl, _, Finmap.lookup_insert _, rfl⟩
    · exact Or.inl (herase hticket)
  | missed hshown hpresented hnone => exact Or.inl (herase hticket)
  | stale hshown hpresented hrow hfree => exact Or.inl (herase hticket)
  | completed hpresented hrow hfree hcompletes => exact Or.inl (herase hticket)

/-! ## What a transaction knows -/

/-- What a state of the transaction `i` has of tokens. -/
structure Knows (w : World) (i : ℕ) (saved : Txn) : Prop where
  leased : ∀ key ∈ saved.locked, LeasedAt w.issued saved.own key
  distinct : saved.claims.Nodup
  /-- The token of a claim stands in the version that the claim has made. -/
  claims : ∀ token ∈ saved.claims, ∃ reservation, w.issued.lookup token = some reservation ∧
    reservation.receipt ≠ token ∧ reservation.key ∈ saved.locked ∧
    leaseAt saved.own reservation.key = some (reservation.untilMs, token)
  mine : ∀ token ∈ saved.claims, ∀ claim, w.tickets.lookup token = some (.claim claim) → claim.transactionId = i
  /-- While the transaction of a claim is open, its token stands nowhere else. -/
  known : ∀ token claim, w.tickets.lookup token = some (.claim claim) → claim.transactionId ∈ w.sessions.keys →
    ∀ key ∈ saved.locked, ∀ untilMs, leaseAt saved.own key = some (untilMs, token) →
      claim.transactionId = i ∧ token ∈ saved.claims

/-- What every interleaving keeps of the tokens. -/
structure Tokened (w : World) : Prop where
  allotted : Allotted w
  leased : ∀ key, LeasedAt w.issued w.committed key
  origins : ∀ token reservation, w.issued.lookup token = some reservation →
    w.issued.lookup reservation.receipt = some reservation
  tickets : ∀ token ticket, w.tickets.lookup token = some ticket → ticket.inner.token = token ∧
    ∃ reservation, w.issued.lookup token = some reservation ∧ reservation.key = ticket.inner.key ∧
      (ticket.fence = none → reservation.receipt = token)
  claims : ∀ token claim, w.tickets.lookup token = some (.claim claim) → claim.transactionId ∈ w.started ∧
    (claim.transactionId ∈ w.sessions.keys → ∀ key untilMs, leaseAt w.committed key ≠ some (untilMs, token))
  /-- An admission makes no claims, and has issued its own token for its key. -/
  admissions : ∀ i session maximum subject phase, w.sessions.lookup i = some session →
    session.program = .admission maximum subject phase → session.txn.claims = [] ∧ session.txn.completed = [] ∧
      ∀ token, phase = .reserved token → ∃ untilMs, w.issued.lookup token = some ⟨token, subject.key, untilMs⟩ ∧
        subject.key ∈ session.txn.locked ∧ leaseAt session.txn.own subject.key = some (untilMs, token)
  sessions : ∀ i session, w.sessions.lookup i = some session → ∀ saved ∈ session.states, Knows w i saved

/-- What a move does to the tokens that other transactions have. -/
structure Later (w w' : World) : Prop where
  issued : Extends w.issued w'.issued
  tickets : ∀ token claim, w'.tickets.lookup token = some (.claim claim) →
    w.tickets.lookup token = some (.claim claim) ∨ token ∉ w.issued.keys
  sessions : ∀ token claim, w.tickets.lookup token = some (.claim claim) →
    claim.transactionId ∈ w'.sessions.keys → claim.transactionId ∈ w.sessions.keys

omit [Sha2] in
/-- **What a transaction knows stays true.** -/
theorem Knows.later (h : Knows w i saved) (hlater : Later w w') : Knows w' i saved := by
  refine ⟨fun key hkey => (h.leased key hkey).mono hlater.issued, h.distinct, ?_, ?_, ?_⟩
  · intro token htoken
    obtain ⟨reservation, hissued, hne, hkey, hlease⟩ := h.claims token htoken
    exact ⟨reservation, hlater.issued _ _ hissued, hne, hkey, hlease⟩
  · intro token htoken claim hticket
    obtain ⟨reservation, hissued, -⟩ := h.claims token htoken
    rcases hlater.tickets token claim hticket with hold | hfresh
    · exact h.mine token htoken claim hold
    · exact absurd (Finmap.mem_keys_iff.2 ⟨_, hissued⟩) hfresh
  · intro token claim hticket hopen key hkey untilMs hlease
    obtain ⟨receipt, hissued⟩ := h.leased key hkey untilMs token hlease
    rcases hlater.tickets token claim hticket with hold | hfresh
    · exact h.known token claim hold (hlater.sessions token claim hold hopen) key hkey untilMs hlease
    · exact absurd (Finmap.mem_keys_iff.2 ⟨_, hissued⟩) hfresh

/-- The leases a transaction sees are under tokens that were issued. -/
theorem Tokened.leased_view (hw : Tokened w) (h : Knows w i saved) (key : AttemptKey) :
    LeasedAt w.issued (saved.view w.committed) key := by
  have hview := leaseAt_view saved w.committed key
  by_cases hkey : key ∈ saved.locked
  · rw [if_pos hkey] at hview
    exact (h.leased key hkey).congr hview
  · rw [if_neg hkey] at hview
    exact (hw.leased key).congr hview

/-- A transaction that sees the token of an open claim has made the claim. -/
theorem Tokened.known_view (hw : Tokened w) (h : Knows w i saved) {token : LeaseToken} {claim : PgAttemptClaim}
    (hticket : w.tickets.lookup token = some (.claim claim)) (hopen : claim.transactionId ∈ w.sessions.keys)
    {untilMs : ℕ} (hlease : leaseAt (saved.view w.committed) key = some (untilMs, token)) :
    claim.transactionId = i ∧ token ∈ saved.claims := by
  rw [leaseAt_view] at hlease
  split at hlease
  · rename_i hkey
    exact h.known token claim hticket hopen key hkey untilMs hlease
  · exact absurd hlease ((hw.claims token claim hticket).2 hopen key untilMs)

/-- What a statement leaves is known, if it keeps the claims whose tokens it leaves. -/
theorem Tokened.carried (hw : Tokened w) (h : Knows w i txn) (hlater : Later w w')
    (hcarries : Carries w txn txn' w'.issued)
    (hkept : ∀ token ∈ txn.claims, ∀ key ∈ txn'.locked, ∀ untilMs, leaseAt txn'.own key = some (untilMs, token) →
      token ∈ txn'.claims)
    (hnew : ∀ token claim, w'.tickets.lookup token = some (.claim claim) → token ∉ w.issued.keys →
      claim.transactionId = i ∧ token ∈ txn'.claims) :
    (∀ key ∈ txn'.locked, LeasedAt w'.issued txn'.own key) ∧
      ∀ token claim, w'.tickets.lookup token = some (.claim claim) → claim.transactionId ∈ w'.sessions.keys →
        ∀ key ∈ txn'.locked, ∀ untilMs, leaseAt txn'.own key = some (untilMs, token) →
          claim.transactionId = i ∧ token ∈ txn'.claims := by
  constructor
  · intro key hkey untilMs token hlease
    rcases hcarries key hkey untilMs token hlease with hseen | ⟨-, hissued⟩
    · obtain ⟨receipt, hissued⟩ := hw.leased_view h key untilMs token hseen
      exact ⟨receipt, hlater.issued _ _ hissued⟩
    · exact hissued
  · intro token claim hticket hopen key hkey untilMs hlease
    rcases hlater.tickets token claim hticket with hold | hfresh
    · obtain ⟨-, reservation, hissued, -⟩ := hw.tickets token _ hold
      rcases hcarries key hkey untilMs token hlease with hseen | ⟨hfresh, -⟩
      · obtain ⟨hmine, htoken⟩ := hw.known_view h hold (hlater.sessions token claim hold hopen) hseen
        exact ⟨hmine, hkept token htoken key hkey untilMs hlease⟩
      · exact absurd (Finmap.mem_keys_iff.2 ⟨_, hissued⟩) hfresh
    · exact hnew token claim hticket hfresh

/-- A claim puts its token in the row; a completion takes it out, and its claim is finished. -/
theorem Tokened.served (hw : Tokened w) (h : Knows w i txn) {outcome : Outcome} (hserves : Serves w i nowMs txn outcome)
    (hlater : Later w w') (hissued : w'.issued = outcome.issued) (htickets : w'.tickets = outcome.tickets) :
    Knows w' i outcome.txn := by
  have hcarried := hw.carried h hlater (hissued ▸ hserves.carries)
  have hclaimed : ∀ token ∈ txn.claims, token ∈ w.issued.keys := by
    intro token htoken
    obtain ⟨reservation, hlookup, -⟩ := h.claims token htoken
    exact Finmap.mem_keys_iff.2 ⟨reservation, hlookup⟩
  have hnew : ∀ token claim, w'.tickets.lookup token = some (.claim claim) → token ∉ w.issued.keys →
      claim.transactionId = i ∧ token ∈ outcome.txn.claims := by
    intro token claim hticket hfresh
    rw [htickets] at hticket
    rcases hserves.tickets hticket with hold | ⟨-, htoken, -, hfence, -⟩
    · obtain ⟨-, reservation, hlookup, -⟩ := hw.tickets token _ hold
      exact absurd (Finmap.mem_keys_iff.2 ⟨reservation, hlookup⟩) hfresh
    · exact ⟨Option.some.inj hfence, htoken⟩
  have hmine : ∀ token ∈ outcome.txn.claims, (token ∈ w.issued.keys → token ∈ txn.claims) → ∀ claim,
      w'.tickets.lookup token = some (.claim claim) → claim.transactionId = i := by
    intro token htoken hold claim hticket
    rw [htickets] at hticket
    rcases hserves.tickets hticket with hkept | ⟨-, -, -, hfence, -⟩
    · obtain ⟨-, reservation, hlookup, -⟩ := hw.tickets token _ hkept
      exact h.mine token (hold (Finmap.mem_keys_iff.2 ⟨reservation, hlookup⟩)) claim hkept
    · exact Option.some.inj hfence
  cases hserves with
  | @claimed presented token receipt row untilMs hticket hrow hfree hfresh hlease hlive =>
    obtain ⟨hleased, hknown⟩ := hcarried (fun old hold _ _ _ _ => List.mem_cons_of_mem _ hold) hnew
    obtain ⟨hpresented, reservation, hlookup, hkey, horigin⟩ := hw.tickets presented _ hticket
    have hsame : receipt.token = presented := hpresented
    have hnot : token ∉ txn.claims := fun htoken => hfresh (hclaimed token htoken)
    refine ⟨hleased, List.nodup_cons.2 ⟨hnot, h.distinct⟩, ?_, fun other hother => hmine other hother ?_, hknown⟩
    · intro other hother
      rcases List.mem_cons.1 hother with rfl | hold
      · refine ⟨_, (congrArg _ hissued).trans (Finmap.lookup_insert _), ?_, ?_, ?_⟩
        · -- the receipt was issued before
          rw [receiptOf_eq hlookup]
          intro heq
          exact hfresh (Finmap.mem_keys_iff.2 ⟨reservation, heq ▸ hw.origins presented reservation hlookup⟩)
        · exact Finset.mem_union.2 (Or.inr (Finset.mem_singleton_self _))
        · exact (leaseAt_insert _ _).trans (if_pos rfl)
      · obtain ⟨held, hheld, hne, hlocked, hstands⟩ := h.claims other hold
        refine ⟨held, hlater.issued _ _ hheld, hne, Finset.mem_union.2 (Or.inl hlocked), ?_⟩
        change leaseAt ((txn.view w.committed).insert _ _) held.key = _
        have hseen : leaseAt (txn.view w.committed) held.key = some (held.untilMs, other) := by
          rw [leaseAt_view, if_pos hlocked, hstands]
        rw [leaseAt_insert, hseen, if_neg]
        intro heq
        -- the row of the receipt carries the token of the receipt, and not that of a claim
        have htoken : other = presented := by
          rw [heq, leaseAt_of_lookup hrow, hlease, hsame] at hseen
          cases hseen
          rfl
        rw [htoken, hlookup] at hheld
        cases hheld
        exact hne ((horigin rfl).trans htoken.symm)
    · intro hkeys
      rcases List.mem_cons.1 hother with rfl | hold
      · exact absurd hkeys hfresh
      · exact hold
  | missed hshown hticket hnone =>
    obtain ⟨hleased, hknown⟩ := hcarried (fun old hold _ _ _ _ => hold) hnew
    refine ⟨hleased, h.distinct, ?_, fun other hother => hmine other hother fun _ => hother, hknown⟩
    exact (h.later hlater).claims
  | @stale presented ticket shown row hshown hticket hrow hfree =>
    obtain ⟨hleased, hknown⟩ := hcarried (fun old hold _ _ _ _ => hold) hnew
    refine ⟨hleased, h.distinct, ?_, fun other hother => hmine other hother fun _ => hother, hknown⟩
    intro other hother
    obtain ⟨held, hheld, hne, hlocked, hstands⟩ := h.claims other hother
    refine ⟨held, hlater.issued _ _ hheld, hne, Txn.mem_lock.2 (Or.inr hlocked), ?_⟩
    change leaseAt (txn.view w.committed) held.key = _
    rw [leaseAt_view, if_pos hlocked, hstands]
  | @completed presented ticket result row completed columns hticket hrow hfree hcompletes =>
    obtain ⟨untilMs, hlease, -⟩ := completes_iff.1 (completeRow_ok hcompletes).1
    have hseen : leaseAt (txn.view w.committed) ticket.inner.key = some (untilMs, ticket.inner.token) := by
      rw [leaseAt_of_lookup hrow, hlease]
    have hleft : ∀ key, leaseAt ((txn.view w.committed).insert ticket.inner.key completed) key =
        if key = ticket.inner.key then none else leaseAt (txn.view w.committed) key := by
      intro key
      rw [leaseAt_insert, (completeRow_ok hcompletes).2.1]
      rfl
    have hother : ∀ {other key until'}, other ≠ ticket.inner.token →
        leaseAt (txn.view w.committed) key = some (until', other) → key ≠ ticket.inner.key := by
      rintro other key until' hne hstands rfl
      rw [hseen] at hstands
      cases hstands
      exact hne rfl
    obtain ⟨hleased, hknown⟩ := hcarried (by
      intro old hold key hkey until' hstands
      change leaseAt ((txn.view w.committed).insert _ _) key = _ at hstands
      rw [hleft] at hstands
      refine (List.mem_erase_of_ne ?_).2 hold
      rintro rfl
      split at hstands
      · cases hstands
      · -- a token stands for one key
        rename_i hne
        obtain ⟨one, hone⟩ := hw.leased_view h key until' _ hstands
        obtain ⟨two, htwo⟩ := hw.leased_view h ticket.inner.key untilMs _ hseen
        rw [hone] at htwo
        cases htwo
        exact hne rfl) hnew
    refine ⟨hleased, h.distinct.erase _, ?_, fun other hother => hmine other hother fun _ => List.mem_of_mem_erase hother,
      hknown⟩
    intro other hfinished
    have hne : other ≠ ticket.inner.token := by
      rintro rfl
      exact h.distinct.not_mem_erase hfinished
    obtain ⟨held, hheld, horigin, hlocked, hstands⟩ := h.claims other (List.mem_of_mem_erase hfinished)
    have hview : leaseAt (txn.view w.committed) held.key = some (held.untilMs, other) := by
      rw [leaseAt_view, if_pos hlocked, hstands]
    refine ⟨held, hlater.issued _ _ hheld, horigin, Finset.mem_union.2 (Or.inl hlocked), ?_⟩
    change leaseAt ((txn.view w.committed).insert _ _) held.key = _
    rw [hleft, if_neg (hother hne hview), hview]

/-! ## Along a run -/

/-- A claim hands the reservation on to its token. -/
theorem Tokened.origins_served (hw : Tokened w) (h : Knows w i txn) {outcome : Outcome}
    (hserves : Serves w i nowMs txn outcome) (token : LeaseToken) (reservation : Reservation)
    (hissued : outcome.issued.lookup token = some reservation) :
    outcome.issued.lookup reservation.receipt = some reservation := by
  have hextends := hserves.extends
  cases hserves with
  | @claimed presented fresh receipt row untilMs hticket hrow hfree hfresh hlease hlive =>
    rw [Finmap.lookup_insert_if] at hissued
    split at hissued
    · cases hissued
      obtain ⟨hpresented, -⟩ := hw.tickets presented _ hticket
      have hsame : receipt.token = presented := hpresented
      have hseen : leaseAt (txn.view w.committed) receipt.key = some (untilMs, presented) := by
        rw [leaseAt_of_lookup hrow, hlease, hsame]
      obtain ⟨origin, hlookup⟩ := hw.leased_view h receipt.key untilMs presented hseen
      obtain rfl : origin = w.receiptOf presented := (receiptOf_eq hlookup).symm
      exact hextends _ _ (hw.origins presented _ hlookup)
    · exact hextends _ _ (hw.origins token _ hissued)
  | missed hshown hticket hnone => exact hw.origins token _ hissued
  | stale hshown hticket hrow hfree => exact hw.origins token _ hissued
  | completed hticket hrow hfree hcompletes => exact hw.origins token _ hissued

/-- The token of an admission is its own receipt. -/
theorem Tokened.origins_advanced (hw : Tokened w) {maximum : ℕ} {subject : AttemptSubject} {phase phase' : AdmitPhase}
    {issued : Table LeaseToken Reservation} (h : Advances w i nowMs maximum subject txn phase txn' phase' issued)
    (token : LeaseToken) (reservation : Reservation) (hissued : issued.lookup token = some reservation) :
    issued.lookup reservation.receipt = some reservation := by
  have hextends := h.extends
  have hown : ∀ {fresh : LeaseToken} {sampledMs : ℕ}, Extends w.issued
      (w.issued.insert fresh (PgAttempts.reservation subject sampledMs fresh)) →
      (w.issued.insert fresh (PgAttempts.reservation subject sampledMs fresh)).lookup token = some reservation →
      (w.issued.insert fresh (PgAttempts.reservation subject sampledMs fresh)).lookup reservation.receipt =
        some reservation := by
    intro fresh sampledMs hextends hissued
    have hcases := hissued
    rw [Finmap.lookup_insert_if] at hcases
    split at hcases
    · cases hcases
      exact Finmap.lookup_insert _
    · exact hextends _ _ (hw.origins token _ hcases)
  cases h with
  | inserted hfresh hfree hinsertable => exact hown hextends hissued
  | updated hrow hfresh hfree hstorable => exact hown hextends hissued
  | _ => exact hw.origins token _ hissued

/-- A statement keeps the tokens. -/
theorem Tokened.ran (hw : Tokened w) {shown : Shown} (hsession : w.sessions.lookup i = some session)
    (h : Executes w i nowMs session shown w') (hallotted : Allotted w') : Tokened w' := by
  have hmem : i ∈ w.sessions.keys := Finmap.mem_keys_iff.2 ⟨session, hsession⟩
  have hknows := hw.sessions i session hsession
  -- what one session does, as far as the tokens of the others are concerned
  have hkept : ∀ {program outcome}, w' = w.ran i nowMs program outcome → Extends w.issued outcome.issued →
      (∀ token reservation, outcome.issued.lookup token = some reservation →
        outcome.issued.lookup reservation.receipt = some reservation) →
      (∀ token ticket, outcome.tickets.lookup token = some ticket → w.tickets.lookup token = some ticket ∨
        token ∉ w.issued.keys ∧ ticket.inner.token = token ∧ ticket.fence = some i ∧
          ∃ reservation, outcome.issued.lookup token = some reservation ∧ reservation.key = ticket.inner.key) →
      (Later w w' → ∀ saved ∈ (⟨outcome.txn, program⟩ : Session).states, Knows w' i saved) →
      (∀ maximum subject phase, program = .admission maximum subject phase →
        outcome.txn.claims = [] ∧ outcome.txn.completed = [] ∧ ∀ token, phase = .reserved token →
          ∃ untilMs, outcome.issued.lookup token = some ⟨token, subject.key, untilMs⟩ ∧
            subject.key ∈ outcome.txn.locked ∧ leaseAt outcome.txn.own subject.key = some (untilMs, token)) →
      Tokened w' := by
    rintro program outcome rfl hextends horigins htickets hstates hadmission
    have hkeys : (w.ran i nowMs program outcome).sessions.keys = w.sessions.keys := by
      change (w.sessions.insert i _).keys = _
      rw [Finmap.keys_insert, Finset.insert_eq_of_mem hmem]
    -- nothing that was issued is taken back, and the same sessions are open
    have hlater : Later w (w.ran i nowMs program outcome) := by
      refine ⟨hextends, fun token claim hticket => ?_, fun token claim _ hopen => hkeys ▸ hopen⟩
      exact (htickets token _ hticket).imp_right And.left
    refine ⟨hallotted, fun key => (hw.leased key).mono hextends, horigins, ?_, ?_, ?_, ?_⟩
    · intro token ticket hticket
      rcases htickets token ticket hticket with hold | ⟨-, htoken, hfence, reservation, hissued, hkey⟩
      · obtain ⟨htoken, reservation, hissued, hkey, horigin⟩ := hw.tickets token ticket hold
        exact ⟨htoken, reservation, hextends _ _ hissued, hkey, horigin⟩
      · refine ⟨htoken, reservation, hissued, hkey, fun hnone => ?_⟩
        rw [hfence] at hnone
        cases hnone
    · intro token claim hticket
      rcases htickets token _ hticket with hold | ⟨hfresh, -, hfence, -⟩
      · obtain ⟨hstarted, hcommitted⟩ := hw.claims token claim hold
        exact ⟨hstarted, fun hopen => hcommitted (hkeys ▸ hopen)⟩
      · refine ⟨?_, fun _ key untilMs hlease => ?_⟩
        · rw [Option.some.inj hfence]
          exact hw.allotted.locked.started i hmem
        · obtain ⟨receipt, hissued⟩ := hw.leased key untilMs token hlease
          exact hfresh (Finmap.mem_keys_iff.2 ⟨_, hissued⟩)
    · intro j other maximum subject phase hother hprogram
      rcases lookup_insert_cases hother with ⟨rfl, rfl⟩ | ⟨hj, hother⟩
      · exact hadmission maximum subject phase hprogram
      · obtain ⟨hclaims, hcompleted, hreserved⟩ := hw.admissions j other maximum subject phase hother hprogram
        refine ⟨hclaims, hcompleted, fun token hphase => ?_⟩
        obtain ⟨untilMs, hissued, hstands⟩ := hreserved token hphase
        exact ⟨untilMs, hextends _ _ hissued, hstands⟩
    · intro j other hother saved hsaved
      rcases lookup_insert_cases hother with ⟨rfl, rfl⟩ | ⟨hj, hother⟩
      · exact hstates hlater saved hsaved
      · exact (hw.sessions j other hother saved hsaved).later hlater
  -- savepoints move between states that the session has had
  have hsame : ∀ {program txn}, w' = w.ran i nowMs program ⟨.quiet, txn, w.tickets, w.issued⟩ →
      (∀ saved ∈ (⟨txn, program⟩ : Session).states, saved ∈ session.states) →
      (∀ maximum subject phase, program ≠ .admission maximum subject phase) → Tokened w' := by
    intro program txn hran hstates hprogram
    refine hkept hran (Extends.refl _) hw.origins (fun _ _ hticket => Or.inl hticket) ?_
      fun maximum subject phase hsame => absurd hsame (hprogram maximum subject phase)
    exact fun hlater saved hsaved => (hknows saved (hstates saved hsaved)).later hlater
  cases h with
  | @advanced maximum subject phase phase' txn' issued hprogram hadvances =>
    obtain ⟨hclaims, hcompleted, -⟩ := hw.admissions i session maximum subject phase hsession hprogram
    obtain ⟨hclaims', hcompleted'⟩ := hadvances.claims
    have hself : Knows w i session.txn := hknows _ session.txn_mem_states
    refine hkept rfl hadvances.extends (hw.origins_advanced hadvances) (fun _ _ hticket => Or.inl hticket) ?_ ?_
    · intro hlater saved hsaved
      rw [show saved = txn' from List.mem_singleton.1 hsaved]
      obtain ⟨hleased, hknown⟩ := hw.carried hself hlater hadvances.carries
        (fun token htoken => by rw [hclaims] at htoken; cases htoken) (by
          intro token claim hticket hfresh
          obtain ⟨-, reservation, hissued, -⟩ := hw.tickets token _ hticket
          exact absurd (Finmap.mem_keys_iff.2 ⟨_, hissued⟩) hfresh)
      -- an admission claims nothing
      have hnone : txn'.claims = [] := hclaims'.trans hclaims
      refine ⟨hleased, ?_, ?_, ?_, hknown⟩
      · rw [hnone]
        exact List.nodup_nil
      · intro token htoken
        rw [hnone] at htoken
        cases htoken
      · intro token htoken
        rw [hnone] at htoken
        cases htoken
    · intro maximum' subject' phase'' hsame'
      cases hsame'
      refine ⟨hclaims'.trans hclaims, hcompleted'.trans hcompleted, ?_⟩
      rintro token rfl
      obtain ⟨untilMs, hissued, -, hlocked, hlease, -⟩ := hadvances.reserved
      exact ⟨untilMs, hissued ▸ Finmap.lookup_insert _, hlocked, hlease⟩
  | @served savepoints outcome hprogram hserves =>
    rw [Session.states_host hprogram] at hknows
    have hself : Knows w i session.txn := hknows _ List.mem_cons_self
    refine hkept rfl hserves.extends (hw.origins_served hself hserves) ?_ ?_ nofun
    · intro token ticket hticket
      exact (hserves.tickets hticket).imp_right fun hnew => ⟨hnew.1, hnew.2.2⟩
    · intro hlater saved hsaved
      rcases List.mem_cons.1 hsaved with rfl | hmem
      · -- the state after the statement, and then those of the savepoints
        exact hw.served hself hserves hlater rfl rfl
      · exact (hknows saved (List.mem_cons_of_mem _ hmem)).later hlater
  | @saved savepoints hprogram =>
    refine hsame rfl (fun state hstate => ?_) nofun
    rw [Session.states_host hprogram]
    rcases List.mem_cons.1 hstate with rfl | hmem
    · exact List.mem_cons_self
    · exact hmem
  | @restored savepoints depth saved hprogram hsaved =>
    refine hsame rfl (fun state hstate => ?_) nofun
    rw [Session.states_host hprogram]
    rcases List.mem_cons.1 hstate with rfl | hmem
    · exact List.mem_cons_of_mem _ (List.mem_of_getElem? hsaved)
    · exact List.mem_cons_of_mem _ (List.mem_of_mem_drop hmem)
  | @released savepoints depth hprogram =>
    refine hsame rfl (fun state hstate => ?_) nofun
    rw [Session.states_host hprogram]
    rcases List.mem_cons.1 hstate with rfl | hmem
    · exact List.mem_cons_self
    · exact List.mem_cons_of_mem _ (List.mem_of_mem_drop hmem)

/-- A commit keeps the tokens. -/
theorem Tokened.committed (hw : Tokened w) (hsession : w.sessions.lookup i = some session) (hallotted : Allotted w')
    (hcommitted : w'.committed = session.txn.view w.committed) (hsessions : w'.sessions = w.sessions.erase i)
    (hissued : w'.issued = w.issued) (hstarted : w'.started = w.started)
    (htickets : ∀ token ticket, w'.tickets.lookup token = some ticket → w.tickets.lookup token = some ticket ∨
      ticket.fence = none ∧ ticket.inner.token = token ∧
        ∃ reservation, w.issued.lookup token = some reservation ∧ reservation.key = ticket.inner.key ∧
          reservation.receipt = token) : Tokened w' := by
  have hself : Knows w i session.txn := hw.sessions i session hsession _ session.txn_mem_states
  have hclaim : ∀ token claim, w'.tickets.lookup token = some (.claim claim) →
      w.tickets.lookup token = some (.claim claim) := by
    intro token claim hticket
    rcases htickets token _ hticket with hold | ⟨hnone, -⟩
    · exact hold
    · cases hnone
  -- only this session is closed
  have hopen : ∀ {id}, id ∈ w'.sessions.keys → id ≠ i ∧ id ∈ w.sessions.keys := by
    intro id hid
    obtain ⟨other, hother⟩ := Finmap.mem_keys_iff.1 (hsessions ▸ hid)
    exact ⟨(lookup_erase_cases hother).1, Finmap.mem_keys_iff.2 ⟨other, (lookup_erase_cases hother).2⟩⟩
  have hlater : Later w w' :=
    ⟨hissued ▸ Extends.refl _, fun token claim hticket => Or.inl (hclaim token claim hticket),
      fun _ _ _ hid => (hopen hid).2⟩
  refine ⟨hallotted, ?_, hissued ▸ hw.origins, ?_, ?_, ?_, ?_⟩
  · intro key
    rw [hissued, hcommitted]
    exact hw.leased_view hself key
  · intro token ticket hticket
    rw [hissued]
    rcases htickets token ticket hticket with hold | ⟨-, htoken, reservation, hlookup, hkey, horigin⟩
    · exact hw.tickets token ticket hold
    · exact ⟨htoken, reservation, hlookup, hkey, fun _ => horigin⟩
  · intro token claim hticket
    have hold := hclaim token claim hticket
    refine ⟨hstarted ▸ (hw.claims token claim hold).1, fun hid key untilMs hlease => ?_⟩
    rw [hcommitted] at hlease
    -- a claim of an open session is not committed
    exact (hopen hid).1 (hw.known_view hself hold (hopen hid).2 hlease).1
  · intro j other maximum subject phase hother hprogram
    rw [hsessions] at hother
    rw [hissued]
    exact hw.admissions j other maximum subject phase (lookup_erase_cases hother).2 hprogram
  · intro j other hother saved hsaved
    rw [hsessions] at hother
    exact (hw.sessions j other (lookup_erase_cases hother).2 saved hsaved).later hlater

omit [Sha2] in
/-- A new transaction knows nothing. -/
theorem knows_new (w : World) (i : ℕ) : Knows w i .new :=
  ⟨nofun, List.nodup_nil, nofun, nofun, fun _ _ _ _ _ hkey => absurd hkey (Finset.notMem_empty _)⟩

/-- **A move keeps the tokens.** -/
theorem Tokened.acts {move : Move} {shown : Shown} (hw : Tokened w) (h : Acts w move shown w') : Tokened w' := by
  have hallotted := hw.allotted.acts h
  cases h with
  | @began i what hnew =>
    -- no claim is of a transaction that has not started
    have hopen : ∀ token claim, w.tickets.lookup token = some (.claim claim) →
        claim.transactionId ∈ (w.sessions.insert i ⟨.new, program what⟩).keys → claim.transactionId ∈ w.sessions.keys := by
      intro token claim hticket hid
      rw [Finmap.keys_insert, Finset.mem_insert] at hid
      refine hid.resolve_left ?_
      rintro rfl
      exact hnew (hw.claims token claim hticket).1
    have hlater : Later w { w with
        sessions := w.sessions.insert i ⟨.new, program what⟩, started := insert i w.started } :=
      ⟨Extends.refl _, fun _ _ hticket => Or.inl hticket, hopen⟩
    refine ⟨hallotted, hw.leased, hw.origins, hw.tickets, ?_, ?_, ?_⟩
    · intro token claim hticket
      obtain ⟨hstarted, hcommitted⟩ := hw.claims token claim hticket
      exact ⟨Finset.mem_insert_of_mem hstarted, fun hid => hcommitted (hopen token claim hticket hid)⟩
    · intro j other maximum subject phase hother hprogram
      rcases lookup_insert_cases hother with ⟨rfl, rfl⟩ | ⟨hj, hother⟩
      · refine ⟨rfl, rfl, ?_⟩
        rintro token rfl
        cases what with
        | admission config subject => cases hprogram
        | host => cases hprogram
      · exact hw.admissions j other maximum subject phase hother hprogram
    · intro j other hother saved hsaved
      rcases lookup_insert_cases hother with ⟨rfl, rfl⟩ | ⟨hj, hother⟩
      · have hnewest : saved = .new := by
          cases what with
          | admission config subject => exact List.mem_singleton.1 hsaved
          | host => exact List.mem_singleton.1 hsaved
        rw [hnewest]
        exact knows_new _ _
      · exact (hw.sessions j other hother saved hsaved).later hlater
  | ran hsession hnow hmax hexecutes => exact hw.ran hsession hexecutes hallotted
  | @reserved i maximum session subject token hsession hprogram =>
    obtain ⟨-, -, hreserved⟩ := hw.admissions i session maximum subject _ hsession hprogram
    obtain ⟨untilMs, hissued, -⟩ := hreserved token rfl
    refine hw.committed hsession hallotted rfl rfl rfl rfl fun other ticket hticket => ?_
    change (w.tickets.insert token _).lookup other = some ticket at hticket
    rw [Finmap.lookup_insert_if] at hticket
    split at hticket
    · rename_i heq
      subst heq
      cases hticket
      exact Or.inr ⟨rfl, rfl, _, hissued, rfl, rfl⟩
    · exact Or.inl hticket
  | full hsession hprogram => exact hw.committed hsession hallotted rfl rfl rfl rfl fun _ _ => Or.inl
  | hosted hsession hprogram => exact hw.committed hsession hallotted rfl rfl rfl rfl fun _ _ => Or.inl
  | @rolledBack i session shown hsession hshown =>
    have hopen : ∀ {id}, id ∈ (w.sessions.erase i).keys → id ∈ w.sessions.keys := by
      intro id hid
      obtain ⟨other, hother⟩ := Finmap.mem_keys_iff.1 hid
      exact Finmap.mem_keys_iff.2 ⟨other, (lookup_erase_cases hother).2⟩
    have hlater : Later w { w with sessions := w.sessions.erase i } :=
      ⟨Extends.refl _, fun _ _ hticket => Or.inl hticket, fun _ _ _ => hopen⟩
    refine ⟨hallotted, hw.leased, hw.origins, hw.tickets, ?_, ?_, ?_⟩
    · exact fun token claim hticket => ⟨(hw.claims token claim hticket).1, fun hid =>
        (hw.claims token claim hticket).2 (hopen hid)⟩
    · exact fun j other maximum subject phase hother =>
        hw.admissions j other maximum subject phase (lookup_erase_cases hother).2
    · exact fun j other hother saved hsaved =>
        (hw.sessions j other (lookup_erase_cases hother).2 saved hsaved).later hlater

theorem tokened_start : Tokened World.start := by
  have hnone : ∀ {i : ℕ} {session : Session}, World.start.sessions.lookup i ≠ some session := by
    intro i session hsession
    rw [show World.start.sessions = ∅ from rfl, Finmap.lookup_empty] at hsession
    cases hsession
  have htickets : ∀ {token : LeaseToken} {ticket : PgAttemptTicket}, World.start.tickets.lookup token ≠ some ticket := by
    intro token ticket hticket
    rw [show World.start.tickets = ∅ from rfl, Finmap.lookup_empty] at hticket
    cases hticket
  refine ⟨allotted_start, ?_, ?_, fun _ _ hticket => absurd hticket htickets, fun _ _ hticket => absurd hticket htickets,
    fun _ _ _ _ _ hsession => absurd hsession hnone, fun _ _ hsession => absurd hsession hnone⟩
  · intro key untilMs token hlease
    obtain ⟨row, hrow, -⟩ := leaseAt_eq_some.1 hlease
    rw [show World.start.committed = ∅ from rfl, Finmap.lookup_empty] at hrow
    cases hrow
  · intro token reservation hissued
    rw [show World.start.issued = ∅ from rfl, Finmap.lookup_empty] at hissued
    cases hissued

end PgAttempts

end Runlimit
