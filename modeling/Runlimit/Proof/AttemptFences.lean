import Runlimit.Proof.AttemptTokens

/-!
# Claims and completions are fenced

A row holds a reservation from the commit of its admission on, under whatever token (`held`). A transaction that
completes it has the row to itself, so that no other can; and what the row held before, it no longer holds
(`Settles`). An admission that finds a lease in the row goes on only when the lease has run out (`Granted`), and then
holds the row until it commits, or is rolled back.
-/

namespace Runlimit

namespace PgAttempts

/-! ## What a row holds -/

section Held

variable {issued issued' : Table LeaseToken Reservation} {rows rows' : AttemptRows} {key : AttemptKey}
  {reservation : Reservation}

/-- The reservation that the row of a key holds. -/
def held (issued : Table LeaseToken Reservation) (rows : AttemptRows) (key : AttemptKey) : Option Reservation :=
  (leaseAt rows key).bind fun lease => issued.lookup lease.2

/-- What a row holds depends on its lease only. -/
theorem held_congr (h : leaseAt rows' key = leaseAt rows key) : held issued rows' key = held issued rows key := by
  unfold held
  rw [h]

/-- A leased row holds what its token was issued for. -/
theorem held_of_lookup {untilMs : ℕ} {token : LeaseToken} (h : leaseAt rows key = some (untilMs, token)) :
    held issued rows key = issued.lookup token := by
  unfold held
  rw [h, Option.bind_some]

theorem held_none (h : leaseAt rows key = none) : held issued rows key = none := by
  unfold held
  rw [h, Option.bind_none]

/-- A transaction sees its own writes in the rows that it holds. -/
theorem held_view (txn : Txn) (committed : AttemptRows) (key : AttemptKey) :
    held issued (txn.view committed) key =
      if key ∈ txn.locked then held issued txn.own key else held issued committed key := by
  have hview := leaseAt_view txn committed key
  split at hview
  · rename_i hkey
    rw [if_pos hkey, held_congr hview]
  · rename_i hkey
    rw [if_neg hkey, held_congr hview]

/-- A row holds a reservation of its own key, under the deadline and a token of it. -/
theorem LeasedAt.of_held (h : LeasedAt issued rows key) (hheld : held issued rows key = some reservation) :
    reservation.key = key ∧ ∃ token, leaseAt rows key = some (reservation.untilMs, token) ∧
      issued.lookup token = some reservation := by
  unfold held at hheld
  obtain ⟨⟨untilMs, token⟩, hlease, hissued⟩ := Option.bind_eq_some_iff.1 hheld
  obtain ⟨receipt, hlookup⟩ := h untilMs token hlease
  have hsame : issued.lookup token = some reservation := hissued
  rw [hlookup] at hsame
  cases hsame
  exact ⟨rfl, token, hlease, hlookup⟩

/-- Later tokens do not change what a row holds. -/
theorem LeasedAt.held_mono (h : LeasedAt issued rows key) (hextends : Extends issued issued') :
    held issued' rows key = held issued rows key := by
  unfold held
  cases hlease : leaseAt rows key with
  | none => rfl
  | some lease =>
    obtain ⟨untilMs, token⟩ := lease
    obtain ⟨receipt, hlookup⟩ := h untilMs token hlease
    rw [Option.bind_some, Option.bind_some, hlookup]
    exact hextends _ _ hlookup

end Held

/-! ## What a transaction changes -/

section Changes

variable {w w' : World} {saved txn : Txn} {committed : AttemptRows} {nowMs nowMs' : ℕ} {key : AttemptKey}

/-- A state of a host transaction: a row holds what it held, unless the transaction has completed it. -/
structure Settles (w : World) (saved : Txn) : Prop where
  held : ∀ key ∈ saved.locked, held w.issued saved.own key =
    (held w.issued w.committed key).filter fun reservation => reservation.receipt ∉ saved.completed
  completed : ∀ receipt ∈ saved.completed, ∃ key ∈ saved.locked, ∃ reservation,
    PgAttempts.held w.issued w.committed key = some reservation ∧ reservation.receipt = receipt
  once : saved.completed.Nodup

/-- An admission may write its row: whatever its rows held has run out, and it has deleted the others. -/
structure Granted (committed : AttemptRows) (nowMs : ℕ) (key : AttemptKey) (txn : Txn) : Prop where
  spent : ∀ other ∈ txn.locked, ∀ untilMs token, leaseAt committed other = some (untilMs, token) → untilMs ≤ nowMs
  others : ∀ other ∈ txn.locked, other ≠ key → txn.own.lookup other = none

/-- Deadlines that have passed stay passed. -/
theorem Granted.mono (h : Granted committed nowMs key txn) (hle : nowMs ≤ nowMs') : Granted committed nowMs' key txn :=
  ⟨fun other hother untilMs token hlease => (h.spent other hother untilMs token hlease).trans hle, h.others⟩

/-- What a row that has been quiet held has run out. -/
theorem Cleaned.spent {shard : CapacityShard} {removed : List AttemptKey} (h : Cleaned committed nowMs shard txn removed)
    (hkey : key ∈ removed) {untilMs : ℕ} {token : LeaseToken} (hlease : leaseAt committed key = some (untilMs, token)) :
    untilMs ≤ nowMs := by
  obtain ⟨-, row, hrow, hquiet⟩ := h.quiet key hkey
  rw [leaseAt_of_lookup hrow] at hlease
  -- a row has been quiet only from its deadline on
  unfold AttemptRow.expiryMs at hquiet
  rw [hlease] at hquiet
  change untilMs + row.quietMs ≤ nowMs at hquiet
  omega

/-- A cleanup leaves an admission nothing but rows that have been quiet. -/
theorem Swept.granted {shard : CapacityShard} (h : Swept committed nowMs shard txn) (key : AttemptKey) :
    Granted committed nowMs key txn := by
  obtain ⟨removed, hcleaned, hall⟩ := h
  refine ⟨fun other hother untilMs token hlease => ?_, fun other hother _ => hcleaned.gone other (hall other hother)⟩
  exact hcleaned.spent (hall other hother) hlease

end Changes

variable [Sha2] {w w' : World} {i j nowMs : ℕ} {session other : Session} {txn txn' saved : Txn} {key : AttemptKey}

/-- **An admission writes its row when nothing holds it**, or what held it has run out. -/
theorem Advances.granted {maximum : ℕ} {subject : AttemptSubject} {phase : AdmitPhase} {token : LeaseToken}
    {issued : Table LeaseToken Reservation}
    (h : Advances w i nowMs maximum subject txn phase txn' (.reserved token) issued)
    (hseated : phase.Seated w.committed nowMs maximum subject.key txn) :
    Granted w.committed nowMs subject.key txn' := by
  -- the write adds one row, the admission's own: what it found there was deleted, expired or absent
  have hwritten : ∀ {row : AttemptRow}, (∀ other ∈ txn.locked, other ≠ subject.key → txn.own.lookup other = none) →
      (∀ other ∈ txn.locked, ∀ untilMs token, leaseAt w.committed other = some (untilMs, token) → untilMs ≤ nowMs) →
      (subject.key ∉ txn.locked → w.committed.lookup subject.key = none) →
      Granted w.committed nowMs subject.key
        (txn.write {subject.key} ((txn.view w.committed).insert subject.key row)) := by
    intro row hothers hspent hnone
    refine ⟨fun other hother untilMs token hlease => ?_, fun other hother hne => ?_⟩
    · by_cases hheld : other ∈ txn.locked
      · exact hspent other hheld untilMs token hlease
      · have hkey := Finset.mem_singleton.1 ((Txn.mem_write.1 hother).resolve_left hheld)
        obtain ⟨row, hrow, -⟩ := leaseAt_eq_some.1 hlease
        rw [hkey, hnone (hkey ▸ hheld)] at hrow
        cases hrow
    · change ((txn.view w.committed).insert subject.key row).lookup other = none
      have hheld := (Txn.mem_write.1 hother).resolve_right fun hmem => hne (Finset.mem_singleton.1 hmem)
      rw [Finmap.lookup_insert_if, if_neg hne, Txn.view_lookup, if_pos hheld]
      exact hothers other hheld hne
  generalize hphase : AdmitPhase.reserved token = phase' at h
  cases h with
  | inserted hfresh hfree hinsertable =>
    -- no row was found, so the lock on it is new or the cleanup has deleted it
    obtain ⟨hswept, hnone, -⟩ := hseated
    have hgranted := hswept.granted subject.key
    refine hwritten hgranted.others hgranted.spent fun hkey => ?_
    rwa [Txn.view_lookup, if_neg hkey] at hnone
  | updated hrow hfresh hfree hstorable =>
    -- the row that was found holds a lease whose deadline the admission has sampled as passed
    obtain ⟨hsampled, -, -, row, ⟨⟨removed, hcleaned, hall⟩, hkey, hown, hcommitted⟩, hlease⟩ := hseated
    refine hwritten (fun other hother hne => ?_) (fun other hother untilMs token hother' => ?_)
      fun hnot => absurd hkey hnot
    · exact hcleaned.gone other ((hall other hother).resolve_left hne)
    · rcases hall other hother with rfl | hremoved
      · -- the row of the admission itself
        rw [leaseAt_of_lookup hcommitted] at hother'
        exact (hlease untilMs token hother').trans hsampled
      · exact hcleaned.spent hremoved hother'
  | judged row =>
    unfold PgAttempts.judged at hphase
    split at hphase
    · cases hphase
    · cases hphase
    · cases hphase
  | _ => cases hphase

/-! ## Along a run -/

/-- What every interleaving keeps of the reservations. -/
structure Fenced (w : World) : Prop where
  tokened : Tokened w
  current : ∀ key reservation, held w.issued w.committed key = some reservation →
    reservation.receipt ∈ w.admitted ∧ reservation.receipt ∉ w.completed
  completed : ∀ receipt ∈ w.completed, receipt ∈ w.admitted
  once : w.completed.Nodup
  /-- A reservation is held until it is completed, or its deadline has passed. -/
  admitted : ∀ receipt ∈ w.admitted, ∃ reservation, w.issued.lookup receipt = some reservation ∧
    reservation.receipt = receipt ∧ (receipt ∈ w.completed ∨ reservation.untilMs ≤ w.nowMs ∨
      held w.issued w.committed reservation.key = some reservation)
  hosts : ∀ i session savepoints, w.sessions.lookup i = some session → session.program = .host savepoints →
    ∀ saved ∈ session.states, Settles w saved
  admissions : ∀ i session maximum subject token, w.sessions.lookup i = some session →
    session.program = .admission maximum subject (.reserved token) → token ∉ w.admitted ∧
      Granted w.committed w.nowMs subject.key session.txn

/-- Seen by the transaction, every row holds what it held, unless it was completed. -/
theorem Tokened.held_view (hw : Tokened w) (h : Settles w saved) (key : AttemptKey) :
    held w.issued (saved.view w.committed) key =
      (held w.issued w.committed key).filter fun reservation => reservation.receipt ∉ saved.completed := by
  rw [PgAttempts.held_view]
  split
  · rename_i hkey
    exact h.held key hkey
  · rename_i hkey
    cases hheld : held w.issued w.committed key with
    | none => rfl
    | some reservation =>
      rw [Option.filter_some, if_pos]
      refine decide_eq_true fun hmem => hkey ?_
      -- a receipt names its key
      obtain ⟨other, hother, reservation', hheld', hsame⟩ := h.completed _ hmem
      obtain ⟨hk, token, -, hissued⟩ := (hw.leased key).of_held hheld
      obtain ⟨hk', token', -, hissued'⟩ := (hw.leased other).of_held hheld'
      have horigin := hw.origins token reservation hissued
      rw [← hsame, hw.origins token' reservation' hissued'] at horigin
      cases horigin
      rw [← hk, hk']
      exact hother

/-- What a transaction has settled stays settled, as long as its rows stay. -/
theorem Tokened.settles_later (hw : Tokened w) (hknows : Knows w i saved) (h : Settles w saved)
    (hextends : Extends w.issued w'.issued) (hrows : ∀ key ∈ saved.locked, w'.committed.lookup key = w.committed.lookup key) :
    Settles w' saved := by
  have hcommitted : ∀ key ∈ saved.locked, held w'.issued w'.committed key = held w.issued w.committed key := by
    intro key hkey
    rw [held_congr (leaseAt_congr (hrows key hkey)), (hw.leased key).held_mono hextends]
  refine ⟨fun key hkey => ?_, fun receipt hreceipt => ?_, h.once⟩
  · rw [hcommitted key hkey, (hknows.leased key hkey).held_mono hextends]
    exact h.held key hkey
  · obtain ⟨key, hkey, reservation, hheld, hsame⟩ := h.completed receipt hreceipt
    exact ⟨key, hkey, reservation, (hcommitted key hkey).trans hheld, hsame⟩

/-- **A claim hands the reservation on, and a completion settles it.** -/
theorem Tokened.settles_served (hw : Tokened w) (hknows : Knows w i txn) (h : Settles w txn) {outcome : Outcome}
    (hserves : Serves w i nowMs txn outcome) (hissued : w'.issued = outcome.issued)
    (hcommitted : w'.committed = w.committed) : Settles w' outcome.txn := by
  have hextends : Extends w.issued w'.issued := hissued ▸ hserves.extends
  have hview : ∀ key, held w'.issued (txn.view w.committed) key =
      (held w.issued w.committed key).filter fun reservation => reservation.receipt ∉ txn.completed := by
    intro key
    rw [(hw.leased_view hknows key).held_mono hextends]
    exact hw.held_view h key
  have hbefore : ∀ key, held w'.issued w'.committed key = held w.issued w.committed key := by
    intro key
    rw [hcommitted]
    exact (hw.leased key).held_mono hextends
  -- where nothing was completed, it is enough that the rows seem as before
  have hsame : ∀ {txn' : Txn}, txn'.completed = txn.completed → txn.locked ⊆ txn'.locked →
      (∀ key ∈ txn'.locked, held w'.issued txn'.own key = held w'.issued (txn.view w.committed) key) →
      Settles w' txn' := by
    intro txn' hcompleted hgrows hown
    refine ⟨fun key hkey => ?_, fun receipt hreceipt => ?_, hcompleted ▸ h.once⟩
    · rw [hown key hkey, hview key, hbefore key, hcompleted]
    · obtain ⟨key, hkey, reservation, hheld, hreceipt'⟩ := h.completed receipt (hcompleted ▸ hreceipt)
      exact ⟨key, hgrows hkey, reservation, (hbefore key).trans hheld, hreceipt'⟩
  cases hserves with
  | @claimed presented token receipt row untilMs hticket hrow hfree hfresh hlease hlive =>
    refine hsame rfl Finset.subset_union_left fun key hkey => ?_
    -- the claim writes a new token into one row, and the token is issued for the same reservation
    by_cases hk : key = receipt.key
    · obtain ⟨hpresented, -⟩ := hw.tickets presented _ hticket
      have hpresented' : receipt.token = presented := hpresented
      have hseen : leaseAt (txn.view w.committed) receipt.key = some (untilMs, presented) := by
        rw [leaseAt_of_lookup hrow, hlease, hpresented']
      obtain ⟨origin, hlookup⟩ := hw.leased_view hknows receipt.key untilMs presented hseen
      have hnew : leaseAt ((txn.view w.committed).insert receipt.key { row with lease := some (untilMs, token) })
          receipt.key = some (untilMs, token) := by
        rw [leaseAt_insert, if_pos rfl]
      subst hk
      rw [held_of_lookup hseen, hextends _ _ hlookup]
      refine (held_of_lookup hnew).trans ?_
      rw [hissued]
      change (w.issued.insert token _).lookup token = _
      rw [Finmap.lookup_insert, receiptOf_eq hlookup]
    · refine held_congr ?_
      change leaseAt ((txn.view w.committed).insert receipt.key _) key = _
      rw [leaseAt_insert, if_neg hk]
  | missed hshown hticket hnone =>
    refine hsame rfl (Finset.Subset.refl _) fun key hkey => ?_
    rw [PgAttempts.held_view, if_pos hkey]
  | stale hshown hticket hrow hfree => exact hsame rfl (Finset.subset_insert _ _) fun key hkey => rfl
  | @completed presented ticket result row completed columns hticket hrow hfree hcompletes =>
    obtain ⟨untilMs, hlease, -⟩ := completes_iff.1 (completeRow_ok hcompletes).1
    have hseen : leaseAt (txn.view w.committed) ticket.inner.key = some (untilMs, ticket.inner.token) := by
      rw [leaseAt_of_lookup hrow, hlease]
    obtain ⟨receipt, hlookup⟩ := hw.leased_view hknows _ untilMs _ hseen
    have hreceipt : w.receiptOf ticket.inner.token = receipt := receiptOf_eq hlookup
    -- the row held the reservation before the transaction, which has not completed it
    have hheld := hview ticket.inner.key
    rw [held_of_lookup hseen, hextends _ _ hlookup, eq_comm, Option.filter_eq_some_iff] at hheld
    obtain ⟨hcurrent, hopen⟩ := hheld
    have hopen' : receipt ∉ txn.completed := of_decide_eq_true hopen
    -- the completed row holds nothing any more, the other rows what they held; the list grows by one open receipt
    refine ⟨fun key hkey => ?_, fun other hother => ?_, ?_⟩
    · change held w'.issued ((txn.view w.committed).insert ticket.inner.key completed) key =
        (held w'.issued w'.committed key).filter fun reservation =>
          reservation.receipt ∉ w.receiptOf ticket.inner.token :: txn.completed
      rw [hbefore key, hreceipt]
      by_cases hk : key = ticket.inner.key
      · have hfinished : leaseAt ((txn.view w.committed).insert ticket.inner.key completed) key = none := by
          rw [leaseAt_insert, if_pos hk, (completeRow_ok hcompletes).2.1]
          rfl
        rw [held_none hfinished, hk, hcurrent, Option.filter_some, if_neg]
        exact fun hnot => (of_decide_eq_true hnot) List.mem_cons_self
      · have hleft : leaseAt ((txn.view w.committed).insert ticket.inner.key completed) key =
            leaseAt (txn.view w.committed) key := by
          rw [leaseAt_insert, if_neg hk]
        rw [held_congr hleft, hview key]
        cases hheld : held w.issued w.committed key with
        | none => rfl
        | some reservation =>
          -- another key holds another reservation
          have hne : reservation.receipt ≠ receipt := by
            rintro rfl
            obtain ⟨hname, token, -, hissued'⟩ := (hw.leased key).of_held hheld
            have horigin := hw.origins token reservation hissued'
            have horigin' := hw.origins _ _ hlookup
            rw [horigin] at horigin'
            have hnames : reservation.key = ticket.inner.key := congrArg Reservation.key (Option.some.inj horigin')
            exact hk (hname.symm.trans hnames)
          simp only [Option.filter_some, List.mem_cons, hne, false_or]
    · rcases List.mem_cons.1 hother with rfl | hold
      · refine ⟨ticket.inner.key, Finset.mem_union.2 (Or.inr (Finset.mem_singleton_self _)), _,
          (hbefore _).trans hcurrent, hreceipt.symm⟩
      · obtain ⟨key, hkey, reservation, hheld, hsame'⟩ := h.completed other hold
        exact ⟨key, Finset.mem_union.2 (Or.inl hkey), reservation, (hbefore key).trans hheld, hsame'⟩
    · change (w.receiptOf ticket.inner.token :: txn.completed).Nodup
      rw [hreceipt]
      exact List.nodup_cons.2 ⟨hopen', h.once⟩

/-- A statement keeps the reservations. -/
theorem Fenced.ran (hw : Fenced w) {shown : Shown} (hsession : w.sessions.lookup i = some session)
    (hnow : w.nowMs ≤ nowMs) (h : Executes w i nowMs session shown w') (htokened : Tokened w') : Fenced w' := by
  have hknows := hw.tokened.sessions i session hsession
  -- a statement leaves what is committed: only the rows seen by its own transaction can change
  have hkept : ∀ {program outcome}, w' = w.ran i nowMs program outcome → Extends w.issued outcome.issued →
      (∀ savepoints, program = .host savepoints → ∀ saved ∈ (⟨outcome.txn, program⟩ : Session).states,
        Settles w' saved) →
      (∀ maximum subject token, program = .admission maximum subject (.reserved token) → token ∉ w.admitted ∧
        Granted w.committed nowMs subject.key outcome.txn) → Fenced w' := by
    rintro program outcome rfl hextends hhost hadmission
    have hsame : ∀ key, held outcome.issued w.committed key = held w.issued w.committed key :=
      fun key => (hw.tokened.leased key).held_mono hextends
    refine ⟨htokened, ?_, hw.completed, hw.once, ?_, ?_, ?_⟩
    · intro key reservation hheld
      exact hw.current key reservation ((hsame key).symm.trans hheld)
    · intro receipt hreceipt
      obtain ⟨reservation, hissued, horigin, hcases⟩ := hw.admitted receipt hreceipt
      refine ⟨reservation, hextends _ _ hissued, horigin, hcases.imp_right fun hcases => ?_⟩
      exact hcases.imp (fun hspent => hspent.trans hnow) fun hheld => (hsame _).trans hheld
    · intro j other savepoints hother hprogram saved hsaved
      rcases lookup_insert_cases hother with ⟨rfl, rfl⟩ | ⟨hj, hother⟩
      · exact hhost savepoints hprogram saved hsaved
      · exact hw.tokened.settles_later (hw.tokened.sessions j other hother saved hsaved)
          (hw.hosts j other savepoints hother hprogram saved hsaved) hextends fun _ _ => rfl
    · intro j other maximum subject token hother hprogram
      rcases lookup_insert_cases hother with ⟨rfl, rfl⟩ | ⟨hj, hother⟩
      · exact hadmission maximum subject token hprogram
      · obtain ⟨hfresh, hgranted⟩ := hw.admissions j other maximum subject token hother hprogram
        exact ⟨hfresh, hgranted.mono hnow⟩
  -- savepoints put back states that the transaction already had
  have hsame : ∀ {program txn}, w' = w.ran i nowMs program ⟨.quiet, txn, w.tickets, w.issued⟩ →
      (∀ savepoints, program = .host savepoints → ∀ saved ∈ (⟨txn, program⟩ : Session).states, Settles w saved) →
      (∀ maximum subject phase, program ≠ .admission maximum subject phase) → Fenced w' := by
    intro program txn hran hstates hprogram
    refine hkept hran (Extends.refl _) (fun savepoints hhost saved hsaved => ?_)
      fun maximum subject token hsame => absurd hsame (hprogram maximum subject _)
    obtain ⟨hheld, hcompleted, honce⟩ := hstates savepoints hhost saved hsaved
    rw [hran]
    exact ⟨hheld, hcompleted, honce⟩
  cases h with
  | @advanced maximum subject phase phase' txn' issued hprogram hadvances =>
    refine hkept rfl hadvances.extends nofun ?_
    intro maximum' subject' token hreserved
    cases hreserved
    obtain ⟨-, hseated⟩ := hw.tokened.allotted.admissions i session _ _ _ hsession hprogram
    -- a new token has not been admitted, since admitted tokens have been issued
    obtain ⟨-, -, hfresh, -⟩ := hadvances.reserved
    refine ⟨fun hadmitted => ?_, hadvances.granted (hseated.mono hnow)⟩
    obtain ⟨reservation, hissued, -⟩ := hw.admitted token hadmitted
    exact hfresh (Finmap.mem_keys_iff.2 ⟨reservation, hissued⟩)
  | @served savepoints outcome hprogram hserves =>
    have hhosts := hw.hosts i session savepoints hsession hprogram
    rw [Session.states_host hprogram] at hknows hhosts
    refine hkept rfl hserves.extends ?_ nofun
    intro savepoints' hsame' saved hsaved
    rcases List.mem_cons.1 hsaved with rfl | hmem
    · exact hw.tokened.settles_served (hknows _ List.mem_cons_self) (hhosts _ List.mem_cons_self) hserves rfl rfl
    · have hsaved' := List.mem_cons_of_mem session.txn hmem
      exact hw.tokened.settles_later (hknows saved hsaved') (hhosts saved hsaved') hserves.extends fun _ _ => rfl
  | @saved savepoints hprogram =>
    have hhosts := hw.hosts i session savepoints hsession hprogram
    rw [Session.states_host hprogram] at hhosts
    refine hsame rfl (fun savepoints' _ state hstate => ?_) nofun
    rcases List.mem_cons.1 hstate with rfl | hmem
    · exact hhosts _ List.mem_cons_self
    · exact hhosts state hmem
  | @restored savepoints depth saved hprogram hsaved =>
    have hhosts := hw.hosts i session savepoints hsession hprogram
    rw [Session.states_host hprogram] at hhosts
    refine hsame rfl (fun savepoints' _ state hstate => ?_) nofun
    rcases List.mem_cons.1 hstate with rfl | hmem
    · exact hhosts _ (List.mem_cons_of_mem _ (List.mem_of_getElem? hsaved))
    · exact hhosts state (List.mem_cons_of_mem _ (List.mem_of_mem_drop hmem))
  | @released savepoints depth hprogram =>
    have hhosts := hw.hosts i session savepoints hsession hprogram
    rw [Session.states_host hprogram] at hhosts
    refine hsame rfl (fun savepoints' _ state hstate => ?_) nofun
    rcases List.mem_cons.1 hstate with rfl | hmem
    · exact hhosts _ List.mem_cons_self
    · exact hhosts state (List.mem_cons_of_mem _ (List.mem_of_mem_drop hmem))

/-- The other transactions after a commit. -/
theorem Fenced.others (hw : Fenced w) (hsession : w.sessions.lookup i = some session)
    (hcommitted : w'.committed = session.txn.view w.committed) (hsessions : w'.sessions = w.sessions.erase i)
    (hissued : w'.issued = w.issued) {savepoints : List Txn} (hother : w'.sessions.lookup j = some other)
    (hprogram : other.program = .host savepoints) (hsaved : saved ∈ other.states) : Settles w' saved := by
  rw [hsessions] at hother
  obtain ⟨hne, hother⟩ := lookup_erase_cases hother
  refine hw.tokened.settles_later (hw.tokened.sessions j other hother saved hsaved)
    (hw.hosts j other savepoints hother hprogram saved hsaved) (hissued ▸ Extends.refl _) fun key hkey => ?_
  have hheld := subset_of_states (hw.tokened.allotted.locked.nested j other hother) hsaved hkey
  rw [hcommitted]
  exact hw.tokened.allotted.locked.undisturbed hne hother hsession hheld

/-- An admission whose row is not touched by a commit stays granted. -/
theorem Fenced.granted_others (hw : Fenced w) (hsession : w.sessions.lookup i = some session)
    (hcommitted : w'.committed = session.txn.view w.committed) (hsessions : w'.sessions = w.sessions.erase i)
    (hnow : w'.nowMs = w.nowMs) {maximum : ℕ} {subject : AttemptSubject} {token : LeaseToken}
    (hother : w'.sessions.lookup j = some other) (hprogram : other.program = .admission maximum subject (.reserved token)) :
    j ≠ i ∧ w.sessions.lookup j = some other ∧ token ∉ w.admitted ∧
      Granted w'.committed w'.nowMs subject.key other.txn := by
  rw [hsessions] at hother
  obtain ⟨hne, hother⟩ := lookup_erase_cases hother
  obtain ⟨hfresh, hgranted⟩ := hw.admissions j other maximum subject token hother hprogram
  refine ⟨hne, hother, hfresh, fun key hkey untilMs token hlease => ?_, hgranted.others⟩
  have hrow : w'.committed.lookup key = w.committed.lookup key := by
    rw [hcommitted]
    exact hw.tokened.allotted.locked.undisturbed hne hother hsession hkey
  rw [hnow]
  rw [leaseAt_congr hrow] at hlease
  exact hgranted.spent key hkey untilMs token hlease

/-- The commit of a host transaction: what it has completed is completed. -/
theorem Fenced.hosted (hw : Fenced w) {savepoints : List Txn} (hsession : w.sessions.lookup i = some session)
    (hprogram : session.program = .host savepoints) (htokened : Tokened (w.commit i session.txn)) :
    Fenced (w.commit i session.txn) := by
  have hsettles := hw.hosts i session savepoints hsession hprogram _ session.txn_mem_states
  have hview := hw.tokened.held_view hsettles
  refine ⟨htokened, ?_, ?_, ?_, ?_, ?_, ?_⟩
  · -- what is still held after the commit, the transaction has not completed
    intro key reservation hheld
    have hkept := (hview key).symm.trans hheld
    rw [Option.filter_eq_some_iff] at hkept
    obtain ⟨hadmitted, hopen⟩ := hw.current key reservation hkept.1
    refine ⟨hadmitted, fun hmem => ?_⟩
    rcases List.mem_append.1 hmem with hold | hnew
    · exact hopen hold
    · exact of_decide_eq_true hkept.2 hnew
  · intro receipt hreceipt
    rcases List.mem_append.1 hreceipt with hold | hnew
    · exact hw.completed receipt hold
    · obtain ⟨key, -, reservation, hheld, rfl⟩ := hsettles.completed receipt hnew
      exact (hw.current key reservation hheld).1
  · -- a receipt completed before is held by no row, and this transaction completed one that was
    refine List.nodup_append.2 ⟨hw.once, hsettles.once, ?_⟩
    rintro receipt hold other hnew rfl
    obtain ⟨key, -, reservation, hheld, rfl⟩ := hsettles.completed receipt hnew
    exact (hw.current key reservation hheld).2 hold
  · intro receipt hreceipt
    obtain ⟨reservation, hissued, horigin, hcases⟩ := hw.admitted receipt hreceipt
    refine ⟨reservation, hissued, horigin, ?_⟩
    rcases hcases with hdone | hspent | hheld
    · exact Or.inl (List.mem_append_left _ hdone)
    · exact Or.inr (Or.inl hspent)
    · -- a reservation leaves its row by being completed only
      by_cases hnew : receipt ∈ session.txn.completed
      · exact Or.inl (List.mem_append_right _ hnew)
      · right
        right
        refine (hview reservation.key).trans ?_
        rw [hheld, Option.filter_some, horigin, if_pos (decide_eq_true hnew)]
  · exact fun j other savepoints' hother hhost saved hsaved => hw.others hsession rfl rfl rfl hother hhost hsaved
  · intro j other maximum subject token hother hadmission
    obtain ⟨-, -, hfresh, hgranted⟩ := @Fenced.granted_others _ w (w.commit i session.txn) i j session other hw hsession
      rfl rfl rfl maximum subject token hother hadmission
    exact ⟨hfresh, hgranted⟩

/-- The commit of an admission, with what it reserves. -/
theorem Fenced.admission (hw : Fenced w) (hsession : w.sessions.lookup i = some session)
    {reserved : List LeaseToken} {key : AttemptKey} (hgranted : Granted w.committed w.nowMs key session.txn)
    (hown : ∀ other ∈ session.txn.locked, ∀ reservation,
      held w.issued session.txn.own other = some reservation → reservation.receipt ∈ reserved)
    (hreserved : ∀ token ∈ reserved, token ∉ w.admitted ∧ ∃ reservation, w.issued.lookup token = some reservation ∧
      reservation.receipt = token ∧ held w.issued (session.txn.view w.committed) reservation.key = some reservation)
    (hothers : ∀ j other maximum subject token, j ≠ i → w.sessions.lookup j = some other →
      other.program = .admission maximum subject (.reserved token) → token ∉ reserved)
    (htokened : Tokened w') (hcommitted : w'.committed = session.txn.view w.committed)
    (hsessions : w'.sessions = w.sessions.erase i) (hissued : w'.issued = w.issued) (hnow : w'.nowMs = w.nowMs)
    (hcompleted : w'.completed = w.completed) (hadmitted : w'.admitted = w.admitted ++ reserved) : Fenced w' := by
  refine ⟨htokened, ?_, ?_, hcompleted ▸ hw.once, ?_, ?_, ?_⟩
  · intro other reservation hheld
    rw [hissued, hcommitted, held_view] at hheld
    rw [hadmitted, hcompleted]
    split at hheld
    · rename_i hkey
      have hmem := hown other hkey reservation hheld
      refine ⟨List.mem_append_right _ hmem, fun hdone => ?_⟩
      exact (hreserved _ hmem).1 (hw.completed _ hdone)
    · obtain ⟨hmem, hopen⟩ := hw.current other reservation hheld
      exact ⟨List.mem_append_left _ hmem, hopen⟩
  · intro receipt hreceipt
    rw [hadmitted]
    exact List.mem_append_left _ (hw.completed receipt (hcompleted ▸ hreceipt))
  · intro receipt hreceipt
    rw [hissued, hcompleted, hnow, hcommitted]
    rw [hadmitted] at hreceipt
    rcases List.mem_append.1 hreceipt with hold | hnew
    · obtain ⟨reservation, hlookup, horigin, hcases⟩ := hw.admitted receipt hold
      refine ⟨reservation, hlookup, horigin, ?_⟩
      rcases hcases with hdone | hspent | hheld
      · exact Or.inl hdone
      · exact Or.inr (Or.inl hspent)
      · by_cases hkey : reservation.key ∈ session.txn.locked
        · -- the admission has waited for the deadline
          obtain ⟨-, token, hlease, -⟩ := (hw.tokened.leased reservation.key).of_held hheld
          exact Or.inr (Or.inl (hgranted.spent _ hkey _ _ hlease))
        · right
          right
          rw [held_view, if_neg hkey]
          exact hheld
    · obtain ⟨-, reservation, hlookup, horigin, hheld⟩ := hreserved receipt hnew
      exact ⟨reservation, hlookup, horigin, Or.inr (Or.inr hheld)⟩
  · exact fun j other savepoints hother hhost saved hsaved =>
      hw.others hsession hcommitted hsessions hissued hother hhost hsaved
  · intro j other maximum subject token hother hprogram
    obtain ⟨hne, hopen, hfresh, hgranted'⟩ := hw.granted_others hsession hcommitted hsessions hnow hother hprogram
    refine ⟨fun hmem => ?_, hgranted'⟩
    rw [hadmitted] at hmem
    exact (List.mem_append.1 hmem).elim hfresh (hothers j other maximum subject token hne hopen hprogram)

/-- **A move keeps the reservations.** -/
theorem Fenced.acts {move : Move} {shown : Shown} (hw : Fenced w) (h : Acts w move shown w') : Fenced w' := by
  have htokened := hw.tokened.acts h
  cases h with
  | @began i what hnew =>
    refine ⟨htokened, hw.current, hw.completed, hw.once, hw.admitted, ?_, ?_⟩
    · intro j other savepoints hother hprogram saved hsaved
      rcases lookup_insert_cases hother with ⟨rfl, rfl⟩ | ⟨hj, hother⟩
      · -- a new transaction holds no rows and has completed nothing
        have hnewest : saved = .new := by
          cases what with
          | admission config subject => cases hprogram
          | host => exact List.mem_singleton.1 hsaved
        rw [hnewest]
        exact ⟨nofun, nofun, List.nodup_nil⟩
      · obtain ⟨hheld, hcompleted, honce⟩ := hw.hosts j other savepoints hother hprogram saved hsaved
        exact ⟨hheld, hcompleted, honce⟩
    · intro j other maximum subject token hother hprogram
      rcases lookup_insert_cases hother with ⟨rfl, rfl⟩ | ⟨hj, hother⟩
      · cases what with
        | admission config subject => cases hprogram
        | host => cases hprogram
      · exact hw.admissions j other maximum subject token hother hprogram
  | ran hsession hnow hmax hexecutes => exact hw.ran hsession hnow hexecutes htokened
  | @reserved i maximum session subject token hsession hprogram =>
    obtain ⟨hfresh, hgranted⟩ := hw.admissions i session maximum subject token hsession hprogram
    obtain ⟨-, hcompleted, hreserved⟩ := hw.tokened.admissions i session maximum subject _ hsession hprogram
    obtain ⟨untilMs, hissued, hkey, hlease⟩ := hreserved token rfl
    refine @Fenced.admission _ w _ i session hw hsession [token] subject.key hgranted ?_ ?_ ?_ htokened rfl rfl rfl rfl ?_ rfl
    · intro other hother reservation hheld
      -- of the rows that the admission holds, only its own is left
      by_cases hsame : other = subject.key
      · rw [hsame, held_of_lookup hlease, hissued] at hheld
        cases hheld
        exact List.mem_singleton_self _
      · have hnone : leaseAt session.txn.own other = none := by
          unfold leaseAt
          rw [hgranted.others other hother hsame, Option.bind_none]
        rw [held_none hnone] at hheld
        cases hheld
    · intro receipt hreceipt
      rw [List.mem_singleton.1 hreceipt]
      refine ⟨hfresh, _, hissued, rfl, ?_⟩
      rw [held_view, if_pos hkey, held_of_lookup hlease, hissued]
    · -- two admissions hold different rows, and so different tokens
      intro j other maximum' subject' token' hne hother hprogram' hmem
      obtain ⟨-, -, hreserved'⟩ := hw.tokened.admissions j other maximum' subject' _ hother hprogram'
      obtain ⟨untilMs', hissued', hkey', -⟩ := hreserved' token' rfl
      rw [List.mem_singleton.1 hmem, hissued] at hissued'
      have hnames : subject.key = subject'.key := congrArg Reservation.key (Option.some.inj hissued')
      exact hw.tokened.allotted.locked.rows i j session other (Ne.symm hne) hsession hother _ hkey (hnames ▸ hkey')
    · change w.completed ++ session.txn.completed = w.completed
      rw [hcompleted, List.append_nil]
  | @full i maximum session subject hsession hprogram =>
    obtain ⟨-, hseated⟩ := hw.tokened.allotted.admissions i session _ _ _ hsession hprogram
    -- a denial for capacity commits its cleanup and reserves nothing
    obtain ⟨hswept, -⟩ : Swept w.committed w.nowMs (capacityShard subject.key) session.txn ∧ _ := hseated
    obtain ⟨-, hcompleted, -⟩ := hw.tokened.admissions i session maximum subject _ hsession hprogram
    refine @Fenced.admission _ w _ i session hw hsession [] subject.key (hswept.granted _) ?_ nofun (fun _ _ _ _ _ _ _ _ => nofun)
      htokened rfl rfl rfl rfl ?_ (List.append_nil _).symm
    · intro other hother reservation hheld
      obtain ⟨removed, hcleaned, hall⟩ := hswept
      have hnone : leaseAt session.txn.own other = none := by
        unfold leaseAt
        rw [hcleaned.gone other (hall other hother), Option.bind_none]
      rw [held_none hnone] at hheld
      cases hheld
    · change w.completed ++ session.txn.completed = w.completed
      rw [hcompleted, List.append_nil]
  | hosted hsession hprogram => exact hw.hosted hsession hprogram htokened
  | rolledBack hsession hshown =>
    refine ⟨htokened, hw.current, hw.completed, hw.once, hw.admitted, ?_, ?_⟩
    · intro j other savepoints hother hprogram saved hsaved
      obtain ⟨hheld, hcompleted, honce⟩ :=
        hw.hosts j other savepoints (lookup_erase_cases hother).2 hprogram saved hsaved
      exact ⟨hheld, hcompleted, honce⟩
    · exact fun j other maximum subject token hother =>
        hw.admissions j other maximum subject token (lookup_erase_cases hother).2

/-- Before the first move nothing is held, admitted or completed. -/
theorem fenced_start : Fenced World.start := by
  have hnone : ∀ {i : ℕ} {session : Session}, World.start.sessions.lookup i ≠ some session := by
    intro i session hsession
    rw [show World.start.sessions = ∅ from rfl, Finmap.lookup_empty] at hsession
    cases hsession
  refine ⟨tokened_start, ?_, nofun, List.nodup_nil, nofun, fun _ _ _ hsession => absurd hsession hnone,
    fun _ _ _ _ _ hsession => absurd hsession hnone⟩
  intro key reservation hheld
  obtain ⟨-, token, hlease, -⟩ := (tokened_start.leased key).of_held hheld
  obtain ⟨row, hrow, -⟩ := leaseAt_eq_some.1 hlease
  rw [show World.start.committed = ∅ from rfl, Finmap.lookup_empty] at hrow
  cases hrow

/-- And so the reservations are kept in every reached state. -/
theorem reached_fenced (moves : List Move) : Fenced (reached moves) :=
  reached_inv (fun hacts hw => hw.acts hacts) fenced_start moves

/-! ## The result -/

/-- The ticket that a completion presents. -/
def Statement.presented : Statement → Option LeaseToken
  | .finishIn presented _ => some presented
  | .completeIn presented _ => some presented
  | _ => none

/-- How the attempts of a database are fenced. -/
structure AttemptsFenced (w : World) : Prop where
  /-- `finish_in` is applied in the transaction that made the claim, if the claim was not undone, at any time. -/
  finished : ∀ i session nowMs presented claim outcome shown w', w.sessions.lookup i = some session →
    w.tickets.lookup presented = some (.claim claim) →
    w.act (.run i nowMs (.finishIn presented outcome)) = some (shown, w') →
    (shown.applied = true ↔ claim.transactionId = i ∧ presented ∈ session.txn.claims)
  /-- And there it never waits. -/
  finishes : ∀ i session nowMs presented claim outcome, w.sessions.lookup i = some session →
    w.tickets.lookup presented = some (.claim claim) → presented ∈ session.txn.claims → w.nowMs ≤ nowMs →
    nowMs ≤ maxTimestampMs → w.act (.run i nowMs (.finishIn presented outcome)) ≠ none
  /-- At most one completion of a reservation is committed, and only of one that was. -/
  once : w.completed.Nodup
  admitted : ∀ receipt ∈ w.completed, receipt ∈ w.admitted
  /-- A completion that is applied finds the reservation of its ticket in the row. -/
  applied : ∀ i session nowMs statement presented shown w', w.sessions.lookup i = some session →
    statement.presented = some presented → w.act (.run i nowMs statement) = some (shown, w') →
    shown.applied = true → ∃ reservation, w.issued.lookup presented = some reservation ∧
      reservation.receipt ∈ w.admitted ∧ reservation.receipt ∉ w.completed ++ session.txn.completed ∧
      leaseAt (session.txn.view w.committed) reservation.key = some (reservation.untilMs, presented) ∧
      ∃ session', w'.sessions.lookup i = some session' ∧
        session'.txn.completed = reservation.receipt :: session.txn.completed
  /-- One that is not changes nothing. -/
  unchanged : ∀ i session nowMs statement presented shown w', w.sessions.lookup i = some session →
    statement.presented = some presented → w.act (.run i nowMs statement) = some (shown, w') →
    shown.applied = false → ∃ session', w'.sessions.lookup i = some session' ∧
      session'.txn.view w'.committed = session.txn.view w.committed ∧
      session'.txn.completed = session.txn.completed
  /-- Until it commits, the row in the database holds the reservation that a transaction has completed. -/
  holds : ∀ i session savepoints, w.sessions.lookup i = some session → session.program = .host savepoints →
    ∀ receipt ∈ session.txn.completed, ∃ reservation token, w.issued.lookup receipt = some reservation ∧
      w.issued.lookup token = some reservation ∧
      leaseAt w.committed reservation.key = some (reservation.untilMs, token)
  /-- An admission commits when the earlier ones of its key were completed, or their deadlines have passed, and when no
  transaction has a claim on its key. -/
  exclusive : ∀ i receipt w', w.act (.commit i) = some (.admitted receipt, w') →
    (∀ earlier ∈ w.admitted, ∀ reservation, w.issued.lookup earlier = some reservation →
      reservation.key = receipt.key → earlier ∈ w.completed ∨ reservation.untilMs ≤ w.nowMs) ∧
    ∀ j session token reservation, j ≠ i → w.sessions.lookup j = some session → token ∈ session.txn.claims →
      w.issued.lookup token = some reservation → reservation.key ≠ receipt.key

/-- What a completion does: it is applied to a row that lets it through, and otherwise it leaves the rows. -/
theorem completing_cases {presented : LeaseToken} {ticket : PgAttemptTicket} {outcome : AttemptOutcome}
    {result : Outcome} (hstorable : Storable (txn.view w.committed)) (hmax : nowMs ≤ maxTimestampMs)
    (h : completing w i nowMs txn presented ticket outcome = some result) :
    (∃ row, (txn.view w.committed).lookup ticket.inner.key = some row ∧
        completes row ticket.inner.token ticket.fence i nowMs = true ∧ result.shown.applied = true ∧
        result.txn.completed = w.receiptOf ticket.inner.token :: txn.completed) ∨
      (∀ row, (txn.view w.committed).lookup ticket.inner.key = some row →
          ¬completes row ticket.inner.token ticket.fence i nowMs = true) ∧ result.shown.applied = false ∧
        result.txn.view w.committed = txn.view w.committed ∧ result.txn.completed = txn.completed := by
  have hnow : nowMs < 2 ^ 62 := by
    have hlt : maxTimestampMs < 2 ^ 62 := by decide
    omega
  unfold completing at h
  simp only at h
  split at h
  · rename_i hnone
    cases h
    refine Or.inr ⟨fun row hrow => ?_, rfl, rfl, rfl⟩
    rw [hnone] at hrow
    cases hrow
  · rename_i row hrow
    split at h
    · by_cases hcompletes : completes row ticket.inner.token ticket.fence i nowMs = true
      · obtain ⟨columns, completion, hcompleted, hresult, -⟩ := completeRow_applied ticket.inner.policy
          (hstorable _ row hrow) hnow hcompletes outcome
        rw [hcompleted] at h
        simp only [Option.some.injEq] at h
        refine Or.inl ⟨row, hrow, hcompletes, ?_, ?_⟩
        · rw [← h]
          change (Shown.completed (completionResult outcome (some columns))).applied = true
          rw [hresult]
          rfl
        · rw [← h]
      · have hstale : completeRow ticket.inner.policy ticket.inner.token (decide (outcome = .success)) ticket.fence i
            nowMs row = .ok none := by
          unfold completeRow
          rw [if_neg hcompletes]
        rw [hstale] at h
        simp only [Option.some.injEq] at h
        refine Or.inr ⟨fun row' hrow' => ?_, ?_, ?_, ?_⟩
        · rw [hrow] at hrow'
          cases hrow'
          exact hcompletes
        · rw [← h]
          rfl
        · rw [← h]
          exact Txn.view_lock _ _ _
        · rw [← h]
          rfl
    · cases h

/-- The statements that complete something. -/
theorem act_completion {statement : Statement} {presented : LeaseToken} {shown : Shown}
    (hsession : w.sessions.lookup i = some session) (hpresented : statement.presented = some presented)
    (h : w.act (.run i nowMs statement) = some (shown, w')) :
    ∃ savepoints ticket outcome result, session.program = .host savepoints ∧
      w.tickets.lookup presented = some ticket ∧
      completing w i nowMs session.txn presented ticket outcome = some result ∧ shown = result.shown ∧
      w' = w.ran i nowMs (.host savepoints) result ∧ nowMs ≤ maxTimestampMs := by
  obtain ⟨session', hlookup, h⟩ := Option.bind_eq_some_iff.1 h
  rw [hsession] at hlookup
  cases hlookup
  split at h
  · rename_i hnow
    unfold execute at h
    cases hprogram : session.program with
    | admission maximum subject phase =>
      rw [hprogram] at h
      cases statement with
      | finishIn ticketed outcome => cases h
      | completeIn ticketed outcome => cases h
      | _ => cases hpresented
    | host savepoints =>
      rw [hprogram] at h
      cases statement with
      | finishIn ticketed outcome =>
        cases hpresented
        obtain ⟨result, hresult, h⟩ := Option.bind_eq_some_iff.1 h
        cases h
        unfold finishIn at hresult
        split at hresult
        · rename_i claim hticket
          exact ⟨savepoints, _, outcome, result, rfl, hticket, hresult, rfl, rfl, hnow.2⟩
        · cases hresult
      | completeIn ticketed outcome =>
        cases hpresented
        obtain ⟨result, hresult, h⟩ := Option.bind_eq_some_iff.1 h
        cases h
        unfold completeIn at hresult
        split at hresult
        · rename_i receipt hticket
          exact ⟨savepoints, _, outcome, result, rfl, hticket, hresult, rfl, rfl, hnow.2⟩
        · cases hresult
      | _ => cases hpresented
  · cases h

/-- What a host transaction sees can be stored. -/
theorem Fenced.storable_view (hw : Fenced w) {savepoints : List Txn} (hsession : w.sessions.lookup i = some session)
    (hprogram : session.program = .host savepoints) : Storable (session.txn.view w.committed) := by
  have hhoused := hw.tokened.allotted.hosts i session savepoints hsession hprogram _ session.txn_mem_states
  exact hhoused.storable_view hw.tokened.allotted.storable

/-- The row under a claim that is there lets the claim through. -/
theorem Fenced.claim_completes (hw : Fenced w) (hsession : w.sessions.lookup i = some session) {presented : LeaseToken}
    {claim : PgAttemptClaim} (hticket : w.tickets.lookup presented = some (.claim claim))
    (hclaimed : presented ∈ session.txn.claims) : claim.receipt.key ∈ session.txn.locked ∧
      ∃ row, (session.txn.view w.committed).lookup claim.receipt.key = some row ∧
        ∀ nowMs, completes row claim.receipt.token (some claim.transactionId) i nowMs = true := by
  have hknows := hw.tokened.sessions i session hsession _ session.txn_mem_states
  obtain ⟨hpresented, reservation, hissued, hkey, -⟩ := hw.tokened.tickets presented _ hticket
  obtain ⟨reservation', hissued', -, hlocked, hlease⟩ := hknows.claims presented hclaimed
  rw [hissued] at hissued'
  cases hissued'
  have hname : reservation.key = claim.receipt.key := hkey
  have htoken : claim.receipt.token = presented := hpresented
  rw [hname] at hlocked hlease
  obtain ⟨row, hrow, hlease⟩ := leaseAt_eq_some.1 hlease
  refine ⟨hlocked, row, ?_, fun nowMs => completes_iff.2 ⟨reservation.untilMs, htoken ▸ hlease, Or.inr ?_⟩⟩
  · rw [Txn.view_lookup, if_pos hlocked]
    exact hrow
  · rw [hknows.mine presented hclaimed claim hticket]

/-- Applied exactly in the transaction of the claim, while the claim stands. -/
theorem Fenced.finished (hw : Fenced w) {presented : LeaseToken} {claim : PgAttemptClaim} {outcome : AttemptOutcome}
    {shown : Shown} (hsession : w.sessions.lookup i = some session)
    (hticket : w.tickets.lookup presented = some (.claim claim))
    (h : w.act (.run i nowMs (.finishIn presented outcome)) = some (shown, w')) :
    shown.applied = true ↔ claim.transactionId = i ∧ presented ∈ session.txn.claims := by
  obtain ⟨savepoints, ticket, outcome', result, hprogram, hpresented, hresult, rfl, -, hmax⟩ := act_completion hsession rfl h
  rw [hticket] at hpresented
  cases hpresented
  have hknows := hw.tokened.sessions i session hsession _ session.txn_mem_states
  rcases completing_cases (hw.storable_view hsession hprogram) hmax hresult with
    ⟨row, hrow, hcompletes, happlied, -⟩ | ⟨hnot, hidle, -⟩
  · refine ⟨fun _ => ?_, fun _ => happlied⟩
    obtain ⟨untilMs, hlease, hfence⟩ := completes_iff.1 hcompletes
    -- the row compares the claim's transaction with the one that runs
    have hmine : claim.transactionId = i := by
      rcases hfence with ⟨hnone, -⟩ | hsome
      · cases hnone
      · exact Option.some.inj hsome
    obtain ⟨htoken, -⟩ := hw.tokened.tickets presented _ hticket
    have hopen : claim.transactionId ∈ w.sessions.keys := by
      rw [hmine]
      exact Finmap.mem_keys_iff.2 ⟨session, hsession⟩
    rw [htoken] at hlease
    have hseen : leaseAt (session.txn.view w.committed) claim.receipt.key = some (untilMs, presented) :=
      (leaseAt_of_lookup hrow).trans hlease
    exact ⟨hmine, (hw.tokened.known_view hknows hticket hopen hseen).2⟩
  · refine ⟨fun happlied => ?_, fun hclaimed => ?_⟩
    · rw [hidle] at happlied
      cases happlied
    · obtain ⟨-, row, hrow, hcompletes⟩ := hw.claim_completes hsession hticket hclaimed.2
      exact absurd (hcompletes nowMs) (hnot row hrow)

/-- The transaction of a claim holds the row, so that it does not wait for it. -/
theorem Fenced.finishes (hw : Fenced w) {presented : LeaseToken} {claim : PgAttemptClaim}
    (hsession : w.sessions.lookup i = some session) (hticket : w.tickets.lookup presented = some (.claim claim))
    (hclaimed : presented ∈ session.txn.claims) (hnow : w.nowMs ≤ nowMs) (hmax : nowMs ≤ maxTimestampMs)
    (outcome : AttemptOutcome) : w.act (.run i nowMs (.finishIn presented outcome)) ≠ none := by
  obtain ⟨hlocked, row, hrow, -⟩ := hw.claim_completes hsession hticket hclaimed
  have hfree : w.rowFree i claim.receipt.key = true := by
    -- rows are locked by one transaction at a time
    refine rowFree_iff.2 fun j other hne hother => ?_
    exact hw.tokened.allotted.locked.rows i j session other (Ne.symm hne) hsession hother _ hlocked
  have hcompleting : completing w i nowMs session.txn presented (.claim claim) outcome ≠ none := by
    unfold completing
    have hrow' : (session.txn.view w.committed).lookup (PgAttemptTicket.claim claim).inner.key = some row := hrow
    have hfree' : w.rowFree i (PgAttemptTicket.claim claim).inner.key = true := hfree
    simp only [hrow', if_pos hfree']
    split
    · nofun
    · nofun
    · nofun
  have hfinish : finishIn w i nowMs session.txn presented outcome ≠ none := by
    unfold finishIn
    rw [hticket]
    exact hcompleting
  cases hprogram : session.program with
  | admission maximum subject phase =>
    -- an admission makes no claims
    have hnone := (hw.tokened.admissions i session maximum subject phase hsession hprogram).1
    rw [hnone] at hclaimed
    cases hclaimed
  | host savepoints =>
    obtain ⟨result, hresult⟩ := Option.ne_none_iff_exists'.1 hfinish
    have hexecute : execute w i nowMs session (.finishIn presented outcome) =
        some (result.shown, w.ran i nowMs (.host savepoints) result) := by
      unfold execute
      rw [hprogram]
      change (finishIn w i nowMs session.txn presented outcome).bind _ = _
      rw [hresult]
      rfl
    have hact : w.act (.run i nowMs (.finishIn presented outcome)) =
        some (result.shown, w.ran i nowMs (.host savepoints) result) := by
      change (w.sessions.lookup i).bind _ = _
      rw [hsession, Option.bind_some, if_pos ⟨hnow, hmax⟩]
      exact hexecute
    rw [hact]
    nofun

/-- **What is completed was open**: the row holds the reservation under the presented token. -/
theorem Fenced.applied (hw : Fenced w) {statement : Statement} {presented : LeaseToken} {shown : Shown}
    (hsession : w.sessions.lookup i = some session) (hpresented : statement.presented = some presented)
    (h : w.act (.run i nowMs statement) = some (shown, w')) (happlied : shown.applied = true) :
    ∃ reservation, w.issued.lookup presented = some reservation ∧ reservation.receipt ∈ w.admitted ∧
      reservation.receipt ∉ w.completed ++ session.txn.completed ∧
      leaseAt (session.txn.view w.committed) reservation.key = some (reservation.untilMs, presented) ∧
      ∃ session', w'.sessions.lookup i = some session' ∧
        session'.txn.completed = reservation.receipt :: session.txn.completed := by
  obtain ⟨savepoints, ticket, outcome, result, hprogram, hticket, hresult, rfl, rfl, hmax⟩ :=
    act_completion hsession hpresented h
  have hknows := hw.tokened.sessions i session hsession _ session.txn_mem_states
  have hsettles := hw.hosts i session savepoints hsession hprogram _ session.txn_mem_states
  rcases completing_cases (hw.storable_view hsession hprogram) hmax hresult with
    ⟨row, hrow, hcompletes, -, hcompleted⟩ | ⟨-, hidle, -⟩
  · obtain ⟨untilMs, hlease, -⟩ := completes_iff.1 hcompletes
    obtain ⟨htoken, -⟩ := hw.tokened.tickets presented ticket hticket
    rw [htoken] at hlease hcompleted
    have hseen : leaseAt (session.txn.view w.committed) ticket.inner.key = some (untilMs, presented) :=
      (leaseAt_of_lookup hrow).trans hlease
    obtain ⟨receipt, hissued⟩ := hw.tokened.leased_view hknows _ untilMs presented hseen
    have hheld := hw.tokened.held_view hsettles ticket.inner.key
    -- what the transaction sees in the row is held in the database and was not completed here
    rw [held_of_lookup hseen, hissued, eq_comm, Option.filter_eq_some_iff] at hheld
    obtain ⟨hadmitted, hopen⟩ := hw.current _ _ hheld.1
    refine ⟨_, hissued, hadmitted, fun hmem => ?_, hseen, _, Finmap.lookup_insert _, ?_⟩
    · rcases List.mem_append.1 hmem with hold | hnew
      · exact hopen hold
      · exact of_decide_eq_true hheld.2 hnew
    · exact hcompleted.trans (congrArg (· :: session.txn.completed) (receiptOf_eq hissued))
  · rw [hidle] at happlied
    cases happlied

/-- A completion that comes too late, or in another transaction, leaves what its transaction sees. -/
theorem Fenced.unchanged (hw : Fenced w) {statement : Statement} {presented : LeaseToken} {shown : Shown}
    (hsession : w.sessions.lookup i = some session) (hpresented : statement.presented = some presented)
    (h : w.act (.run i nowMs statement) = some (shown, w')) (hidle : shown.applied = false) :
    ∃ session', w'.sessions.lookup i = some session' ∧
      session'.txn.view w'.committed = session.txn.view w.committed ∧
      session'.txn.completed = session.txn.completed := by
  obtain ⟨savepoints, ticket, outcome, result, hprogram, hticket, hresult, rfl, rfl, hmax⟩ :=
    act_completion hsession hpresented h
  rcases completing_cases (hw.storable_view hsession hprogram) hmax hresult with
    ⟨-, -, -, happlied, -⟩ | ⟨-, -, hview, hcompleted⟩
  · rw [hidle] at happlied
    cases happlied
  · exact ⟨_, Finmap.lookup_insert _, hview, hcompleted⟩

/-- **An admission excludes the earlier ones of its key, and every claim on it.** -/
theorem Fenced.exclusive (hw : Fenced w) {receipt : PgAttemptReceipt}
    (h : w.act (.commit i) = some (.admitted receipt, w')) :
    (∀ earlier ∈ w.admitted, ∀ reservation, w.issued.lookup earlier = some reservation →
      reservation.key = receipt.key → earlier ∈ w.completed ∨ reservation.untilMs ≤ w.nowMs) ∧
    ∀ j session token reservation, j ≠ i → w.sessions.lookup j = some session → token ∈ session.txn.claims →
      w.issued.lookup token = some reservation → reservation.key ≠ receipt.key := by
  generalize hmove : Move.commit i = move at h
  generalize hshown : Shown.admitted receipt = shown at h
  have hacts := act_acts h
  cases hacts with
  | @reserved k maximum session subject token hsession hprogram =>
    cases hmove
    cases hshown
    obtain ⟨-, -, hreserved⟩ := hw.tokened.admissions i session maximum subject _ hsession hprogram
    obtain ⟨untilMs, -, hkey, -⟩ := hreserved token rfl
    have hname : PgAttemptReceipt.key ⟨subject.policy, subject.subject, token⟩ = subject.key := rfl
    rw [hname]
    constructor
    · intro earlier hearlier reservation hissued hsame
      obtain ⟨reservation', hissued', -, hcases⟩ := hw.admitted earlier hearlier
      rw [hissued] at hissued'
      cases hissued'
      rcases hcases with hdone | hspent | hheld
      · exact Or.inl hdone
      · exact Or.inr hspent
      · -- still held: the admission holds the row, and waited for the deadline
        obtain ⟨-, token', hlease, -⟩ := (hw.tokened.leased reservation.key).of_held hheld
        obtain ⟨-, hgranted⟩ := hw.admissions i session maximum subject token hsession hprogram
        exact Or.inr (hgranted.spent _ (hsame ▸ hkey) _ _ hlease)
    · intro j other claimed reservation hne hother hclaimed hissued hsame
      have hknows := hw.tokened.sessions j other hother _ other.txn_mem_states
      -- a claim locks the row of its key
      obtain ⟨reservation', hissued', -, hlocked, -⟩ := hknows.claims claimed hclaimed
      rw [hissued] at hissued'
      cases hissued'
      exact hw.tokened.allotted.locked.rows i j session other (Ne.symm hne) hsession hother _ hkey (hsame ▸ hlocked)
  | full hsession hprogram => cases hshown
  | hosted hsession hprogram => cases hshown
  | began what hnew => cases hmove
  | ran hsession hnow hmax hexecutes => cases hmove
  | rolledBack hsession hreported => cases hmove

/-- **Claims and completions of attempts are fenced**, along every interleaving of admissions, host transactions and
savepoints. -/
theorem attempt_claims_fenced (moves : List Move) : AttemptsFenced (reached moves) := by
  have hw : Fenced (reached moves) := reached_fenced moves
  refine ⟨?_, ?_, hw.once, hw.completed, ?_, ?_, ?_, fun i receipt w' h => hw.exclusive h⟩
  · exact fun i session nowMs presented claim outcome shown w' hsession hticket h => hw.finished hsession hticket h
  · exact fun i session nowMs presented claim outcome hsession hticket hclaimed hnow hmax =>
      hw.finishes hsession hticket hclaimed hnow hmax outcome
  · exact fun i session nowMs statement presented shown w' hsession hpresented h happlied =>
      hw.applied hsession hpresented h happlied
  · exact fun i session nowMs statement presented shown w' hsession hpresented h hidle =>
      hw.unchanged hsession hpresented h hidle
  · intro i session savepoints hsession hprogram receipt hreceipt
    have hsettles := hw.hosts i session savepoints hsession hprogram _ session.txn_mem_states
    obtain ⟨key, -, reservation, hheld, rfl⟩ := hsettles.completed receipt hreceipt
    obtain ⟨hname, token, hlease, hissued⟩ := (hw.tokened.leased key).of_held hheld
    exact ⟨reservation, token, hw.tokened.origins token reservation hissued, hissued, hname ▸ hlease⟩

end PgAttempts

end Runlimit
