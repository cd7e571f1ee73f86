import Runlimit.Window.Anchored
import Runlimit.Proof.KeySteps
import Runlimit.Proof.Unobservable

/-!
# The fixed-window admission bound

The history of a key's allowed checks is anchored in windows, and the shard of the key knows the
last of them while it is open: its entry expires when that window closes and counts what was
charged in it. When the shard has no entry, every window has closed. `Records` is that relation
between a shard and a history; every call keeps it (`keyStep_records`).
-/

namespace Runlimit

open Window

variable [Sha2] {config : MemoryStoreConfig} {policy : FixedWindowPolicy} {key : CounterKey}
  {event : Event FixedWindowPolicy} {s s' : RefShard WindowEntry} {history : List (ℕ × ℕ)}

/-- The same limit and window, possibly in another mode. -/
def FixedWindowPolicy.SameWindow (p q : FixedWindowPolicy) : Prop := p.limit = q.limit ∧ p.window = q.window

/-- What the shard of a key knows of its windows. -/
def LastWindow (policy : FixedWindowPolicy) (now : ℕ) (windows : List Window) :
    Option (StoredEntry WindowEntry) → Prop
  | none => ∀ w ∈ windows, w.start + policy.window.millis ≤ now
  | some entry => ∃ closed w, windows = closed ++ [w] ∧ w.start ≤ now ∧
      entry.expiresAtMillis = w.start + policy.window.millis ∧ entry.value.used = cost w.charges

/-- The shard of a key records the history of its charges. -/
structure Records (policy : FixedWindowPolicy) (key : CounterKey) (s : RefShard WindowEntry)
    (windows : List Window) (history : List (ℕ × ℕ)) : Prop where
  anchored : Anchored policy.window.millis windows history
  within : ∀ w ∈ windows, cost w.charges ≤ policy.limit.get
  last : LastWindow policy s.observedMillis windows (s.entries.lookup key)

omit [Sha2] in
/-- A new shard has no history. -/
theorem Records.new : Records policy key RefShard.new [] [] where
  anchored := Anchored.nil
  within := fun _ h => absurd h List.not_mem_nil
  last := fun _ h => absurd h List.not_mem_nil

omit [Sha2] in
/-- Time passes: the last window stays open, or its entry is deleted when it has closed. -/
theorem Records.last_advance {windows : List Window} (h : Records policy key s windows history) {now : ℕ}
    (hobs : s.observedMillis ≤ now) :
    LastWindow policy now windows ((s.advance now).entries.lookup key) := by
  have hlast := h.last
  cases hentry : s.entries.lookup key with
  | none =>
    have hgone : (s.advance now).entries.lookup key = none := by
      by_contra hne
      obtain ⟨entry, hsome⟩ := Option.ne_none_iff_exists'.1 hne
      rw [(RefShard.lookup_advance.1 hsome).1] at hentry
      cases hentry
    rw [hentry] at hlast
    rw [hgone]
    intro w hw
    exact (hlast w hw).trans hobs
  | some entry =>
    rw [hentry] at hlast
    obtain ⟨closed, w, hwindows, hstart, hexpires, hused⟩ := hlast
    -- an entry expires when its window ends
    by_cases hlive : now < entry.expiresAtMillis
    · rw [RefShard.lookup_advance.2 ⟨hentry, hlive⟩]
      exact ⟨closed, w, hwindows, hstart.trans hobs, hexpires, hused⟩
    · have hgone : (s.advance now).entries.lookup key = none := by
        by_contra hne
        obtain ⟨e, hsome⟩ := Option.ne_none_iff_exists'.1 hne
        obtain ⟨he, hlt⟩ := RefShard.lookup_advance.1 hsome
        rw [hentry, Option.some.injEq] at he
        exact hlive (he ▸ hlt)
      rw [hgone]
      -- the earlier windows closed before the last one opened
      have hdisjoint := h.anchored.disjoint
      rw [hwindows, List.pairwise_append] at hdisjoint
      intro v hv
      rw [hwindows] at hv
      rcases List.mem_append.1 hv with hv | hv
      · have := hdisjoint.2.2 v hv w (List.mem_singleton_self w)
        omega
      · rw [List.mem_singleton.1 hv]
        omega

/-- **One call, one history.** -/
theorem keyStep_records (h : KeyStep config fixedWindow key event s s')
    (hpolicy : ∀ c ∈ event.request.checks, c.counterKey = key → c.policy.SameWindow policy)
    {windows : List Window} (hs : Records policy key s windows history) :
    ∃ windows', Records policy key s' windows' (history ++ charges key [event]) := by
  have hcharges : charges key [event] = (event.costs key).map fun cost => (event.nowMillis, cost) :=
    List.flatMap_singleton _ _
  cases h with
  | idle hidle hcosts hsame =>
    -- no charge, and the shard of the key is as it was
    rw [hcharges, hcosts, hsame, List.map_nil, List.append_nil]
    exact ⟨windows, hs⟩
  | passed htouch hcosts hobs hobs' hentry =>
    -- the clock has moved on, and nothing was charged
    rw [hcharges, hcosts, List.map_nil, List.append_nil]
    refine ⟨windows, hs.anchored, hs.within, ?_⟩
    rw [hobs', hentry]
    exact hs.last_advance hobs
  | charged htouch c hc hkey hcosts hobs hobs' entry allowance hevaluate hentry =>
    obtain ⟨hlimit, hwindow⟩ := hpolicy c hc hkey
    have hlast := hs.last_advance hobs
    rw [hcharges, hcosts, List.map_singleton]
    change Except.ok (fixedWindowVerdict c event.nowMillis _) = _ at hevaluate
    rw [Except.ok.injEq] at hevaluate
    cases hlive : (s.advance event.nowMillis).entries.lookup key with
    | none =>
      -- no live window: the charge opens one
      rw [hlive] at hlast hevaluate
      cases hevaluate
      refine ⟨windows ++ [⟨event.nowMillis, [(event.nowMillis, c.cost)]⟩],
        hs.anchored.opened policy.window.pos hlast, ?_, ?_⟩
      · intro w hw
        rcases List.mem_append.1 hw with hw | hw
        · exact hs.within w hw
        · rw [List.mem_singleton.1 hw, ← hlimit]
          exact c.cost_le
      · rw [hentry, hobs']
        exact ⟨windows, _, rfl, le_rfl, by rw [hwindow], rfl⟩
    | some old =>
      -- the charge falls in the live window, which has room for it
      rw [hlive] at hlast hevaluate
      obtain ⟨closed, w, rfl, hstart, hexpires, hused⟩ := hlast
      have hopen := (RefShard.lookup_advance.1 hlive).2
      unfold fixedWindowVerdict at hevaluate
      simp only at hevaluate
      split at hevaluate
      · cases hevaluate
      · rename_i hfits
        cases hevaluate
        have hcost : cost (w.charges ++ [(event.nowMillis, c.cost)]) = old.value.used + c.cost := by
          rw [cost_append, hused]
          rfl
        refine ⟨closed ++ [⟨w.start, w.charges ++ [(event.nowMillis, c.cost)]⟩],
          hs.anchored.charged hstart (by omega), ?_, ?_⟩
        · intro v hv
          rcases List.mem_append.1 hv with hv | hv
          · exact hs.within v (List.mem_append_left _ hv)
          · rw [List.mem_singleton.1 hv, hcost, ← hlimit]
            exact Nat.not_lt.1 hfits
        · rw [hentry, hobs']
          exact ⟨closed, _, rfl, hstart, hexpires, hcost.symm⟩

/-! ## Runs -/

/-- Over a run, the histories of the calls are one after the other. -/
theorem outputs_records : ∀ (calls : List (Call FixedWindowPolicy)) (store : RefStore config WindowEntry)
    (windows : List Window) (history : List (ℕ × ℕ)),
    (∀ call ∈ calls, ∀ c ∈ call.request.checks, c.counterKey = key → c.policy.SameWindow policy) →
    Records policy key (store (config.shardIndex key)) windows history →
    ∃ windows', Records policy key
      (Machine.final (RefStore.serve fixedWindow) store calls (config.shardIndex key)) windows'
      (history ++ charges key (Machine.outputs (RefStore.serve fixedWindow) store calls)) := by
  intro calls
  induction calls with
  | nil =>
    intro store windows history _ h
    exact ⟨windows, by rw [Machine.final_nil, Machine.outputs_nil]; simpa [charges] using h⟩
  | cons call rest ih =>
    intro store windows history hcalls h
    rw [List.forall_mem_cons] at hcalls
    obtain ⟨windows', h'⟩ := keyStep_records (RefStore.serve_keyStep fixedWindow call store key) hcalls.1 h
    obtain ⟨windows'', h''⟩ := ih _ windows' _ hcalls.2 h'
    refine ⟨windows'', ?_⟩
    rw [Machine.final_cons, Machine.outputs_cons]
    unfold charges at h'' ⊢
    rw [List.flatMap_singleton, List.append_assoc] at h''
    rw [List.flatMap_cons]
    exact h''

/-- **The admission bound.** In every run the allowed checks of a key partition into anchored
windows, each of which costs at most the limit; so every interval of the length of a window
costs at most twice the limit. -/
theorem fixedWindow_admission_bound (config : MemoryStoreConfig) (calls : List (Call FixedWindowPolicy))
    (known : Set FixedWindowPolicy) (hfree : Set.InjOn Sha2.sha256 (FixedWindowPolicy.preimage '' known))
    (hcalls : policies calls ⊆ known) (policy : FixedWindowPolicy) (hpolicy : policy ∈ known)
    (subject : SubjectKey) :
    (∃ windows, Anchored policy.window.millis windows
        (charges ⟨policy.fingerprint, subject⟩ (MemoryStore.run config calls)) ∧
      ∀ w ∈ windows, cost w.charges ≤ policy.limit.get) ∧
    ∀ start, cost (between start policy.window.millis
      (charges ⟨policy.fingerprint, subject⟩ (MemoryStore.run config calls))) ≤ 2 * policy.limit.get := by
  have hsame : ∀ call ∈ calls, ∀ c ∈ call.request.checks,
      c.counterKey = ⟨policy.fingerprint, subject⟩ → c.policy.SameWindow policy := by
    intro call hcall c hc hkey
    have hc' : c.policy ∈ known := hcalls ⟨call, hcall, c, hc, rfl⟩
    have hfingerprint : Sha2.sha256 c.policy.preimage = Sha2.sha256 policy.preimage :=
      congrArg CounterKey.fingerprint hkey
    have hpreimage := hfree (Set.mem_image_of_mem _ hc') (Set.mem_image_of_mem _ hpolicy) hfingerprint
    exact (FixedWindowPolicy.preimage_inj hpreimage).2.2
  obtain ⟨windows, h⟩ := outputs_records calls (RefStore.new config) [] [] hsame Records.new
  rw [List.nil_append] at h
  rw [(MemoryStore.run_refines hfree hcalls config).1]
  exact ⟨⟨windows, h.anchored, h.within⟩, h.anchored.cost_between_le h.within⟩

/-- Two searches in one window, the second in a batch at a clock that has gone back, and one in
the next window. -/
def searchCalls : letI := vectorSha2; List (Call FixedWindowPolicy) :=
  letI := vectorSha2
  [⟨Duration.fromMillis 5, .check ⟨searchPolicy, Digest.replicate 1, 2, Nat.two_pos, by decide⟩⟩,
    ⟨Duration.fromMillis 3, .checkAll
      [Check.new searchPolicy (Digest.replicate 1), Check.new loginPolicy (Digest.replicate 2)]⟩,
    ⟨Duration.fromMillis 1200, .check (Check.new searchPolicy (Digest.replicate 1))⟩]

omit [Sha2] in
theorem fixedWindow_admission_bound_search :
    letI := vectorSha2
    charges ⟨searchPolicy.fingerprint, Digest.replicate 1⟩ (MemoryStore.run pairConfig searchCalls) =
        [(5, 2), (5, 1), (1200, 1)] ∧
      (∃ windows, Anchored 1000 windows
          (charges ⟨searchPolicy.fingerprint, Digest.replicate 1⟩
            (MemoryStore.run pairConfig searchCalls)) ∧
        ∀ w ∈ windows, cost w.charges ≤ 3) ∧
      ∀ start, cost (between start 1000
        (charges ⟨searchPolicy.fingerprint, Digest.replicate 1⟩
          (MemoryStore.run pairConfig searchCalls))) ≤ 2 * 3 := by
  let := vectorSha2
  have hsub : policies searchCalls ⊆ {loginPolicy, searchPolicy} := by
    rintro p ⟨call, hcall, c, hc, rfl⟩
    unfold searchCalls at hcall
    simp only [List.mem_cons, List.not_mem_nil, or_false] at hcall
    rcases hcall with rfl | rfl | rfl
    · rw [List.mem_singleton.1 hc]
      exact Or.inr rfl
    · rcases List.mem_pair.1 hc with rfl | rfl
      · exact Or.inr rfl
      · exact Or.inl rfl
    · rw [List.mem_singleton.1 hc]
      exact Or.inr rfl
  exact ⟨by decide +kernel, fixedWindow_admission_bound pairConfig searchCalls
    {loginPolicy, searchPolicy} vector_fixedWindow_injOn hsub searchPolicy (Or.inr rfl) (Digest.replicate 1)⟩

end Runlimit
