import Runlimit.Finite.Table

/-!
# Transactions over a table with a ledger

A table whose rows belong to shards, and a ledger that counts the rows of each shard. Concurrent
transactions lock rows and shards until they end; a transaction works on its own versions of what
it has locked and sees the committed versions elsewhere (`Txn.view`), and a commit makes its
view the committed tables.

What the ledger needs is local: a statement that adds or removes rows of a shard has locked the
shard and has counted what it did (`Inv.ran`). From that, `Inv` holds along every interleaving:
in every committed state, and in the view of every transaction of the shards it has locked, each
count is the number of rows, and is within its bound.
-/

namespace Ledger

variable {K V S L : Type}

@[ext]
structure Tables (K V S L : Type) where
  ledger : S → L
  rows : Table K V

/-- What a transaction has locked, and its own versions. -/
structure Txn (K V S L : Type) where
  rows : Finset K
  shards : Finset S
  own : Tables K V S L

variable [DecidableEq K] [DecidableEq S]

namespace Txn

/-- A transaction that has locked nothing. -/
def new (committed : Tables K V S L) : Txn K V S L := ⟨∅, ∅, committed⟩

/-- What a transaction sees: its own versions where it holds the lock. -/
def view (t : Txn K V S L) (committed : Tables K V S L) : Tables K V S L :=
  ⟨t.shards.piecewise t.own.ledger committed.ledger, Finmap.override t.rows t.own.rows committed.rows⟩

/-- Locks rows and shards as they are. -/
def lock (t : Txn K V S L) (rows : Finset K) (shards : Finset S) (committed : Tables K V S L) : Txn K V S L :=
  ⟨t.rows ∪ rows, t.shards ∪ shards, t.view committed⟩

/-- Locks rows and shards and writes them. -/
def write (t : Txn K V S L) (rows : Finset K) (shards : Finset S) (written : Tables K V S L) : Txn K V S L :=
  ⟨t.rows ∪ rows, t.shards ∪ shards, written⟩

variable {t u : Txn K V S L} {c c' : Tables K V S L}

/-- A new transaction sees what is committed. -/
@[simp]
theorem view_new (c : Tables K V S L) : (new c).view c = c := by
  refine Tables.ext ?_ (Finmap.ext_lookup fun k => ?_)
  · unfold view new
    simp
  · unfold view new
    simp

/-- Which version of a ledger row is seen depends on its lock. -/
theorem view_ledger (s : S) : (t.view c).ledger s = if s ∈ t.shards then t.own.ledger s else c.ledger s := rfl

/-- And so for the rows. -/
theorem view_lookup (k : K) :
    (t.view c).rows.lookup k = if k ∈ t.rows then t.own.rows.lookup k else c.rows.lookup k :=
  Finmap.lookup_override _ _ _ _

/-- A written version is seen where it is locked, and is the committed one elsewhere. -/
theorem view_write {rows : Finset K} {shards : Finset S} {written : Tables K V S L}
    (hledger : ∀ s, s ∉ t.shards ∪ shards → written.ledger s = c.ledger s)
    (hrows : ∀ k, k ∉ t.rows ∪ rows → written.rows.lookup k = c.rows.lookup k) :
    (t.write rows shards written).view c = written := by
  refine Tables.ext (funext fun s => ?_) (Finmap.ext_lookup fun k => ?_)
  · rw [view_ledger]
    split
    · rfl
    · rename_i hs
      exact (hledger s hs).symm
  · rw [view_lookup]
    split
    · rfl
    · rename_i hk
      exact (hrows k hk).symm

/-- A lock changes nothing of what is seen. -/
@[simp]
theorem view_lock (t : Txn K V S L) (rows : Finset K) (shards : Finset S) (c : Tables K V S L) :
    (t.lock rows shards c).view c = t.view c := by
  refine view_write (fun s hs => ?_) (fun k hk => ?_)
  · rw [view_ledger, if_neg fun h => hs (Finset.mem_union_left _ h)]
  · rw [view_lookup, if_neg fun h => hk (Finset.mem_union_left _ h)]

end Txn

/-- The next lock of a list is taken: what was held or on the list is held, or still on it. -/
theorem held_or_left {α : Type} [DecidableEq α] {held : Finset α} {todo : List α} {a b : α}
    (h : b ∈ held ∨ b ∈ a :: todo) : b ∈ held ∪ {a} ∨ b ∈ todo := by
  rcases h with hheld | htodo
  · exact Or.inl (Finset.mem_union_left _ hheld)
  · exact (List.mem_cons.1 htodo).imp_left fun heq => Finset.mem_union_right _ (Finset.mem_singleton.2 heq)

/-! ## Exact ledgers -/

section Exact

variable (count : L → ℕ) (shardOf : K → S) (maximum : ℕ)

/-- The keys of the rows of a shard. -/
def Tables.inShard (c : Tables K V S L) (s : S) : Finset K := c.rows.keys.filter fun k => shardOf k = s

/-- The ledger counts the rows of a shard, which are not too many. -/
structure Tables.ExactAt (c : Tables K V S L) (s : S) : Prop where
  count_eq : count (c.ledger s) = (c.inShard shardOf s).card
  count_le : count (c.ledger s) ≤ maximum

/-- What a transaction keeps: its locked shards are counted, and the others have their rows. -/
structure Txn.Good (t : Txn K V S L) (c : Tables K V S L) : Prop where
  exact : ∀ s ∈ t.shards, (t.view c).ExactAt count shardOf maximum s
  same : ∀ k, shardOf k ∉ t.shards → (k ∈ (t.view c).rows.keys ↔ k ∈ c.rows.keys)

variable {I : Type} [DecidableEq I]

/-- What every interleaving keeps. -/
structure Inv (c : Tables K V S L) (txns : I → Option (Txn K V S L)) : Prop where
  exact : ∀ s, c.ExactAt count shardOf maximum s
  exclusive : ∀ i j t u, i ≠ j → txns i = some t → txns j = some u →
    Disjoint t.rows u.rows ∧ Disjoint t.shards u.shards
  good : ∀ i t, txns i = some t → t.Good count shardOf maximum c

variable {count shardOf maximum} {c c' : Tables K V S L} {t t' : Txn K V S L} {txns : I → Option (Txn K V S L)} {i : I}

omit [DecidableEq K] in
/-- Rows of a shard are counted alike where they have the same keys. -/
theorem Tables.ExactAt.congr {s : S} (h : c.ExactAt count shardOf maximum s) (hledger : c'.ledger s = c.ledger s)
    (hrows : ∀ k, shardOf k = s → (k ∈ c'.rows.keys ↔ k ∈ c.rows.keys)) : c'.ExactAt count shardOf maximum s := by
  have hkeys : c'.inShard shardOf s = c.inShard shardOf s := by
    ext k
    unfold Tables.inShard
    rw [Finset.mem_filter, Finset.mem_filter]
    exact and_congr_left fun hk => hrows k hk
  exact ⟨by rw [hledger, hkeys]; exact h.count_eq, by rw [hledger]; exact h.count_le⟩

/-- Rows are counted by shard, each once. -/
theorem card_filter_toFinset {l : List K} (hnodup : l.Nodup) (s : S) :
    (l.toFinset.filter fun k => shardOf k = s).card = (l.map shardOf).count s := by
  have hfilter : (l.toFinset.filter fun k => shardOf k = s) = (l.filter fun k => decide (shardOf k = s)).toFinset := by
    ext k
    rw [Finset.mem_filter, List.mem_toFinset, List.mem_toFinset, List.mem_filter, decide_eq_true_iff]
  rw [hfilter, List.toFinset_card_of_nodup (hnodup.filter _), List.count, List.countP_map,
    List.countP_eq_length_filter]
  congr 1

/-- A statement counts the rows it adds. -/
theorem Tables.ExactAt.grown {s : S} {added : List K} (h : c.ExactAt count shardOf maximum s) (hnodup : added.Nodup)
    (habsent : ∀ k ∈ added, k ∉ c.rows.keys) (hkeys : ∀ k, k ∈ c'.rows.keys ↔ k ∈ c.rows.keys ∨ k ∈ added)
    (hcount : count (c'.ledger s) = count (c.ledger s) + (added.map shardOf).count s)
    (hle : count (c'.ledger s) ≤ maximum) : c'.ExactAt count shardOf maximum s := by
  refine ⟨?_, hle⟩
  have hunion : c'.inShard shardOf s = c.inShard shardOf s ∪ added.toFinset.filter fun k => shardOf k = s := by
    ext k
    unfold Tables.inShard
    rw [Finset.mem_union, Finset.mem_filter, Finset.mem_filter, Finset.mem_filter, hkeys, List.mem_toFinset, or_and_right]
  -- the rows that are added were not there
  have hdisjoint : Disjoint (c.inShard shardOf s) (added.toFinset.filter fun k => shardOf k = s) := by
    refine Finset.disjoint_left.2 fun k hk hadded => ?_
    exact habsent k (List.mem_toFinset.1 (Finset.mem_filter.1 hadded).1) (Finset.mem_filter.1 hk).1
  rw [hcount, h.count_eq, hunion, Finset.card_union_of_disjoint hdisjoint, card_filter_toFinset hnodup]

/-- A statement counts the rows it removes. -/
theorem Tables.ExactAt.shrunk {s : S} {removed : List K} (h : c.ExactAt count shardOf maximum s) (hnodup : removed.Nodup)
    (hpresent : ∀ k ∈ removed, k ∈ c.rows.keys) (hkeys : ∀ k, k ∈ c'.rows.keys ↔ k ∈ c.rows.keys ∧ k ∉ removed)
    (hcount : count (c'.ledger s) + (removed.map shardOf).count s = count (c.ledger s)) :
    c'.ExactAt count shardOf maximum s := by
  refine ⟨?_, by have := h.count_le; omega⟩
  have hsdiff : c'.inShard shardOf s = c.inShard shardOf s \ removed.toFinset.filter fun k => shardOf k = s := by
    ext k
    unfold Tables.inShard
    rw [Finset.mem_sdiff, Finset.mem_filter, Finset.mem_filter, Finset.mem_filter, hkeys, List.mem_toFinset]
    tauto
  have hsubset : (removed.toFinset.filter fun k => shardOf k = s) ⊆ c.inShard shardOf s := by
    intro k hk
    obtain ⟨hmem, hshard⟩ := Finset.mem_filter.1 hk
    exact Finset.mem_filter.2 ⟨hpresent k (List.mem_toFinset.1 hmem), hshard⟩
  have hcard := Finset.card_sdiff_add_card_eq_card hsubset
  rw [← hsdiff, card_filter_toFinset hnodup, ← h.count_eq] at hcard
  omega

omit [DecidableEq I] in
/-- No transaction, and the tables as they were counted. -/
theorem Inv.start (h : ∀ s, c.ExactAt count shardOf maximum s) :
    Inv count shardOf maximum c (fun _ : I => none) where
  exact := h
  exclusive i j t u _ ht := by cases ht
  good i t ht := by cases ht

/-- A transaction that ends without a commit leaves everything as it is. -/
theorem Inv.ended (h : Inv count shardOf maximum c txns) (i : I) :
    Inv count shardOf maximum c (Function.update txns i none) where
  exact := h.exact
  exclusive j k t u hne ht hu := by
    by_cases hj : j = i
    · rw [hj, Function.update_self] at ht
      cases ht
    · by_cases hk : k = i
      · rw [hk, Function.update_self] at hu
        cases hu
      · rw [Function.update_of_ne hj] at ht
        rw [Function.update_of_ne hk] at hu
        exact h.exclusive j k t u hne ht hu
  good j t ht := by
    by_cases hj : j = i
    · rw [hj, Function.update_self] at ht
      cases ht
    · rw [Function.update_of_ne hj] at ht
      exact h.good j t ht

/-- One transaction changes its locks and its versions. -/
theorem Inv.changed (h : Inv count shardOf maximum c txns) (hgood : t'.Good count shardOf maximum c)
    (hfree : ∀ j u, j ≠ i → txns j = some u → Disjoint t'.rows u.rows ∧ Disjoint t'.shards u.shards) :
    Inv count shardOf maximum c (Function.update txns i (some t')) where
  exact := h.exact
  exclusive j k t u hne ht hu := by
    -- against the transaction that has changed, on either side
    by_cases hj : j = i
    · rw [hj, Function.update_self, Option.some.injEq] at ht
      have hk : k ≠ i := fun hk => hne (hj.trans hk.symm)
      rw [Function.update_of_ne hk] at hu
      rw [← ht]
      exact hfree k u hk hu
    · rw [Function.update_of_ne hj] at ht
      by_cases hk : k = i
      · rw [hk, Function.update_self, Option.some.injEq] at hu
        rw [← hu]
        exact ⟨(hfree j t hj ht).1.symm, (hfree j t hj ht).2.symm⟩
      · rw [Function.update_of_ne hk] at hu
        exact h.exclusive j k t u hne ht hu
  good j u hu := by
    by_cases hj : j = i
    · rw [hj, Function.update_self, Option.some.injEq] at hu
      rw [← hu]
      exact hgood
    · rw [Function.update_of_ne hj] at hu
      exact h.good j u hu

/-- A new transaction holds no lock. -/
theorem Inv.began (h : Inv count shardOf maximum c txns) (i : I) :
    Inv count shardOf maximum c (Function.update txns i (some (Txn.new c))) := by
  refine h.changed ⟨?_, ?_⟩ ?_
  · intro s hs
    cases hs
  · intro k _
    rw [Txn.view_new]
  · intro j u _ _
    exact ⟨Finset.disjoint_empty_left _, Finset.disjoint_empty_left _⟩

/-- A shard is counted exactly in the view of a transaction, locked or not. -/
theorem Txn.Good.exactAt (hgood : t.Good count shardOf maximum c) (hc : ∀ s, c.ExactAt count shardOf maximum s)
    (s : S) : (t.view c).ExactAt count shardOf maximum s := by
  by_cases hs : s ∈ t.shards
  · exact hgood.exact s hs
  · refine (hc s).congr ?_ ?_
    · rw [Txn.view_ledger, if_neg hs]
    · intro k hk
      exact hgood.same k (by rw [hk]; exact hs)

/-- **A statement.** It counts what it does to the shards it has locked, and leaves the rows of the
others. -/
theorem Inv.ran (h : Inv count shardOf maximum c txns) (ht : txns i = some t)
    (hgrows : t.shards ⊆ t'.shards)
    (hcounts : ∀ s ∈ t'.shards, (t.view c).ExactAt count shardOf maximum s →
      (t'.view c).ExactAt count shardOf maximum s)
    (hsame : ∀ k, shardOf k ∉ t'.shards → (k ∈ (t'.view c).rows.keys ↔ k ∈ (t.view c).rows.keys))
    (hfree : ∀ j u, j ≠ i → txns j = some u → Disjoint t'.rows u.rows ∧ Disjoint t'.shards u.shards) :
    Inv count shardOf maximum c (Function.update txns i (some t')) := by
  have hgood := h.good i t ht
  refine h.changed ⟨fun s hs => hcounts s hs (hgood.exactAt h.exact s), fun k hk => ?_⟩ hfree
  rw [hsame k hk]
  exact hgood.same k fun hshard => hk (hgrows hshard)

/-- A statement that changes some rows, and counts what it does in some shards. -/
structure Counted (count : L → ℕ) (shardOf : K → S) (maximum : ℕ) (c c' : Tables K V S L) (rows : Finset K)
    (shards : Finset S) : Prop where
  lookup : ∀ k ∉ rows, c'.rows.lookup k = c.rows.lookup k
  counts : ∀ s ∉ shards, c'.ledger s = c.ledger s
  keys : ∀ k, shardOf k ∉ shards → (k ∈ c'.rows.keys ↔ k ∈ c.rows.keys)
  exact : ∀ s, c.ExactAt count shardOf maximum s → c'.ExactAt count shardOf maximum s

/-- More may be said to change. -/
theorem Counted.mono {rows rows' : Finset K} {shards shards' : Finset S}
    (h : Counted count shardOf maximum c c' rows shards) (hrows : rows ⊆ rows') (hshards : shards ⊆ shards') :
    Counted count shardOf maximum c c' rows' shards' where
  lookup k hk := h.lookup k fun hmem => hk (hrows hmem)
  counts s hs := h.counts s fun hmem => hs (hshards hmem)
  keys k hk := h.keys k fun hmem => hk (hshards hmem)
  exact := h.exact

/-- Nothing changes. -/
theorem Counted.refl (c : Tables K V S L) : Counted count shardOf maximum c c ∅ ∅ :=
  ⟨fun _ _ => rfl, fun _ _ => rfl, fun _ _ => Iff.rfl, fun _ h => h⟩

/-- One statement after another. -/
theorem Counted.trans {c'' : Tables K V S L} {rows rows' : Finset K} {shards shards' : Finset S}
    (h : Counted count shardOf maximum c c' rows shards) (h' : Counted count shardOf maximum c' c'' rows' shards') :
    Counted count shardOf maximum c c'' (rows ∪ rows') (shards ∪ shards') where
  lookup k hk := by
    rw [Finset.mem_union, not_or] at hk
    rw [h'.lookup k hk.2, h.lookup k hk.1]
  counts s hs := by
    rw [Finset.mem_union, not_or] at hs
    rw [h'.counts s hs.2, h.counts s hs.1]
  keys k hk := by
    rw [Finset.mem_union, not_or] at hk
    rw [h'.keys k hk.2, h.keys k hk.1]
  exact s hexact := h'.exact s (h.exact s hexact)

/-- A transaction writes what it has locked and nothing else, and sees what it wrote. -/
theorem Txn.view_wrote {rows : Finset K} {shards : Finset S}
    (h : Counted count shardOf maximum (t.view c) c' rows shards) : (t.write rows shards c').view c = c' := by
  refine view_write ?_ ?_
  · intro s hs
    rw [Finset.mem_union, not_or] at hs
    rw [h.counts s hs.2, view_ledger, if_neg hs.1]
  · intro k hk
    rw [Finset.mem_union, not_or] at hk
    rw [h.lookup k hk.2, view_lookup, if_neg hk.1]

/-- A lock is a statement that writes nothing. -/
theorem Inv.locked (h : Inv count shardOf maximum c txns) (ht : txns i = some t) {rows : Finset K} {shards : Finset S}
    (hfree : ∀ j u, j ≠ i → txns j = some u →
      Disjoint (t.lock rows shards c).rows u.rows ∧ Disjoint (t.lock rows shards c).shards u.shards) :
    Inv count shardOf maximum c (Function.update txns i (some (t.lock rows shards c))) := by
  refine h.ran ht Finset.subset_union_left ?_ ?_ hfree
  · intro s _ hexact
    rw [Txn.view_lock]
    exact hexact
  · intro k _
    rw [Txn.view_lock]

/-- A counted statement keeps the invariant. -/
theorem Inv.wrote (h : Inv count shardOf maximum c txns) (ht : txns i = some t) {rows : Finset K} {shards : Finset S}
    (hcounted : Counted count shardOf maximum (t.view c) c' rows shards)
    (hfree : ∀ j u, j ≠ i → txns j = some u →
      Disjoint (t.write rows shards c').rows u.rows ∧ Disjoint (t.write rows shards c').shards u.shards) :
    Inv count shardOf maximum c (Function.update txns i (some (t.write rows shards c'))) := by
  refine h.ran ht Finset.subset_union_left ?_ ?_ hfree
  · intro s _ hexact
    rw [Txn.view_wrote hcounted]
    exact hcounted.exact s hexact
  · intro k hk
    rw [Txn.view_wrote hcounted]
    exact hcounted.keys k fun hmem => hk (Finset.mem_union_right _ hmem)

/-- **A commit.** The locks of the others keep what they see in place. -/
theorem Inv.committed (h : Inv count shardOf maximum c txns) (ht : txns i = some t) :
    Inv count shardOf maximum (t.view c) (Function.update txns i none) where
  exact := (h.good i t ht).exactAt h.exact
  exclusive := (h.ended i).exclusive
  good j u hu := by
    by_cases hj : j = i
    · rw [hj, Function.update_self] at hu
      cases hu
    · rw [Function.update_of_ne hj] at hu
      have hgood := h.good j u hu
      obtain ⟨hrows, hshards⟩ := h.exclusive i j t u (Ne.symm hj) ht hu
      -- a row of a shard that the other has locked is there or not, as before
      have hkeys : ∀ k, shardOf k ∈ u.shards → (k ∈ (t.view c).rows.keys ↔ k ∈ c.rows.keys) :=
        fun k hk => (h.good i t ht).same k fun hmem => Finset.disjoint_left.1 hshards hmem hk
      have hview : ∀ k, shardOf k ∈ u.shards → (k ∈ (u.view (t.view c)).rows.keys ↔ k ∈ (u.view c).rows.keys) := by
        intro k hk
        by_cases hlocked : k ∈ u.rows
        · exact Finmap.mem_keys_congr (by rw [Txn.view_lookup, if_pos hlocked, Txn.view_lookup, if_pos hlocked])
        · have hnew : k ∈ (u.view (t.view c)).rows.keys ↔ k ∈ (t.view c).rows.keys :=
            Finmap.mem_keys_congr (by rw [Txn.view_lookup, if_neg hlocked])
          have hold : k ∈ (u.view c).rows.keys ↔ k ∈ c.rows.keys :=
            Finmap.mem_keys_congr (by rw [Txn.view_lookup, if_neg hlocked])
          rw [hnew, hold]
          exact hkeys k hk
      refine ⟨fun s hs => (hgood.exact s hs).congr ?_ ?_, fun k hk => ?_⟩
      · rw [Txn.view_ledger, if_pos hs, Txn.view_ledger, if_pos hs]
      · rintro k rfl
        exact hview k hs
      · by_cases hlocked : k ∈ u.rows
        · -- its own row, which the commit has not touched
          have hnot : k ∉ t.rows := fun hmem => Finset.disjoint_left.1 hrows hmem hlocked
          have hcommitted : k ∈ (t.view c).rows.keys ↔ k ∈ c.rows.keys :=
            Finmap.mem_keys_congr (by rw [Txn.view_lookup, if_neg hnot])
          have hsame : k ∈ (u.view (t.view c)).rows.keys ↔ k ∈ (u.view c).rows.keys :=
            Finmap.mem_keys_congr (by rw [Txn.view_lookup, if_pos hlocked, Txn.view_lookup, if_pos hlocked])
          rw [hsame, hcommitted]
          exact hgood.same k hk
        · exact Finmap.mem_keys_congr (by rw [Txn.view_lookup, if_neg hlocked])

/-! ## What the locks keep -/

/-- What a transaction has locked is the same in two committed states, and so are the keys of the shards it has
locked. -/
structure Undisturbed (shardOf : K → S) (c c' : Tables K V S L) (t : Txn K V S L) : Prop where
  rows : ∀ k ∈ t.rows, c'.rows.lookup k = c.rows.lookup k
  shards : ∀ s ∈ t.shards, c'.ledger s = c.ledger s
  keys : ∀ k, shardOf k ∈ t.shards → (k ∈ c'.rows.keys ↔ k ∈ c.rows.keys)

/-- A transaction that has written nothing still sees the committed tables. -/
theorem Undisturbed.clean (h : Undisturbed shardOf c c' t) (hclean : t.view c = c) : t.view c' = c' := by
  refine Tables.ext (funext fun s => ?_) (Finmap.ext_lookup fun k => ?_)
  · have hs := congrFun (congrArg Tables.ledger hclean) s
    rw [Txn.view_ledger] at hs ⊢
    split
    · rename_i hmem
      rw [if_pos hmem] at hs
      rw [hs, h.shards s hmem]
    · rfl
  · have hk : (t.view c).rows.lookup k = c.rows.lookup k :=
      congrArg (fun tables => Finmap.lookup k (Tables.rows tables)) hclean
    rw [Txn.view_lookup] at hk ⊢
    split
    · rename_i hmem
      rw [if_pos hmem] at hk
      rw [hk, h.rows k hmem]
    · rfl

omit [DecidableEq I] in
/-- A commit leaves what another transaction has locked. -/
theorem Inv.undisturbed (h : Inv count shardOf maximum c txns) {j : I} (hne : j ≠ i) (ht : txns i = some t)
    (hu : txns j = some t') : Undisturbed shardOf c (t.view c) t' := by
  obtain ⟨hrows, hshards⟩ := h.exclusive i j t t' (Ne.symm hne) ht hu
  refine ⟨fun k hk => ?_, fun s hs => ?_, fun k hk => ?_⟩
  · rw [Txn.view_lookup, if_neg fun hmem => Finset.disjoint_left.1 hrows hmem hk]
  · rw [Txn.view_ledger, if_neg fun hmem => Finset.disjoint_left.1 hshards hmem hs]
  · exact (h.good i t ht).same k fun hmem => Finset.disjoint_left.1 hshards hmem hk

end Exact

end Ledger
