import Runlimit.Proof.Batch
import Runlimit.Proof.Postgres
import Runlimit.Spec.PgWindows

/-!
# A batch of the durable windows is one scan

The decision about a batch is put together from two queries that look at different inputs: the
capacity preflight sees the inputs without a row, the quota preflight those with an active one, and
each goes on past the inputs the other would refuse. Both are the search for the first input that
something refuses, given the inputs before it (`firstWhere`), and the merge by the smaller index is the
search for the first input that either refuses (`firstOf_firstWhere`). Where nothing is refused the
upsert consumes every input (`upsertBatch_eq`); `executeBatch_eq` puts the pieces together.
-/

namespace Runlimit

namespace PgWindows

variable [Sha2]

/-! ## The first refusal -/

/-- The first input something refuses, given the inputs before it. -/
def firstWhere (refuse : List (Check FixedWindowPolicy) → Check FixedWindowPolicy → Option PendingDenial) :
    List (Check FixedWindowPolicy) → List (Check FixedWindowPolicy) → Option (ℕ × PendingDenial)
  | _, [] => none
  | before, c :: rest =>
    match refuse before c with
    | some denial => some (before.length, denial)
    | none => firstWhere refuse (before ++ [c]) rest

variable {refuse refuse' : List (Check FixedWindowPolicy) → Check FixedWindowPolicy → Option PendingDenial}

/-- The first refusal is not before the scan began. -/
theorem le_firstWhere : ∀ {rest before : List (Check FixedWindowPolicy)} {index : ℕ} {denial : PendingDenial},
    firstWhere refuse before rest = some (index, denial) → before.length ≤ index := by
  intro rest
  induction rest with
  | nil =>
    intro before index denial h
    cases h
  | cons c rest ih =>
    intro before index denial h
    unfold firstWhere at h
    split at h
    · cases h
      exact le_rfl
    · have hle := ih h
      rw [List.length_append, List.length_singleton] at hle
      omega

/-- **Two searches, merged by the smaller index, are one.** On a tie the second one decides. -/
theorem firstOf_firstWhere : ∀ (rest before : List (Check FixedWindowPolicy)),
    firstOf (firstWhere refuse before rest) (firstWhere refuse' before rest) =
      firstWhere (fun before c => refuse' before c <|> refuse before c) before rest := by
  intro rest
  induction rest with
  | nil => exact fun _ => rfl
  | cons c rest ih =>
    intro before
    have hrest := ih (before ++ [c])
    -- whatever a search finds later has a greater index
    have hlater : ∀ {r index denial}, firstWhere r (before ++ [c]) rest = some (index, denial) → before.length < index := by
      intro r index denial h
      have hle := le_firstWhere h
      rw [List.length_append, List.length_singleton] at hle
      omega
    unfold firstWhere
    cases hc : refuse before c with
    | none =>
      cases hc' : refuse' before c with
      | none => exact hrest
      | some denial' =>
        cases hfirst : firstWhere refuse (before ++ [c]) rest with
        | none => rfl
        | some found =>
          obtain ⟨index, denial⟩ := found
          have hlt := hlater hfirst
          simp only [firstOf, Option.orElse_eq_orElse, Option.orElse_some]
          rw [if_neg (by omega)]
    | some denial =>
      cases hc' : refuse' before c with
      | none =>
        cases hfirst : firstWhere refuse' (before ++ [c]) rest with
        | none => rfl
        | some found =>
          obtain ⟨index, denial'⟩ := found
          have hlt := hlater hfirst
          simp only [firstOf, Option.orElse_eq_orElse, Option.orElse_none]
          rw [if_pos hlt]
      | some denial' =>
        simp only [firstOf, Option.orElse_eq_orElse, Option.orElse_some]
        rw [if_neg (Nat.lt_irrefl _)]

/-- An input that is refused: its place, and why. -/
def Refused (refuse : List (Check FixedWindowPolicy) → Check FixedWindowPolicy → Option PendingDenial)
    (checks : List (Check FixedWindowPolicy)) (index : ℕ) (denial : PendingDenial) : Prop :=
  ∃ before c after, checks = before ++ c :: after ∧ before.length = index ∧ refuse before c = some denial

/-- The search finds the first refused input. -/
theorem firstWhere_spec : ∀ {rest before checks : List (Check FixedWindowPolicy)}, checks = before ++ rest →
    match firstWhere refuse before rest with
    | some (index, denial) => Refused refuse checks index denial ∧
        ∀ j d, before.length ≤ j → j < index → ¬Refused refuse checks j d
    | none => ∀ j d, before.length ≤ j → ¬Refused refuse checks j d := by
  intro rest
  induction rest with
  | nil =>
    rintro before checks rfl j d hle ⟨before', c, after, hsplit, rfl, -⟩
    have hlength := congrArg List.length hsplit
    rw [List.length_append, List.length_append, List.length_cons, List.length_nil] at hlength
    omega
  | cons c rest ih =>
    rintro before checks rfl
    have hrest := @ih (before ++ [c]) (before ++ c :: rest) (by rw [List.append_assoc]; rfl)
    rw [List.length_append, List.length_singleton] at hrest
    -- an input refused at this place is `c`
    have hhere : ∀ {d}, Refused refuse (before ++ c :: rest) before.length d → refuse before c = some d := by
      rintro d ⟨before', c', after, hsplit, hlength, hd⟩
      obtain ⟨rfl, hcons⟩ := List.append_inj hsplit hlength.symm
      cases hcons
      exact hd
    unfold firstWhere
    cases hc : refuse before c with
    | some denial =>
      exact ⟨⟨before, c, rest, rfl, rfl, hc⟩, fun j d hle hlt => absurd hlt (by omega)⟩
    | none =>
      have hnot : ∀ d, ¬Refused refuse (before ++ c :: rest) before.length d := by
        intro d h
        rw [hhere h] at hc
        cases hc
      simp only
      cases hfirst : firstWhere refuse (before ++ [c]) rest with
      | some found =>
        simp only [hfirst] at hrest ⊢
        refine ⟨hrest.1, ?_⟩
        intro j d hle hlt
        rcases Nat.eq_or_lt_of_le hle with rfl | hgt
        · exact hnot d
        · exact hrest.2 j d hgt hlt
      | none =>
        simp only [hfirst] at hrest ⊢
        intro j d hle
        rcases Nat.eq_or_lt_of_le hle with rfl | hgt
        · exact hnot d
        · exact hrest j d hgt

/-! ## What refuses an input -/

variable {tables : WindowTables} {now maximum : ℕ} {checks : List (Check FixedWindowPolicy)}

/-- Its active row has no room for its cost. -/
def spent (tables : WindowTables) (now : ℕ) (c : Check FixedWindowPolicy) : Option PendingDenial :=
  match tables.rows.lookup c.counterKey with
  | none => none
  | some row =>
    if now < row.expiresAt ∧ c.policy.limit.get - c.cost < row.used then
      some (.quota ⟨c.policy.limit, .ofMicros (row.expiresAt - now)⟩)
    else none

/-- The inputs of a shard that have no row. -/
def rowless (tables : WindowTables) (checks : List (Check FixedWindowPolicy)) (shard : CapacityShard) : ℕ :=
  checks.countP fun c => (tables.rows.lookup c.counterKey).isNone && decide (capacityShard c.counterKey = shard)

/-- It has no row, and its shard no room for one more, after those the inputs before it need. -/
def full (tables : WindowTables) (maximum : ℕ) (before : List (Check FixedWindowPolicy)) (c : Check FixedWindowPolicy) :
    Option PendingDenial :=
  if tables.rows.lookup c.counterKey = none ∧
      maximum < tables.rowCounts (capacityShard c.counterKey) + rowless tables before (capacityShard c.counterKey) + 1 then
    some .storageCapacity
  else none

/-- What refuses an input in its place in the batch. -/
def refusal (tables : WindowTables) (maximum now : ℕ) (before : List (Check FixedWindowPolicy))
    (c : Check FixedWindowPolicy) : Option PendingDenial :=
  spent tables now c <|> full tables maximum before c

/-- A check without a row is one more of its shard. -/
theorem rowless_snoc_none {before : List (Check FixedWindowPolicy)} {c : Check FixedWindowPolicy}
    (h : tables.rows.lookup c.counterKey = none) :
    rowless tables (before ++ [c]) = Function.update (rowless tables before) (capacityShard c.counterKey)
      (rowless tables before (capacityShard c.counterKey) + 1) := by
  funext shard
  unfold rowless
  rw [List.countP_append, List.countP_singleton, h, Option.isNone_none, Bool.true_and]
  by_cases hshard : capacityShard c.counterKey = shard
  · subst hshard
    rw [Function.update_self, if_pos (decide_eq_true rfl)]
  · rw [Function.update_of_ne (Ne.symm hshard), if_neg (by simpa using hshard)]
    rfl

/-- A check with a row is none. -/
theorem rowless_snoc_some {before : List (Check FixedWindowPolicy)} {c : Check FixedWindowPolicy} {row : WindowRow}
    (h : tables.rows.lookup c.counterKey = some row) : rowless tables (before ++ [c]) = rowless tables before := by
  funext shard
  unfold rowless
  rw [List.countP_append, List.countP_singleton, h, Option.isNone_some, Bool.false_and]
  rfl

/-! ## The two preflights -/

/-- **The capacity preflight finds the first input without room.** -/
theorem firstCapacityDenial_eq : ∀ {rest before : List (Check FixedWindowPolicy)}, checks = before ++ rest →
    firstCapacityDenial (checks.map fun c => capacityShard c.counterKey) maximum (rowless tables before)
        (capacityRows ((rest.zipIdx before.length).filterMap fun p =>
          if (tables.rows.lookup p.1.counterKey).isNone then some (p.2, capacityShard p.1.counterKey) else none)
          tables.rowCounts) =
      .ok (firstWhere (full tables maximum) before rest) := by
  intro rest
  induction rest with
  | nil => exact fun _ => rfl
  | cons c rest ih =>
    rintro before rfl
    have hrest := @ih (before ++ [c]) (by rw [List.append_assoc]; rfl)
    rw [List.length_append, List.length_singleton] at hrest
    rw [List.zipIdx_cons, List.filterMap_cons]
    unfold firstWhere full
    cases hrow : tables.rows.lookup c.counterKey with
    | some row =>
      -- a check with a row is not in the answer of the statement
      rw [rowless_snoc_some hrow] at hrest
      simp only [Option.isNone_some, Bool.false_eq_true, if_false, reduceCtorEq, false_and]
      exact hrest
    | none =>
      rw [rowless_snoc_none hrow] at hrest
      simp only [Option.isNone_none, if_true, true_and]
      unfold capacityRows at hrest ⊢
      rw [List.map_cons]
      unfold firstCapacityDenial
      -- the answer names the shard of its own check
      have hshard : (List.map (fun c : Check FixedWindowPolicy => capacityShard c.counterKey)
          (before ++ c :: rest))[before.length]? = some (capacityShard c.counterKey) := by
        rw [List.getElem?_map, List.getElem?_append_right le_rfl, Nat.sub_self]
        rfl
      simp only [hshard, ne_eq, not_true_eq_false, if_false]
      by_cases hfull : maximum < tables.rowCounts (capacityShard c.counterKey) +
          rowless tables before (capacityShard c.counterKey) + 1
      · simp only [if_pos hfull]
      · simp only [if_neg hfull]
        exact hrest

/-- **The quota preflight finds the first input without quota.** -/
theorem firstDenialRow_eq : ∀ {rest before : List (Check FixedWindowPolicy)}, checks = before ++ rest →
    (match firstDenialRow tables now before.length rest with
      | none => .ok none
      | some (index, expiresAt) =>
        match checks[index]? with
        | none => invariant "batch preflight returned an out-of-range input index"
        | some check => do return some (index, .quota ⟨check.policy.limit, ← durationUntil expiresAt now⟩)) =
      (.ok (firstWhere (fun _ => spent tables now) before rest) : Except PgCheckError (Option (ℕ × PendingDenial))) := by
  intro rest
  induction rest with
  | nil => exact fun _ => rfl
  | cons c rest ih =>
    rintro before rfl
    have hrest := @ih (before ++ [c]) (by rw [List.append_assoc]; rfl)
    rw [List.length_append, List.length_singleton] at hrest
    unfold firstDenialRow firstWhere spent
    cases hrow : tables.rows.lookup c.counterKey with
    | none => exact hrest
    | some row =>
      simp only
      by_cases hspent : now < row.expiresAt ∧ c.policy.limit.get - c.cost < row.used
      · have hcheck : (before ++ c :: rest)[before.length]? = some c := by
          rw [List.getElem?_append_right le_rfl, Nat.sub_self]
          rfl
        have huntil : durationUntil row.expiresAt now = .ok (.ofMicros (row.expiresAt - now)) :=
          if_neg (Nat.not_lt.2 hspent.1.le)
        simp only [if_pos hspent, hcheck, huntil, except_ok_bind, except_pure]
      · simp only [if_neg hspent]
        exact hrest

/-- **The quota preflight** finds the first check whose quota is spent. -/
theorem preflightBatch_eq :
    preflightBatch tables now checks = .ok (firstWhere (fun _ => spent tables now) [] checks) :=
  @firstDenialRow_eq _ tables now checks checks [] rfl

/-- **The capacity preflight** finds the first check for which its shard has no room. -/
theorem capacityPreflight_eq :
    firstCapacityDenial (checks.map fun c => capacityShard c.counterKey) maximum (fun _ => 0)
        (capacityRows (missingKeys tables checks) tables.rowCounts) =
      .ok (firstWhere (full tables maximum) [] checks) :=
  @firstCapacityDenial_eq _ tables maximum checks checks [] rfl

omit [Sha2] in
theorem firstOf_eq_none {capacity quota : Option (ℕ × PendingDenial)} (h : firstOf capacity quota = none) :
    capacity = none ∧ quota = none := by
  cases capacity with
  | none =>
    cases quota with
    | none => exact ⟨rfl, rfl⟩
    | some quota => cases h
  | some capacity =>
    cases quota with
    | none => cases h
    | some quota => cases h

/-! ## The upsert -/

/-- The row an input leaves: a new window at the sample, or more usage of the active one. -/
def consumed (now : ℕ) (c : Check FixedWindowPolicy) : Option WindowRow → WindowRow
  | none => ⟨now, now + windowMicros c, c.cost⟩
  | some row =>
    if row.expiresAt ≤ now then ⟨now, now + windowMicros c, c.cost⟩ else { row with used := row.used + c.cost }

/-- The row of an input of the batch afterwards. -/
def consumedRow (tables : WindowTables) (now : ℕ) (c : Check FixedWindowPolicy) : WindowRow :=
  consumed now c (tables.rows.lookup c.counterKey)

/-- What an input is granted: what its row has left, until the window closes. -/
def granted (tables : WindowTables) (now : ℕ) (c : Check FixedWindowPolicy) : PendingAllowance :=
  ⟨⟨c.policy.limit, c.policy.limit.get - (consumedRow tables now c).used,
    ⟨.ofMicros ((consumedRow tables now c).expiresAt - now)⟩, Nat.sub_le _ _⟩⟩

/-- A window takes time. -/
theorem windowMicros_pos (c : Check FixedWindowPolicy) : 0 < windowMicros c := by
  have hpos := c.policy.window.pos
  unfold windowMicros
  omega

/-- A check costs at most its limit. -/
theorem cost_le_limit (c : Check FixedWindowPolicy) : c.cost ≤ c.policy.limit.get := c.cost_le

/-- An input with quota is written, and its row is live and within the limit. -/
theorem upserted_of_spent {c : Check FixedWindowPolicy} (h : spent tables now c = none) :
    upserted now c (tables.rows.lookup c.counterKey) = some (consumedRow tables now c) ∧
      now < (consumedRow tables now c).expiresAt ∧ (consumedRow tables now c).used ≤ c.policy.limit.get := by
  have hwindow := windowMicros_pos c
  have hcost := cost_le_limit c
  unfold spent at h
  unfold upserted consumedRow consumed
  cases hrow : tables.rows.lookup c.counterKey with
  | none => exact ⟨rfl, by simp only; omega, hcost⟩
  | some row =>
    simp only [hrow] at h ⊢
    by_cases hexpired : row.expiresAt ≤ now
    · simp only [if_pos hexpired]
      exact ⟨trivial, by omega, hcost⟩
    · have hroom : ¬c.policy.limit.get - c.cost < row.used := by
        intro hused
        rw [if_pos ⟨by omega, hused⟩] at h
        cases h
      simp only [if_neg hexpired, if_pos (Nat.not_lt.1 hroom)]
      exact ⟨trivial, by omega, by omega⟩

/-- The rows the upsert returns, where every input has quota: one for each, in order. -/
theorem upsertedRows_eq (h : ∀ c ∈ checks, spent tables now c = none) :
    upsertedRows tables now checks = checks.zipIdx.map fun p => (p.2, p.1.counterKey, consumedRow tables now p.1) := by
  unfold upsertedRows
  rw [← List.filterMap_eq_map]
  refine List.filterMap_congr ?_
  intro p hp
  have hmem : p.1 ∈ checks := List.fst_mem_of_mem_zipIdx hp
  rw [(upserted_of_spent (h _ hmem)).1]
  rfl

/-- The rows of the upsert are read in order, and each within its limit. -/
theorem readUpserted_eq : ∀ {rest before : List (Check FixedWindowPolicy)}, checks = before ++ rest →
    (∀ c ∈ rest, spent tables now c = none) →
    readUpserted checks now before.length
        ((rest.zipIdx before.length).map fun p => (p.2, p.1.counterKey, consumedRow tables now p.1)) =
      .ok (rest.map (granted tables now)) := by
  intro rest
  induction rest with
  | nil => exact fun _ _ => rfl
  | cons c rest ih =>
    rintro before rfl h
    rw [List.forall_mem_cons] at h
    have hrest := @ih (before ++ [c]) (by rw [List.append_assoc]; rfl) h.2
    rw [List.length_append, List.length_singleton] at hrest
    obtain ⟨-, hlive, hused⟩ := upserted_of_spent h.1
    have hcheck : (before ++ c :: rest)[before.length]? = some c := by
      rw [List.getElem?_append_right le_rfl, Nat.sub_self]
      rfl
    have huntil : durationUntil (consumedRow tables now c).expiresAt now =
        .ok (.ofMicros ((consumedRow tables now c).expiresAt - now)) := if_neg (by omega)
    have hgranted : PendingAllowance.new c.policy.limit (consumedRow tables now c).used
        (.ofMicros ((consumedRow tables now c).expiresAt - now)) = .ok (granted tables now c) := by
      unfold PendingAllowance.new Allowance.new
      rw [if_neg (Nat.not_lt.2 hused), dif_neg (Nat.not_lt.2 (Nat.sub_le _ _))]
      rfl
    rw [List.zipIdx_cons, List.map_cons]
    unfold readUpserted
    simp only [hcheck, huntil, except_ok_bind, ne_eq, not_true_eq_false, if_false, hgranted, hrest]
    rfl

/-! ## The trigger -/

/-- The keys of a shard that the upsert inserts are counted once each. -/
theorem count_shards (checks : List (Check FixedWindowPolicy)) (shard : CapacityShard) :
    (((checks.map Check.counterKey).filter fun key => (tables.rows.lookup key).isNone).map capacityShard).count shard =
      rowless tables checks shard := by
  unfold rowless
  induction checks with
  | nil => rfl
  | cons c rest ih =>
    rw [List.map_cons, List.filter_cons, List.countP_cons, ← ih]
    cases hrow : (tables.rows.lookup c.counterKey).isNone with
    | false => rfl
    | true =>
      rw [if_pos rfl, List.map_cons, List.count_cons, Bool.true_and]
      by_cases hshard : capacityShard c.counterKey = shard
      · simp [hshard]
      · simp [hshard]

/-- Where no input lacks room, the shards have room for all of them. -/
theorem rowless_le : ∀ {rest before : List (Check FixedWindowPolicy)},
    firstWhere (full tables maximum) before rest = none → ∀ shard,
    rowless tables (before ++ rest) shard = rowless tables before shard ∨
      tables.rowCounts shard + rowless tables (before ++ rest) shard ≤ maximum := by
  intro rest
  induction rest with
  | nil => exact fun _ _ => Or.inl (by rw [List.append_nil])
  | cons c rest ih =>
    intro before h shard
    unfold firstWhere at h
    cases hfull : full tables maximum before c with
    | some denial =>
      rw [hfull] at h
      cases h
    | none =>
      rw [hfull] at h
      have hrest := ih h shard
      have hassoc : before ++ c :: rest = (before ++ [c]) ++ rest := by rw [List.append_assoc]; rfl
      rw [hassoc]
      unfold full at hfull
      cases hrow : tables.rows.lookup c.counterKey with
      | some row =>
        rw [rowless_snoc_some hrow] at hrest
        exact hrest
      | none =>
        have hroom : ¬maximum < tables.rowCounts (capacityShard c.counterKey) +
            rowless tables before (capacityShard c.counterKey) + 1 := by
          intro hlt
          rw [if_pos ⟨hrow, hlt⟩] at hfull
          cases hfull
        rcases hrest with hsame | hle
        · -- if the rest adds none, this check was the last of its shard to be counted
          by_cases hshard : shard = capacityShard c.counterKey
          · rw [rowless_snoc_none hrow, hshard, Function.update_self] at hsame
            right
            rw [hshard, hsame]
            omega
          · rw [rowless_snoc_none hrow, Function.update_of_ne hshard] at hsame
            exact Or.inl hsame
        · exact Or.inr hle

/-- What the whole batch leaves behind. -/
def consumedTables (tables : WindowTables) (now : ℕ) (checks : List (Check FixedWindowPolicy)) : WindowTables where
  rowCounts shard := tables.rowCounts shard + rowless tables checks shard
  rows := checks.foldl (fun rows c => rows.insert c.counterKey (consumedRow tables now c)) tables.rows

/-- The writes of a batch that is granted. -/
def consumedWrites (tables : WindowTables) (now : ℕ) (checks : List (Check FixedWindowPolicy)) : Writes where
  rows := checks.map fun c => (c.counterKey, consumedRow tables now c)
  rowCounts := (((((checks.map Check.counterKey).filter fun key => (tables.rows.lookup key).isNone).map
    capacityShard).insertionSort (· ≤ ·)).dedup).map fun shard =>
      (shard, tables.rowCounts shard + rowless tables checks shard)

/-- The writes of a consumed batch make its tables. -/
theorem consumedWrites_apply : (consumedWrites tables now checks).apply tables = consumedTables tables now checks := by
  unfold Writes.apply consumedWrites consumedTables
  refine WindowTables.ext ?_ ?_
  · funext shard
    simp only [Function.foldl_update]
    split
    · rfl
    · rename_i hnot
      rw [List.mem_dedup, List.mem_insertionSort, ← List.count_pos_iff, count_shards] at hnot
      omega
  · simp only [List.foldl_map]

/-- **Without a refusal the upsert consumes every input.** -/
theorem upsertBatch_eq (hmaximum : maximum ≤ hardMaxRowsPerShard) (hne : checks ≠ [])
    (hspent : ∀ c ∈ checks, spent tables now c = none)
    (hfull : firstWhere (full tables maximum) [] checks = none) :
    upsertBatch tables now checks = .ok (checks.map (granted tables now), consumedWrites tables now checks) := by
  have hkeys : (checks.zipIdx.map fun p => (p.2, p.1.counterKey, consumedRow tables now p.1)).map (·.2.1) =
      checks.map Check.counterKey := by
    conv_rhs => rw [← List.zipIdx_map_fst 0 checks]
    rw [List.map_map, List.map_map]
    rfl
  have hrows : (checks.zipIdx.map fun p => (p.2, p.1.counterKey, consumedRow tables now p.1)).map (·.2) =
      checks.map fun c => (c.counterKey, consumedRow tables now c) := by
    conv_rhs => rw [← List.zipIdx_map_fst 0 checks]
    rw [List.map_map, List.map_map]
    rfl
  -- the capacity preflight left room in every shard
  have hcounts : ∀ shard ∈ ((((checks.map Check.counterKey).filter fun key => (tables.rows.lookup key).isNone).map
      capacityShard).insertionSort (· ≤ ·)).dedup,
      ¬hardMaxRowsPerShard < tables.rowCounts shard + rowless tables checks shard := by
    intro shard hshard
    rw [List.mem_dedup, List.mem_insertionSort, ← List.count_pos_iff, count_shards] at hshard
    rcases rowless_le hfull shard with hzero | hle
    · rw [List.nil_append] at hzero
      have hnil : rowless tables [] shard = 0 := rfl
      omega
    · rw [List.nil_append] at hle
      omega
  have hupsert : upsert tables now checks = .ok (consumedWrites tables now checks) := by
    unfold upsert capacityAfterInsert consumedWrites
    rw [upsertedRows_eq hspent]
    simp only [hkeys, hrows, count_shards]
    rw [@mapM_ok _ _ _ _ fun shard => (shard, tables.rowCounts shard + rowless tables checks shard)]
    · rfl
    · intro shard hshard
      rw [if_neg (hcounts shard hshard)]
  have hread := @readUpserted_eq _ tables now checks checks [] rfl hspent
  rw [List.length_nil] at hread
  unfold upsertBatch
  simp only [hupsert, except_ok_bind, upsertedRows_eq hspent, hread, List.length_map, ne_eq, not_true_eq_false, if_false]
  rw [if_neg]
  · rfl
  · rw [List.isEmpty_iff, List.map_eq_nil_iff, List.zipIdx_eq_nil_iff]
    exact hne

/-! ## The batch -/

variable {config : PostgresConfig} {samples : Samples}

/-- The first input of the batch that is refused. -/
def firstRefused (config : PostgresConfig) (tables : WindowTables) (now : ℕ) (checks : List (Check FixedWindowPolicy)) :
    Option (ℕ × PendingDenial) :=
  firstWhere (refusal tables config.maximumRowsPerShard now) [] checks

/-- A batch with a refused check is denied at it, and writes nothing. -/
theorem executeBatch_denied {index : ℕ} {denial : PendingDenial}
    (h : firstRefused config tables samples.databaseNow checks = some (index, denial)) :
    executeBatch config samples checks tables =
      .ok (.denied index denial, authoritativeElapsed samples.databaseNow samples.preflightResponse, ⟨[], []⟩) := by
  unfold executeBatch
  simp only [capacityPreflight_eq, preflightBatch_eq, except_ok_bind, firstOf_firstWhere]
  have hmerged : firstWhere (fun before c => spent tables samples.databaseNow c <|>
      full tables config.maximumRowsPerShard before c) [] checks = some (index, denial) := h
  rw [hmerged]
  rfl

/-- Where nothing is refused, no input lacks quota and none lacks room. -/
theorem firstRefused_none {now : ℕ} (h : firstRefused config tables now checks = none) :
    firstWhere (full tables config.maximumRowsPerShard) [] checks = none ∧
      firstWhere (fun _ => spent tables now) [] checks = none ∧ ∀ c ∈ checks, spent tables now c = none := by
  have hmerged : firstOf (firstWhere (full tables config.maximumRowsPerShard) [] checks)
      (firstWhere (fun _ => spent tables now) [] checks) = none := by
    rw [firstOf_firstWhere]
    exact h
  obtain ⟨hfull, hquota⟩ := firstOf_eq_none hmerged
  refine ⟨hfull, hquota, ?_⟩
  intro c hc
  have hnone := @firstWhere_spec _ (fun _ => spent tables now) checks [] checks rfl
  rw [hquota] at hnone
  obtain ⟨before, after, rfl⟩ := List.append_of_mem hc
  cases hd : spent tables now c with
  | none => rfl
  | some denial => exact absurd ⟨before, c, after, rfl, rfl, hd⟩ (hnone before.length denial (Nat.zero_le _))

/-- A batch without one is consumed. -/
theorem executeBatch_allowed (hne : checks ≠ []) (h : firstRefused config tables samples.databaseNow checks = none) :
    executeBatch config samples checks tables =
      .ok (.allowed (checks.map (granted tables samples.databaseNow)),
        authoritativeElapsed samples.databaseNow samples.upsertResponse,
        consumedWrites tables samples.databaseNow checks) := by
  obtain ⟨hfull, hquota, hspent⟩ := firstRefused_none h
  unfold executeBatch
  simp only [capacityPreflight_eq, preflightBatch_eq, except_ok_bind, hfull, hquota, firstOf,
    upsertBatch_eq config.rows_le hne hspent hfull]
  rfl

/-- The least refused index is the first. -/
theorem firstRefused_eq_some {index : ℕ} {denial : PendingDenial} {now : ℕ}
    (h : Refused (refusal tables config.maximumRowsPerShard now) checks index denial)
    (hfirst : ∀ j d, j < index → ¬Refused (refusal tables config.maximumRowsPerShard now) checks j d) :
    firstRefused config tables now checks = some (index, denial) := by
  have hspec := @firstWhere_spec _ (refusal tables config.maximumRowsPerShard now) checks [] checks rfl
  unfold firstRefused
  cases hfound : firstWhere (refusal tables config.maximumRowsPerShard now) [] checks with
  | none =>
    rw [hfound] at hspec
    exact absurd h (hspec index denial (Nat.zero_le _))
  | some found =>
    obtain ⟨index', denial'⟩ := found
    simp only [hfound] at hspec
    obtain ⟨hrefused, hleast⟩ := hspec
    obtain rfl : index' = index := by
      rcases Nat.lt_trichotomy index' index with hlt | heq | hgt
      · exact absurd hrefused (hfirst index' denial' hlt)
      · exact heq
      · exact absurd h (hleast index denial (Nat.zero_le _) hgt)
    -- one place of the batch holds one input
    obtain ⟨before, c, after, hsplit, hlength, hdenial⟩ := h
    obtain ⟨before', c', after', hsplit', hlength', hdenial'⟩ := hrefused
    rw [hsplit] at hsplit'
    obtain ⟨rfl, hcons⟩ := List.append_inj hsplit' (hlength.trans hlength'.symm)
    cases hcons
    rw [hdenial, Option.some.injEq] at hdenial'
    rw [hdenial']

theorem firstRefused_eq_none {now : ℕ}
    (h : ∀ j d, ¬Refused (refusal tables config.maximumRowsPerShard now) checks j d) :
    firstRefused config tables now checks = none := by
  have hspec := @firstWhere_spec _ (refusal tables config.maximumRowsPerShard now) checks [] checks rfl
  unfold firstRefused
  cases hfound : firstWhere (refusal tables config.maximumRowsPerShard now) [] checks with
  | none => rfl
  | some found =>
    simp only [hfound] at hspec
    exact absurd hspec.1 (h _ _)

/-- The rows of the inputs afterwards, and those of everything else. -/
theorem lookup_consumedTables {now : ℕ} (hnodup : (checks.map Check.counterKey).Nodup) :
    (∀ c ∈ checks, (consumedTables tables now checks).rows.lookup c.counterKey = some (consumedRow tables now c)) ∧
      ∀ key, (∀ c ∈ checks, c.counterKey ≠ key) →
        (consumedTables tables now checks).rows.lookup key = tables.rows.lookup key := by
  have hfold : (consumedTables tables now checks).rows =
      (checks.map fun c => (c.counterKey, consumedRow tables now c)).foldl
        (fun rows entry => rows.insert entry.1 entry.2) tables.rows := by
    rw [List.foldl_map]
    rfl
  rw [hfold]
  constructor
  · intro c hc
    refine Finmap.lookup_foldl_insert_of_mem ?_ (List.mem_map.2 ⟨c, hc, rfl⟩)
    rw [List.map_map]
    exact hnodup
  · intro key hkey
    refine Finmap.lookup_foldl_insert_of_notMem ?_
    intro entry hentry
    obtain ⟨c, hc, rfl⟩ := List.mem_map.1 hentry
    exact hkey c hc

end PgWindows

end Runlimit
