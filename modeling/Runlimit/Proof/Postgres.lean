import Runlimit.Proof.Batch
import Runlimit.Spec.Postgres

/-!
# The decisions of the PostgreSQL limiters

An admission that was allowed is shaped into a decision that allows, and a denial into one that
denies; a decision cannot be built from a different number of checks.
-/

namespace Runlimit

/-- A single check is answered with an allowance only when it was allowed one. -/
theorem singleDecision_allowed {allowances : List Allowance} {decision : Decision}
    (h : singleDecision (.allowed allowances) = .ok decision) :
    ∃ allowance, allowances = [allowance] ∧ decision = .allowed allowance := by
  unfold singleDecision at h
  split at h
  · rename_i allowance heq
    cases heq
    cases h
    exact ⟨allowance, rfl, rfl⟩
  · cases h
  · rename_i heq
    cases heq
  · rename_i heq
    cases heq
  · cases h
  · cases h

/-- A batch that was allowed is answered with its allowances, if their number is right. -/
theorem batchDecision_allowed {batchSize : ℕ} {allowances : List Allowance} {decision : BatchDecision}
    (h : batchDecision batchSize (.allowed allowances) = .ok decision) : decision = ⟨.allowed allowances⟩ := by
  unfold batchDecision at h
  simp only at h
  split at h
  · cases h
  · unfold BatchDecision.allowed at h
    split at h
    · cases h
    · cases h
      rfl

/-- What was denied, enforced or not, is not answered with an allowance. -/
theorem singleDecision_denied {admission : Admission} {decision : Decision}
    (h : singleDecision admission = .ok decision) (hdenied : ∀ allowances, admission ≠ .allowed allowances) :
    ∀ allowance, decision ≠ .allowed allowance := by
  cases admission with
  | allowed allowances => exact absurd rfl (hdenied allowances)
  | denied index denial =>
    cases index with
    | zero =>
      cases h
      exact fun _ h => by cases h
    | succ index => cases h
  | shadowDenied index denial =>
    cases index with
    | zero =>
      cases h
      exact fun _ h => by cases h
    | succ index => cases h

/-- What was denied, enforced or not, is not answered with allowances. -/
theorem batchDecision_denied {batchSize : ℕ} {admission : Admission} {decision : BatchDecision}
    (h : batchDecision batchSize admission = .ok decision) (hdenied : ∀ allowances, admission ≠ .allowed allowances) :
    ∀ allowances, decision ≠ ⟨.allowed allowances⟩ := by
  -- both kinds of denial are built from a checked index
  have hindex : ∀ {index : ℕ} {f : ℕ → BatchOutcome}, (∀ size allowances, f size ≠ .allowed allowances) →
      orMismatch (do return ⟨f (← validateBatchIndex index batchSize)⟩) = .ok decision →
      ∀ allowances, decision ≠ ⟨.allowed allowances⟩ := by
    intro index f hf h
    unfold validateBatchIndex at h
    split at h
    · cases h
      intro allowances heq
      exact hf _ allowances (congrArg BatchDecision.outcome heq)
    · cases h
  cases admission with
  | allowed allowances => exact absurd rfl (hdenied allowances)
  | denied index denial => exact hindex (fun _ _ h => by cases h) h
  | shadowDenied index denial => exact hindex (fun _ _ h => by cases h) h

/-- A quota denial allows nothing; the mode chooses its label alone. -/
theorem quotaAdmission_ne_allowed (mode : QuotaMode) (index : ℕ) (denial : QuotaDenial) (allowances : List Allowance) :
    quotaAdmission mode index denial ≠ .allowed allowances := by
  unfold quotaAdmission
  split
  · exact fun h => by cases h
  · exact fun h => by cases h

/-- A denied single check is answered with its denial, under the label of the mode. -/
theorem singleDecision_quota (mode : QuotaMode) (denial : QuotaDenial) :
    singleDecision (quotaAdmission mode 0 denial) = .ok (.quotaExceeded mode denial) := by
  unfold quotaAdmission Decision.quotaExceeded
  split
  · rfl
  · rfl

/-- A batch is answered with the denial of the check at the index, under the label of the mode. -/
theorem batchDecision_quota (mode : QuotaMode) {index size : ℕ} (h : index < size) (denial : QuotaDenial) :
    batchDecision size (quotaAdmission mode index denial) = .ok ⟨.quotaExceeded mode index size denial⟩ := by
  unfold quotaAdmission BatchOutcome.quotaExceeded
  split
  · unfold batchDecision BatchDecision.shadowDenied validateBatchIndex
    simp only [if_pos h]
    rfl
  · unfold batchDecision BatchDecision.denied validateBatchIndex
    simp only [if_pos h]
    rfl

/-- So is a denial for want of storage, which has no label. -/
theorem batchDecision_storage {index size : ℕ} (h : index < size) :
    batchDecision size (.denied index (.storageCapacity none)) = .ok ⟨.denied index size (.storageCapacity none)⟩ := by
  unfold batchDecision BatchDecision.denied validateBatchIndex
  simp only [if_pos h]
  rfl

/-- As many allowances as checks are answered as they are. -/
theorem batchDecision_eq {allowances : List Allowance} (h : allowances ≠ []) :
    batchDecision allowances.length (.allowed allowances) = .ok ⟨.allowed allowances⟩ := by
  unfold batchDecision
  simp only [ne_eq, not_true_eq_false, if_false, batchAllowed_eq h]
  rfl

end Runlimit
