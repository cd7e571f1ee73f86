import Mathlib

/-!
# Deterministic machines: runs, invariants, simulations

A machine is a step function `I → S → O × S`. This file has the rules a proof
about all of its runs needs:

* `final_inv`: what every step preserves holds in every state a run reaches;
* `history_inv`: the same for a relation between the outputs so far and the state;
* `simulation`: an abstraction that commutes with every step commutes with every run,
  and the two machines give the same outputs;
* `outputs_forall`: what holds of every output of a step from a good state holds of every
  output of a run;
* `charged_between`: a potential that every step raises by what it charges, and that is known at
  two outputs of a run, bounds what the run charges from the one to the other.
-/

namespace Machine

variable {I O S T : Type}

/-- The outputs of a run and the state it ends in. -/
def run (step : I → S → O × S) : S → List I → List O × S
  | s, [] => ([], s)
  | s, i :: is => ((step i s).1 :: (run step (step i s).2 is).1, (run step (step i s).2 is).2)

def outputs (step : I → S → O × S) (s : S) (is : List I) : List O := (run step s is).1

def final (step : I → S → O × S) (s : S) (is : List I) : S := (run step s is).2

variable {step : I → S → O × S}

/-- A run on no inputs outputs nothing. -/
@[simp]
theorem outputs_nil (s : S) : outputs step s [] = [] := rfl

@[simp]
theorem final_nil (s : S) : final step s [] = s := rfl

@[simp]
theorem outputs_cons (s : S) (i : I) (is : List I) :
    outputs step s (i :: is) = (step i s).1 :: outputs step (step i s).2 is := rfl

@[simp]
theorem final_cons (s : S) (i : I) (is : List I) :
    final step s (i :: is) = final step (step i s).2 is := rfl

/-- A run on two lists of inputs is two runs. -/
theorem final_append (s : S) (is js : List I) :
    final step s (is ++ js) = final step (final step s is) js := by
  induction is generalizing s with
  | nil => rfl
  | cons i is ih => exact ih _

/-- Its outputs are those of the one and then of the other. -/
theorem outputs_append (s : S) (is js : List I) :
    outputs step s (is ++ js) = outputs step s is ++ outputs step (final step s is) js := by
  induction is generalizing s with
  | nil => rfl
  | cons i is ih =>
    rw [List.cons_append, outputs_cons, ih, outputs_cons, final_cons, List.cons_append]

/-- One output for each input. -/
theorem length_outputs (s : S) (is : List I) : (outputs step s is).length = is.length := by
  induction is generalizing s with
  | nil => rfl
  | cons i is ih => rw [outputs_cons, List.length_cons, List.length_cons, ih]

/-- **Invariants.** What every step on an admitted input preserves, every run preserves. -/
theorem final_inv {ok : I → Prop} {Inv : S → Prop}
    (hstep : ∀ i s, ok i → Inv s → Inv (step i s).2) {s : S} (hs : Inv s) {is : List I}
    (his : ∀ i ∈ is, ok i) : Inv (final step s is) := by
  induction is generalizing s with
  | nil => exact hs
  | cons i is ih =>
    rw [List.forall_mem_cons] at his
    exact ih (hstep i s his.1 hs) his.2

/-- What a step from a good state outputs, every output of a run from one satisfies. -/
theorem outputs_forall {ok : I → Prop} {Inv : S → Prop} {Q : O → Prop}
    (hstep : ∀ i s, ok i → Inv s → Q (step i s).1 ∧ Inv (step i s).2) {s : S} (hs : Inv s)
    {is : List I} (his : ∀ i ∈ is, ok i) : ∀ o ∈ outputs step s is, Q o := by
  induction is generalizing s with
  | nil => simp
  | cons i is ih =>
    rw [List.forall_mem_cons] at his
    obtain ⟨hQ, hs'⟩ := hstep i s his.1 hs
    rw [outputs_cons, List.forall_mem_cons]
    exact ⟨hQ, ih hs' his.2⟩

/-- What a step from a good state outputs, with the state it leaves, over whole runs. -/
theorem run_inv {ok : I → Prop} (Inv : S → Prop) (Q : O → Prop)
    (hstep : ∀ i s, ok i → Inv s → Q (step i s).1 ∧ Inv (step i s).2) {s : S} (hs : Inv s)
    {is : List I} (his : ∀ i ∈ is, ok i) : (∀ o ∈ outputs step s is, Q o) ∧ Inv (final step s is) :=
  ⟨outputs_forall hstep hs his, final_inv (fun i s hi hs => (hstep i s hi hs).2) hs his⟩

/-- **History invariants.** What holds of no outputs and the start, and is kept when a step is
taken and its output recorded, holds of the outputs of a run and the state it ends in. -/
theorem history_inv {ok : I → Prop} (Inv : List O → S → Prop)
    (hstep : ∀ i os s, ok i → Inv os s → Inv (os ++ [(step i s).1]) (step i s).2) {s : S} (hs : Inv [] s)
    {is : List I} (his : ∀ i ∈ is, ok i) : Inv (outputs step s is) (final step s is) := by
  have hgeneral : ∀ (is : List I) (os : List O) (s : S), (∀ i ∈ is, ok i) → Inv os s →
      Inv (os ++ outputs step s is) (final step s is) := by
    intro is
    induction is with
    | nil =>
      intro os s _ h
      rw [outputs_nil, List.append_nil]
      exact h
    | cons i is ih =>
      intro os s his h
      rw [List.forall_mem_cons] at his
      have hrest := ih _ _ his.2 (hstep i os s his.1 h)
      rw [List.append_assoc] at hrest
      exact hrest
  exact hgeneral is [] s his hs

/-- A split of the outputs of a run is a split of the run. -/
theorem outputs_eq_append_cons {s : S} {is : List I} {os os' : List O} {o : O}
    (h : outputs step s is = os ++ o :: os') :
    ∃ before i after, is = before ++ i :: after ∧ outputs step s before = os ∧
      (step i (final step s before)).1 = o ∧
      outputs step (step i (final step s before)).2 after = os' := by
  induction os generalizing s is with
  | nil =>
    cases is with
    | nil => cases h
    | cons i is =>
      rw [outputs_cons, List.nil_append, List.cons.injEq] at h
      exact ⟨[], i, is, rfl, rfl, h.1, h.2⟩
  | cons p os ih =>
    -- the first output is that of the first step; the rest splits further on
    cases is with
    | nil => cases h
    | cons i is =>
      rw [outputs_cons, List.cons_append, List.cons.injEq] at h
      obtain ⟨before, j, after, rfl, hbefore, hj, hafter⟩ := ih h.2
      refine ⟨i :: before, j, after, rfl, ?_, hj, hafter⟩
      rw [outputs_cons, h.1, hbefore]

/-- **Simulation.** `abs` maps the steps of one machine, from states that satisfy `Inv`, to
steps of another with the same output: then it maps runs to runs. -/
theorem simulation {step' : I → T → O × T} {abs : S → T} {ok : I → Prop} {Inv : S → Prop}
    (hstep : ∀ i s, ok i → Inv s →
      step' i (abs s) = ((step i s).1, abs (step i s).2) ∧ Inv (step i s).2)
    {s : S} (hs : Inv s) {is : List I} (his : ∀ i ∈ is, ok i) :
    outputs step s is = outputs step' (abs s) is ∧
      abs (final step s is) = final step' (abs s) is ∧ Inv (final step s is) := by
  induction is generalizing s with
  | nil => exact ⟨rfl, rfl, hs⟩
  | cons i is ih =>
    rw [List.forall_mem_cons] at his
    obtain ⟨heq, hs'⟩ := hstep i s his.1 hs
    obtain ⟨hout, hfin, hinv⟩ := ih hs' his.2
    rw [outputs_cons, outputs_cons, final_cons, final_cons, heq]
    exact ⟨congrArg _ hout, hfin, hinv⟩

/-- A machine that only renames its outputs runs the same. -/
theorem run_rename {O' : Type} (f : O → O') (s : S) (is : List I) :
    outputs (fun i s => (f (step i s).1, (step i s).2)) s is = (outputs step s is).map f ∧
      final (fun i s => (f (step i s).1, (step i s).2)) s is = final step s is := by
  induction is generalizing s with
  | nil => exact ⟨rfl, rfl⟩
  | cons i is ih =>
    obtain ⟨houtputs, hfinal⟩ := ih (step i s).2
    rw [outputs_cons, outputs_cons, final_cons, final_cons, List.map_cons]
    exact ⟨congrArg _ houtputs, hfinal⟩

/-- A machine that answers renamed inputs with renamed outputs, from the same states, runs the same on a
renamed run. -/
theorem run_relabel {g : I → I} {f : O → O} (hstep : ∀ i s, step (g i) s = (f (step i s).1, (step i s).2)) (s : S)
    (is : List I) :
    outputs step s (is.map g) = (outputs step s is).map f ∧ final step s (is.map g) = final step s is := by
  induction is generalizing s with
  | nil => exact ⟨rfl, rfl⟩
  | cons i is ih =>
    obtain ⟨houtputs, hfinal⟩ := ih (step i s).2
    rw [List.map_cons, outputs_cons, outputs_cons, final_cons, final_cons, hstep, List.map_cons]
    exact ⟨congrArg _ houtputs, hfinal⟩

/-! ## Potentials -/

section Potential

variable {ok : I → Prop} (Inv : S → Prop) (potential : S → ℕ) (weight low high : O → ℕ)
  (Mark : O → Prop)

/-- From a state to a marked output: the potential of the state and the charges since then stay
below what the mark allows. -/
theorem charged_until
    (hstep : ∀ i s, ok i → Inv s → potential s + weight (step i s).1 ≤ potential (step i s).2 ∧
      Inv (step i s).2)
    (hhigh : ∀ i s, ok i → Inv s → Mark (step i s).1 → potential (step i s).2 ≤ high (step i s).1)
    {s : S} (hs : Inv s) {is : List I} (his : ∀ i ∈ is, ok i) {n : ℕ} {b : O}
    (hb : (outputs step s is)[n]? = some b) (hmark : Mark b) :
    potential s + (((outputs step s is).take (n + 1)).map weight).sum ≤ high b := by
  induction is generalizing s n with
  | nil => simp at hb
  | cons i is ih =>
    rw [List.forall_mem_cons] at his
    obtain ⟨hgrow, hs'⟩ := hstep i s his.1 hs
    rw [outputs_cons, List.take_succ_cons, List.map_cons, List.sum_cons]
    cases n with
    | zero =>
      obtain rfl : (step i s).1 = b := by simpa using hb
      have := hhigh i s his.1 hs hmark
      rw [List.take_zero, List.map_nil, List.sum_nil]
      omega
    | succ n =>
      have := ih hs' his.2 (by simpa using hb)
      omega

/-- **Charges between two marks.** If every step raises the potential by what it charges, and a
marked step leaves a potential of at least `low` and its charge and of at most `high`, then what
a run charges from one mark to a later one is at most the `high` of the later above the `low` of
the first. -/
theorem charged_between
    (hstep : ∀ i s, ok i → Inv s → potential s + weight (step i s).1 ≤ potential (step i s).2 ∧
      Inv (step i s).2)
    (hlow : ∀ i s, ok i → Inv s → Mark (step i s).1 →
      low (step i s).1 + weight (step i s).1 ≤ potential (step i s).2)
    (hhigh : ∀ i s, ok i → Inv s → Mark (step i s).1 → potential (step i s).2 ≤ high (step i s).1)
    {s : S} (hs : Inv s) {is : List I} (his : ∀ i ∈ is, ok i) {m n : ℕ} (hmn : m ≤ n) {a b : O}
    (ha : (outputs step s is)[m]? = some a) (hb : (outputs step s is)[n]? = some b)
    (hmarkA : Mark a) (hmarkB : Mark b) :
    low a + ((((outputs step s is).take (n + 1)).drop m).map weight).sum ≤ high b := by
  induction is generalizing s m n with
  | nil => simp at ha
  | cons i is ih =>
    rw [List.forall_mem_cons] at his
    obtain ⟨-, hs'⟩ := hstep i s his.1 hs
    cases m with
    | zero =>
      -- the segment starts here: the rest of it is charged to the potential after this step
      obtain rfl : (step i s).1 = a := by simpa using ha
      have hstart := hlow i s his.1 hs hmarkA
      rw [outputs_cons, List.take_succ_cons, List.drop_zero, List.map_cons, List.sum_cons]
      cases n with
      | zero =>
        obtain rfl : (step i s).1 = b := by simpa using hb
        have := hhigh i s his.1 hs hmarkB
        rw [List.take_zero, List.map_nil, List.sum_nil]
        omega
      | succ n =>
        have := charged_until Inv potential weight high Mark hstep hhigh hs' his.2 (by simpa using hb) hmarkB
        omega
    | succ m =>
      obtain ⟨n, rfl⟩ : ∃ k, n = k + 1 := ⟨n - 1, by omega⟩
      rw [outputs_cons, List.take_succ_cons, List.drop_succ_cons]
      exact ih hs' his.2 (by omega) (by simpa using ha) (by simpa using hb)

end Potential

end Machine
