import Mathlib

/-!
# Computations that may fail, and their triples

A computation over a state may fail at any point, and a failure keeps the state it was met in. A
`Triple` says from which states a computation ends in which results and failures; `Triple.bind` puts two
together, where every failure of the first is one of the whole.
-/

namespace Fallible

variable {σ ε α β : Type}

/-- A computation over a state that may fail. -/
abbrev Op (σ ε α : Type) := ExceptT ε (StateM σ) α

/-- The result or the failure, and the state it leaves. -/
def exec (m : Op σ ε α) (s : σ) : Except ε α × σ := StateT.run (ExceptT.run m) s

theorem exec_get (s : σ) : exec (get : Op σ ε σ) s = (.ok s, s) := rfl

/-- A failure of the first computation skips the second. -/
theorem exec_bind (m : Op σ ε α) (f : α → Op σ ε β) (s : σ) :
    exec (m >>= f) s = match exec m s with
      | (.ok a, s') => exec (f a) s'
      | (.error e, s') => (.error e, s') := by
  change StateT.run (ExceptT.run m >>= ExceptT.bindCont f) s = _
  rw [StateT.run_bind]
  unfold exec
  cases h : StateT.run (ExceptT.run m) s with
  | mk result s' =>
    cases result with
    | ok a => rfl
    | error e => rfl

/-- From a state of `pre`, a computation ends in a result of `ok` or in a failure of `failed`. -/
def Triple (pre : σ → Prop) (m : Op σ ε α) (ok : α → σ → Prop) (failed : ε → σ → Prop) : Prop :=
  ∀ s, pre s → match exec m s with
    | (.ok a, s') => ok a s'
    | (.error e, s') => failed e s'

variable {pre pre' : σ → Prop} {ok mid : α → σ → Prop} {failed : ε → σ → Prop} {m : Op σ ε α}

/-- A result leaves the state as it is. -/
theorem Triple.pure {a : α} (h : ∀ s, pre s → ok a s) : Triple pre (pure a : Op σ ε α) ok failed :=
  fun s hs => h s hs

/-- So does a failure. -/
theorem Triple.throw {e : ε} (h : ∀ s, pre s → failed e s) : Triple pre (throw e : Op σ ε α) ok failed :=
  fun s hs => h s hs

/-- What is known of the past is known from here on. -/
theorem Triple.assuming {fact : Prop} (h : fact → Triple pre m ok failed) :
    Triple (fun s => fact ∧ pre s) m ok failed :=
  fun s hs => h hs.1 s hs.2

/-- **Sequence.** -/
theorem Triple.bind {post : β → σ → Prop} {f : α → Op σ ε β} (hm : Triple pre m mid failed)
    (hf : ∀ a, Triple (mid a) (f a) post failed) : Triple pre (m >>= f) post failed := by
  intro s hs
  have hfirst := hm s hs
  rw [exec_bind]
  cases h : exec m s with
  | mk result s' =>
    rw [h] at hfirst
    cases result with
    | ok a => exact hf a s' hfirst
    | error e => exact hfirst

/-- **Consequence.** -/
theorem Triple.weaken {ok' : α → σ → Prop} {failed' : ε → σ → Prop} (h : Triple pre m ok failed)
    (hpre : ∀ s, pre' s → pre s) (hok : ∀ a s, ok a s → ok' a s) (hfailed : ∀ e s, failed e s → failed' e s) :
    Triple pre' m ok' failed' := by
  intro s hs
  have := h s (hpre s hs)
  cases hexec : exec m s with
  | mk result s' =>
    rw [hexec] at this
    cases result with
    | ok a => exact hok a s' this
    | error e => exact hfailed e s' this

end Fallible
