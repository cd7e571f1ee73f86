import Mathlib

/-!
# Finite maps with a filter, and least elements of finite sets

`Finmap` over a constant family, with the operations a bounded cache and a transaction need
beyond Mathlib's: keeping the entries that pass a test (`Finmap.filter`), the entries of one
map at some keys and of another elsewhere (`Finmap.override`), the set of what a function of
the values takes (`Finmap.range`), and the least element of a set (`Finset.first`), which is
what an ordered index returns first.
-/

variable {K V : Type}

/-- A finite map from `K` to `V`. -/
abbrev Table (K V : Type) := Finmap fun _ : K => V

namespace Finmap

variable [DecidableEq K]

/-- The entries that pass the test `p`. -/
def filter (p : K → V → Bool) (s : Table K V) : Table K V :=
  keysLookupEquiv.symm
    ⟨(s.keys.filter fun k => ((s.lookup k).filter (p k)).isSome, fun k => (s.lookup k).filter (p k)), by
      intro k
      rw [Finset.mem_filter, mem_keys, ← lookup_isSome]
      cases h : s.lookup k <;> simp [h]⟩

/-- A filter leaves an entry that passes as it is, and no other. -/
@[simp]
theorem lookup_filter (p : K → V → Bool) (s : Table K V) (k : K) :
    (s.filter p).lookup k = (s.lookup k).filter (p k) := by
  simp [filter]

theorem keys_filter (p : K → V → Bool) (s : Table K V) :
    (s.filter p).keys = s.keys.filter fun k => ((s.lookup k).filter (p k)).isSome := by
  simp [filter]

/-- An insertion, at every key. -/
theorem lookup_insert_if (s : Table K V) (a k : K) (v : V) :
    (s.insert a v).lookup k = if k = a then some v else s.lookup k := by
  split
  · rename_i h; subst h; exact lookup_insert s
  · rename_i h; exact lookup_insert_of_ne s h

/-- An erasure, at every key. -/
theorem lookup_erase_if (s : Table K V) (a k : K) :
    (s.erase a).lookup k = if k = a then none else s.lookup k := by
  split
  · rename_i h; subst h; exact lookup_erase k s
  · rename_i h; exact lookup_erase_ne h

/-- The inserted key, and those there were. -/
theorem keys_insert (s : Table K V) (a : K) (v : V) : (s.insert a v).keys = Insert.insert a s.keys := by
  ext k; rw [mem_keys, mem_insert, Finset.mem_insert, mem_keys]

theorem mem_keys_iff {s : Table K V} {k : K} : k ∈ s.keys ↔ ∃ v, s.lookup k = some v := by
  rw [mem_keys, mem_iff]

theorem notMem_keys_iff {s : Table K V} {k : K} : k ∉ s.keys ↔ s.lookup k = none := by
  rw [mem_keys, lookup_eq_none]

/-- Whether a key is there is a matter of its own entry. -/
theorem mem_keys_congr {s t : Table K V} {k : K} (h : s.lookup k = t.lookup k) : k ∈ s.keys ↔ k ∈ t.keys := by
  rw [mem_keys_iff, mem_keys_iff, h]

/-- The entries of `mine` at the given keys, and of `base` elsewhere. -/
def override (keys : Finset K) (mine base : Table K V) : Table K V :=
  base.filter (fun k _ => decide (k ∉ keys)) ∪ mine.filter fun k _ => decide (k ∈ keys)

/-- An override, at every key. -/
@[simp]
theorem lookup_override (keys : Finset K) (mine base : Table K V) (k : K) :
    (override keys mine base).lookup k = if k ∈ keys then mine.lookup k else base.lookup k := by
  unfold override
  by_cases hk : k ∈ keys
  · -- at one of the keys the base does not count, and elsewhere the rest does not
    have hnot : k ∉ base.filter fun k _ => decide (k ∉ keys) := by
      rw [← lookup_eq_none, lookup_filter]
      cases base.lookup k with
      | none => rfl
      | some v => simp [hk]
    rw [lookup_union_right hnot, lookup_filter, if_pos hk]
    cases mine.lookup k with
    | none => rfl
    | some v => simp [hk]
  · have hnot : k ∉ mine.filter fun k _ => decide (k ∈ keys) := by
      rw [← lookup_eq_none, lookup_filter]
      cases mine.lookup k with
      | none => rfl
      | some v => simp [hk]
    rw [lookup_union_left_of_not_in hnot, lookup_filter, if_neg hk]
    cases base.lookup k with
    | none => rfl
    | some v => simp [hk]

/-- A key that none of the entries has keeps its value. -/
theorem lookup_foldl_insert_of_notMem {k : K} : ∀ {entries : List (K × V)} {s : Table K V},
    (∀ entry ∈ entries, entry.1 ≠ k) →
    (entries.foldl (fun s entry => s.insert entry.1 entry.2) s).lookup k = s.lookup k := by
  intro entries
  induction entries with
  | nil => exact fun _ => rfl
  | cons entry rest ih =>
    intro s h
    rw [List.forall_mem_cons] at h
    rw [List.foldl_cons, ih h.2, lookup_insert_if, if_neg (Ne.symm h.1)]

/-- A key of one of the entries has its value, if the entries have different keys. -/
theorem lookup_foldl_insert_of_mem {k : K} {v : V} : ∀ {entries : List (K × V)} {s : Table K V},
    (entries.map Prod.fst).Nodup → (k, v) ∈ entries →
    (entries.foldl (fun s entry => s.insert entry.1 entry.2) s).lookup k = some v := by
  intro entries
  induction entries with
  | nil =>
    intro s _ h
    cases h
  | cons entry rest ih =>
    intro s hnodup h
    rw [List.map_cons, List.nodup_cons] at hnodup
    rw [List.foldl_cons]
    rcases List.mem_cons.1 h with rfl | hmem
    · rw [lookup_foldl_insert_of_notMem, lookup_insert_if, if_pos rfl]
      intro entry hentry heq
      exact hnodup.1 (List.mem_map.2 ⟨entry, hentry, heq⟩)
    · exact ih hnodup.2 hmem

/-- Some erasures, at every key. -/
theorem lookup_foldl_erase {k : K} : ∀ {keys : List K} {s : Table K V},
    (keys.foldl (fun s key => s.erase key) s).lookup k = if k ∈ keys then none else s.lookup k := by
  intro keys
  induction keys with
  | nil => exact fun {_} => rfl
  | cons key rest ih =>
    intro s
    rw [List.foldl_cons, ih, lookup_erase_if]
    by_cases hkey : k = key
    · simp [hkey]
    · simp [hkey]

/-- The images of the stored values. -/
def range {W : Type} [DecidableEq W] (f : V → W) (s : Table K V) : Finset W :=
  s.keys.biUnion fun k => ((s.lookup k).map f).toFinset

/-- What is in the range is the image of a stored value. -/
theorem mem_range {W : Type} [DecidableEq W] {f : V → W} {s : Table K V} {w : W} :
    w ∈ s.range f ↔ ∃ k v, s.lookup k = some v ∧ f v = w := by
  simp only [range, Finset.mem_biUnion, Option.mem_toFinset, Option.mem_def, Option.map_eq_some_iff]
  constructor
  · rintro ⟨k, -, v, hv, hw⟩
    exact ⟨k, v, hv, hw⟩
  · rintro ⟨k, v, hv, hw⟩
    exact ⟨k, mem_keys_iff.2 ⟨v, hv⟩, v, hv, hw⟩

end Finmap

namespace Function

/-- A function after some updates, each to the value of one function. -/
theorem foldl_update {α : Type} [DecidableEq α] (g : α → ℕ) (a : α) : ∀ {l : List α} {f : α → ℕ},
    (l.map fun b => (b, g b)).foldl (fun f entry => Function.update f entry.1 entry.2) f a =
      if a ∈ l then g a else f a := by
  intro l
  induction l with
  | nil => exact fun {_} => rfl
  | cons b rest ih =>
    intro f
    rw [List.map_cons, List.foldl_cons, ih]
    -- the last update of an argument counts, and all have the value of one function
    by_cases hmem : a ∈ rest
    · rw [if_pos hmem, if_pos (List.mem_cons_of_mem _ hmem)]
    · rw [if_neg hmem]
      by_cases hab : a = b
      · subst hab
        rw [Function.update_self, if_pos List.mem_cons_self]
      · rw [Function.update_of_ne hab, if_neg (by simp [hab, hmem])]

end Function

namespace Finset

variable {α : Type} [LinearOrder α]

/-- The least element, if there is one. -/
def first (s : Finset α) : Option α := if h : s.Nonempty then some (s.min' h) else none

theorem first_eq_none {s : Finset α} : s.first = none ↔ s = ∅ := by
  unfold first
  split
  · rename_i h; simp [h.ne_empty]
  · rename_i h; simpa using Finset.not_nonempty_iff_eq_empty.1 h

/-- The first element is the least one. -/
theorem first_eq_some {s : Finset α} {a : α} : s.first = some a ↔ a ∈ s ∧ ∀ b ∈ s, a ≤ b := by
  unfold first
  split
  · rename_i h
    constructor
    · intro ha
      simp only [Option.some.injEq] at ha
      subst ha
      exact ⟨s.min'_mem h, fun b hb => s.min'_le b hb⟩
    · rintro ⟨ha, hmin⟩
      rw [Option.some.injEq]
      exact le_antisymm (s.min'_le a ha) (hmin _ (s.min'_mem h))
  · rename_i h
    constructor
    · intro ha; cases ha
    · rintro ⟨ha, -⟩; exact absurd ⟨a, ha⟩ h

end Finset
