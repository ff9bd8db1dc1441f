import Mathlib.Tactic
import Mathlib.Data.List.AList

/-!
# Finite maps

Hash maps and script maps as Mathlib's association lists without repeated keys.
What is read after an update is stated with a case distinction on the key, so
that one rewriting rule serves each operation.
-/

/-- A finite map from `κ` to `ν`. -/
abbrev Table (κ ν : Type*) := AList fun _ : κ => ν

namespace Table

variable {κ ν : Type*} [DecidableEq κ]

/-- The values, in the order in which the map is iterated: newest key first. -/
def values (m : Table κ ν) : List ν := m.entries.map fun e => e.2

/-- Whether the map has no key. -/
def isEmpty (m : Table κ ν) : Bool := m.entries.isEmpty

/-- Change the value under a key, if there is one. -/
def adjust (k : κ) (f : ν → ν) (m : Table κ ν) : Table κ ν :=
  match m.lookup k with
  | none => m
  | some v => m.insert k (f v)

/-- Remove several keys. -/
def eraseAll (ks : List κ) (m : Table κ ν) : Table κ ν := ks.foldl (fun m k => m.erase k) m

/-- The entry that was inserted, or what was there. -/
theorem lookup_insert_eq (k k' : κ) (v : ν) (m : Table κ ν) :
    AList.lookup k' (AList.insert k v m) = if k' = k then some v else m.lookup k' := by
  by_cases h : k' = k
  · subst h
    simp
  · simp [h, AList.lookup_insert_ne h]

/-- What was there, but for the key that was erased. -/
theorem lookup_erase_eq (k k' : κ) (m : Table κ ν) :
    AList.lookup k' (AList.erase k m) = if k' = k then none else m.lookup k' := by
  by_cases h : k' = k
  · subst h
    simp
  · simp [h, AList.lookup_erase_ne h]

/-- Removing a key that is not there changes nothing. -/
theorem erase_of_lookup_eq_none {k : κ} {m : Table κ ν} (h : m.lookup k = none) :
    m.erase k = m := by
  refine AList.ext ?_
  exact List.kerase_of_notMem_keys (AList.lookup_eq_none.mp h)

/-- Removing a key that has just been added undoes the addition. -/
theorem erase_insert {m : Table κ ν} {k : κ} {v : ν}
    (h : m.lookup k = none) : AList.erase k (AList.insert k v m) = m := by
  refine AList.ext ?_
  have hkeys := AList.lookup_eq_none.mp h
  rw [AList.insert_of_notMem hkeys]
  exact List.kerase_cons_eq rfl

/-- What was there, with one entry changed. -/
theorem lookup_adjust (k k' : κ) (f : ν → ν) (m : Table κ ν) :
    AList.lookup k' (adjust k f m) = if k' = k then (m.lookup k').map f else m.lookup k' := by
  unfold adjust
  cases hk : m.lookup k with
  | none =>
    by_cases h : k' = k
    · subst h
      simp [hk]
    · simp [h]
  | some v =>
    rw [lookup_insert_eq]
    by_cases h : k' = k
    · subst h
      simp [hk]
    · simp [h]

/-- Changing a value adds no key and removes none. -/
@[simp] theorem mem_adjust (k k' : κ) (f : ν → ν) (m : Table κ ν) :
    k' ∈ adjust k f m ↔ k' ∈ m := by
  rw [← AList.lookup_isSome, ← AList.lookup_isSome, lookup_adjust]
  by_cases h : k' = k <;> simp [h]

/-- What was there, but for the keys that were erased. -/
theorem lookup_eraseAll (ks : List κ) (k : κ) (m : Table κ ν) :
    AList.lookup k (eraseAll ks m) = if k ∈ ks then none else m.lookup k := by
  induction ks generalizing m with
  | nil => simp [eraseAll]
  | cons k' ks ih =>
    have h : eraseAll (k' :: ks) m = eraseAll ks (m.erase k') := rfl
    rw [h, ih, lookup_erase_eq]
    by_cases hk : k = k' <;> by_cases hks : k ∈ ks <;> simp [hk, hks]

/-- What is found under a key is among the entries, and the other way round. -/
theorem lookup_eq_some_iff {m : Table κ ν} {k : κ} {v : ν} :
    m.lookup k = some v ↔ (⟨k, v⟩ : Sigma fun _ : κ => ν) ∈ m.entries := AList.mem_lookup_iff

/-- A table is empty when it has no key. -/
theorem isEmpty_iff {m : Table κ ν} : m.isEmpty = true ↔ ∀ k, m.lookup k = none := by
  unfold isEmpty
  constructor
  · intro h k
    cases hk : m.lookup k with
    | none => rfl
    | some v =>
      have hmem := lookup_eq_some_iff.mp hk
      rw [List.isEmpty_iff.mp h] at hmem
      cases hmem
  · intro h
    cases hm : m.entries with
    | nil => rfl
    | cons e es =>
      have hmem : (⟨e.1, e.2⟩ : Sigma fun _ : κ => ν) ∈ m.entries := by simp [hm]
      have := lookup_eq_some_iff.mpr hmem
      rw [h e.1] at this
      cases this

/-- A map with a key is not empty. -/
theorem isEmpty_eq_false {m : Table κ ν} {k : κ} {v : ν} (h : m.lookup k = some v) :
    m.isEmpty = false := by
  rw [Bool.eq_false_iff]
  intro hempty
  rw [isEmpty_iff.mp hempty k] at h
  cases h

omit [DecidableEq κ] in
/-- A table without values is empty. -/
theorem values_eq_nil {m : Table κ ν} : m.values = [] ↔ m.isEmpty = true := by
  rw [values, isEmpty, List.map_eq_nil_iff, List.isEmpty_iff]

/-- A value that is iterated over is found under some key. -/
theorem mem_values_iff {m : Table κ ν} {v : ν} : v ∈ m.values ↔ ∃ k, m.lookup k = some v := by
  simp only [values, List.mem_map]
  constructor
  · rintro ⟨e, he, rfl⟩
    exact ⟨e.1, lookup_eq_some_iff.mpr he⟩
  · rintro ⟨k, hk⟩
    exact ⟨⟨k, v⟩, lookup_eq_some_iff.mp hk, rfl⟩

end Table
