import Mathlib.Tactic
import Mathlib.Data.Finset.Basic
import InfinityBridge.Library.Loop
import InfinityBridge.Relay.Script

/-!
# The dedup ring

A set and a queue of the same ids, bounded by a capacity. Both implementations are
the same, except that one cuts its capacity to 32 bits, which is the business of
the configuration. The eviction loop ends when the queue is no longer than the
capacity, and runs forever when that never happens. What `shift` returns is deleted
from the set unless it is `undefined`, as it is for an empty queue.
-/

namespace InfinityBridge.Relay

/-- `DedupRing`. -/
structure DedupRing (κ : Type*) where
  set : Finset κ
  order : List κ
  capacity : ℤ

namespace DedupRing

variable {κ : Type*} [DecidableEq κ] [ScriptId κ]

/-- A new ring. -/
def make (capacity : ℤ) : DedupRing κ := ⟨∅, [], capacity⟩

def has (r : DedupRing κ) (id : κ) : Bool := decide (id ∈ r.set)

/-- Delete an id that `shift` has returned, unless it is `undefined`. -/
def deleteShifted (old : κ) (set : Finset κ) : Finset κ :=
  if ScriptId.isUndefined old then set else set.erase old

/-- The eviction loop of `mark`: shift the oldest id while the queue is too long.
`none` when it never ends, shifting from an empty queue. -/
def evict (capacity : ℤ) : List κ → Finset κ → Option (DedupRing κ)
  | [], set => if capacity < 0 then none else some ⟨set, [], capacity⟩
  | old :: order, set =>
    if capacity < (old :: order).length then evict capacity order (deleteShifted old set)
    else some ⟨set, old :: order, capacity⟩

def mark (r : DedupRing κ) (id : κ) : Option (DedupRing κ) :=
  if id ∈ r.set then some r else evict r.capacity (r.order ++ [id]) (insert id r.set)

/-- The guard of the eviction loop: the queue is too long. -/
def TooLong (capacity : ℤ) (q : List κ × Finset κ) : Prop := capacity < q.1.length

/-- The body of the eviction loop: `shift`, and `delete` of what it returns. -/
def shift : List κ × Finset κ → List κ × Finset κ
  | ([], set) => ([], set)
  | (old :: order, set) => (order, deleteShifted old set)

/-- `mark` ends and leaves the ring `r'`. -/
def Marks (r : DedupRing κ) (id : κ) (r' : DedupRing κ) : Prop :=
  if id ∈ r.set then r' = r
  else r'.capacity = r.capacity ∧
    Loop.Ends (TooLong r.capacity) shift (r.order ++ [id], insert id r.set) (r'.order, r'.set)

/-- `evict` is the loop, run to its end. -/
theorem evict_eq_some_iff {capacity : ℤ} {order : List κ} {set : Finset κ} {r : DedupRing κ} :
    evict capacity order set = some r ↔ r.capacity = capacity ∧
      Loop.Ends (TooLong capacity) shift (order, set) (r.order, r.set) := by
  obtain ⟨rset, rorder, rcapacity⟩ := r
  induction order generalizing set with
  | nil =>
    rw [evict]
    by_cases hcapacity : capacity < 0
    · -- the queue stays empty, and too long
      rw [if_pos hcapacity]
      refine ⟨fun h => (by cases h), fun h => absurd h.2 ?_⟩
      refine Loop.not_ends_of_invariant (I := fun q : List κ × Finset κ => q.1 = []) ?_ ?_ rfl
      · rintro ⟨order, set⟩ rfl
        simpa only [TooLong, List.length_nil, Nat.cast_zero] using hcapacity
      · rintro ⟨order, set⟩ rfl
        rfl
    · have hshort : ¬TooLong capacity (([] : List κ), set) := by
        simpa only [TooLong, List.length_nil, Nat.cast_zero] using hcapacity
      rw [if_neg hcapacity, Loop.ends_iff_of_not_guard hshort]
      grind
  | cons old order ih =>
    rw [evict]
    by_cases hlong : capacity < (old :: order).length
    · rw [if_pos hlong, ih, Loop.ends_iff_of_guard (s := (old :: order, set)) hlong]
      rfl
    · rw [if_neg hlong, Loop.ends_iff_of_not_guard (s := (old :: order, set)) hlong]
      grind

/-- `mark` is `Marks`: it is `none` when its loop never ends. -/
theorem mark_eq_some_iff {r r' : DedupRing κ} {id : κ} : r.mark id = some r' ↔ r.Marks id r' := by
  unfold mark Marks
  split_ifs
  · rw [Option.some.injEq]
    exact eq_comm
  · exact evict_eq_some_iff

/-- What is deleted from a set leaves a part of it. -/
theorem deleteShifted_subset (old : κ) (set : Finset κ) : deleteShifted old set ⊆ set := by
  unfold deleteShifted
  split_ifs
  · exact Finset.Subset.refl set
  · exact Finset.erase_subset _ _

/-- Of the ids that are not `undefined`, the one that was shifted is deleted. -/
theorem mem_deleteShifted {old id : κ} {set : Finset κ}
    (hid : ScriptId.isUndefined id = false) : id ∈ deleteShifted old set ↔ id ≠ old ∧ id ∈ set := by
  unfold deleteShifted
  split_ifs with hold
  · refine ⟨fun h => ⟨?_, h⟩, fun h => h.2⟩
    rintro rfl
    rw [hid] at hold
    cases hold
  · exact Finset.mem_erase

/-- Eviction adds nothing. -/
theorem evict_set_subset {capacity : ℤ} {order : List κ} {set : Finset κ} {r : DedupRing κ}
    (h : evict capacity order set = some r) : r.set ⊆ set := by
  induction order generalizing set with
  | nil =>
    rw [evict] at h
    split_ifs at h
    cases h
    exact Finset.Subset.refl set
  | cons old order ih =>
    rw [evict] at h
    split_ifs at h
    · exact (ih h).trans (deleteShifted_subset _ _)
    · cases h
      exact Finset.Subset.refl set

/-- Marking adds at most the id that is marked. -/
theorem mark_set_subset {r r' : DedupRing κ} {id : κ} (h : r.mark id = some r') :
    r'.set ⊆ insert id r.set := by
  rw [mark] at h
  split_ifs at h
  · cases h
    exact Finset.subset_insert _ _
  · exact evict_set_subset h

/-- The ring holds the last `c` ids of a history in which each of these occurs once; and
perhaps `undefined`. -/
structure Window (c : ℕ) (history : List κ) (r : DedupRing κ) : Prop where
  capacity : r.capacity = c
  order : r.order = history.drop (history.length - c)
  set : ∀ id, ScriptId.isUndefined id = false → (id ∈ r.set ↔ id ∈ r.order)
  subset : ∀ id ∈ r.order, id ∈ r.set
  nodup : r.order.Nodup

omit [DecidableEq κ] in
/-- A new ring is the window of nothing. -/
theorem window_make (c : ℕ) : Window c [] (make c : DedupRing κ) :=
  ⟨rfl, by simp [make], by simp [make], by simp [make], List.nodup_nil⟩

/-- Nothing is evicted from a queue that is short enough. -/
theorem evict_of_length_le {capacity : ℤ} {order : List κ} (set : Finset κ)
    (h : order.length ≤ capacity) : evict capacity order set = some ⟨set, order, capacity⟩ := by
  cases order with
  | nil =>
    have hcapacity : ¬capacity < 0 := by simpa using h
    rw [evict, if_neg hcapacity]
  | cons old order => rw [evict, if_neg (by omega)]

/-- Marking a new id moves the window on. -/
theorem Window.mark {c : ℕ} {history : List κ} {r : DedupRing κ} (h : Window c history r)
    {id : κ} (hid : id ∉ r.set) :
    ∃ r', r.mark id = some r' ∧ Window c (history ++ [id]) r' := by
  have hlength : r.order.length = min c history.length := by
    rw [h.order, List.length_drop]
    omega
  have hnew : id ∉ r.order := fun hmem => hid (h.subset id hmem)
  have hnodup : (r.order ++ [id]).Nodup := by
    rw [List.nodup_append]
    exact ⟨h.nodup, List.nodup_singleton id, fun a ha b hb => by
      rw [List.mem_singleton.mp hb]
      exact fun hab => hnew (hab ▸ ha)⟩
  have hset (k : κ) (hk : ScriptId.isUndefined k = false) :
      k ∈ insert id r.set ↔ k ∈ r.order ++ [id] := by
    simp only [Finset.mem_insert, List.mem_append, List.mem_singleton, h.set k hk]
    exact or_comm
  have hsubset (k : κ) (hk : k ∈ r.order ++ [id]) : k ∈ insert id r.set := by
    rcases List.mem_append.mp hk with hk | hk
    · exact Finset.mem_insert_of_mem (h.subset k hk)
    · rw [List.mem_singleton.mp hk]
      exact Finset.mem_insert_self _ _
  have hlast : (history ++ [id]).length = history.length + 1 := by
    rw [List.length_append, List.length_singleton]
  rw [DedupRing.mark, if_neg hid, h.capacity]
  by_cases hfull : history.length < c
  · -- the ring is not full yet
    refine ⟨_, evict_of_length_le _ ?_, rfl, ?_, hset, hsubset, hnodup⟩
    · rw [List.length_append, List.length_singleton]
      omega
    · have hstart : history.length - c = 0 := by omega
      have hstart' : (history ++ [id]).length - c = 0 := by omega
      rw [hstart', List.drop_zero]
      show r.order ++ [id] = _
      rw [h.order, hstart, List.drop_zero]
  · -- the oldest id is evicted, which is the new one when the capacity is zero
    obtain ⟨old, rest, hrest⟩ := List.exists_cons_of_ne_nil (l := r.order ++ [id]) (by simp)
    have hrestLength : rest.length = c := by
      have hcount := congrArg List.length hrest
      rw [List.length_append, List.length_singleton, List.length_cons] at hcount
      omega
    rw [hrest] at hnodup hset hsubset ⊢
    obtain ⟨hold, hnodup⟩ := List.nodup_cons.mp hnodup
    rw [evict, if_pos (by rw [List.length_cons]; omega)]
    refine ⟨_, evict_of_length_le _ (by omega), rfl, ?_, ?_, ?_, hnodup⟩
    · have htail : rest = (r.order ++ [id]).drop 1 := by
        rw [hrest]
        rfl
      show rest = _
      rw [htail, h.order, ← List.drop_append_of_le_length (by omega), List.drop_drop, hlast]
      congr 1
      omega
    · intro k hk
      rw [mem_deleteShifted hk, hset k hk, List.mem_cons]
      constructor
      · rintro ⟨hne, hmem⟩
        exact hmem.resolve_left hne
      · intro hmem
        exact ⟨fun heq => hold (heq ▸ hmem), .inr hmem⟩
    · intro k hk
      have hmem := hsubset k (List.mem_cons_of_mem old hk)
      show k ∈ deleteShifted old (insert id r.set)
      unfold deleteShifted
      split_ifs
      · exact hmem
      · exact Finset.mem_erase.mpr ⟨fun heq => hold (heq ▸ hk), hmem⟩

/-- The ids that are still in the window are held. -/
theorem Window.has_iff {c : ℕ} {history : List κ} {r : DedupRing κ} (h : Window c history r)
    {id : κ} (hid : ScriptId.isUndefined id = false) :
    r.has id = true ↔ id ∈ history.drop (history.length - c) := by
  rw [has, decide_eq_true_eq, h.set id hid, h.order]

end DedupRing

end InfinityBridge.Relay
