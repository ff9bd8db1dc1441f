import InfinityBridge.Library.Transition
import InfinityBridge.Relay.State

/-!
# What the dedup ring holds

The ring on its own, under any sequence of `mark`, `has` and `clear`. With a capacity
that is not negative it holds the last ids that were inserted since it was cleared, in
the order of their insertion; ids are strings, as declared. With a negative capacity the
first `mark` never ends.
-/

namespace InfinityBridge.Relay

namespace DedupRing

variable {κ : Type*} [DecidableEq κ] [ScriptId κ]

/-- An operation on the ring. -/
inductive Op (κ : Type*) where
  | mark (id : κ)
  | has (id : κ)
  | clear

/-- Pop until the queue is empty; `n` bounds the iterations. -/
def popAll : ℕ → List κ → List κ
  | 0, order => order
  | n + 1, order => if 0 < order.length then popAll n order.dropLast else order

/-- `clear`: one relay truncates the queue, the other one pops its elements. -/
def clear (impl : Impl) (r : DedupRing κ) : DedupRing κ :=
  { r with
    set := ∅
    order := match impl with
      | .typescript => []
      | .rescript => popAll r.order.length r.order }

/-- The ring after an operation; `none` when the operation never ends. -/
def apply (impl : Impl) (r : DedupRing κ) : Op κ → Option (DedupRing κ)
  | .mark id => r.mark id
  | .has _ => some r
  | .clear => some (r.clear impl)

/-- The ids inserted since the ring was cleared, after an operation. -/
def insertions (r : DedupRing κ) (history : List κ) : Op κ → List κ
  | .mark id => if r.has id then history else history ++ [id]
  | .has _ => history
  | .clear => []

/-- A ring with its history takes an operation. -/
def record (impl : Impl) (s : DedupRing κ × List κ) (op : Op κ) :
    Option (DedupRing κ × List κ) :=
  (s.1.apply impl op).map fun r => (r, s.1.insertions s.2 op)

omit [DecidableEq κ] [ScriptId κ] in
/-- Popping empties the queue. -/
theorem popAll_eq_nil (n : ℕ) {order : List κ} (h : order.length ≤ n) : popAll n order = [] := by
  induction n generalizing order with
  | zero =>
    rw [popAll]
    exact List.length_eq_zero_iff.mp (by omega)
  | succ n ih =>
    rw [popAll]
    split_ifs with hlength
    · apply ih
      rw [List.length_dropLast]
      omega
    · exact List.length_eq_zero_iff.mp (by omega)

omit [DecidableEq κ] [ScriptId κ] in
/-- Both relays clear the ring. -/
theorem clear_eq (impl : Impl) (r : DedupRing κ) : r.clear impl = ⟨∅, [], r.capacity⟩ := by
  cases impl with
  | typescript => rfl
  | rescript => rw [clear, popAll_eq_nil _ le_rfl]

/-- Every operation ends and keeps the window over the insertions. -/
theorem window_apply (impl : Impl) {c : ℕ} {history : List κ} {r : DedupRing κ}
    (h : Window c history r) (op : Op κ) :
    ∃ r', r.apply impl op = some r' ∧ Window c (r.insertions history op) r' := by
  cases op with
  | mark id =>
    by_cases hid : id ∈ r.set
    · refine ⟨r, ?_, ?_⟩
      · rw [apply, mark, if_pos hid]
      · rw [insertions, has, decide_eq_true hid, if_pos rfl]
        exact h
    · obtain ⟨r', hmark, hwindow⟩ := h.mark hid
      refine ⟨r', hmark, ?_⟩
      rw [insertions, has, decide_eq_false hid]
      exact hwindow
  | has id => exact ⟨r, rfl, h⟩
  | clear =>
    refine ⟨_, rfl, ?_⟩
    rw [clear_eq, h.capacity]
    exact window_make c

/-- `id` was inserted, and fewer than `c` insertions came after its latest one. -/
def InsertedWithin (c : ℕ) (history : List κ) (id : κ) : Prop :=
  ∃ before after, history = before ++ id :: after ∧ id ∉ after ∧ after.length < c

/-- The latest insertion of `id` came before the latest insertion of `id'`. -/
def InsertedBefore (history : List κ) (id id' : κ) : Prop :=
  ∃ before between after, history = before ++ id :: (between ++ id' :: after) ∧
    id ∉ between ++ id' :: after ∧ id' ∉ after

/-- What a ring is for: it holds the ids of the last `c` insertions. -/
structure Represents (c : ℕ) (history : List κ) (r : DedupRing κ) : Prop where
  sameIds : ∀ id, id ∈ r.set ↔ id ∈ r.order
  nodup : r.order.Nodup
  bounded : r.order.length ≤ c
  has_iff : ∀ id, r.has id = true ↔ InsertedWithin c history id
  inOrder : r.order.Pairwise (InsertedBefore history)

omit [DecidableEq κ] [ScriptId κ] in
/-- The last insertions, when no id is among them twice, are in the order of the latest
insertions. -/
theorem pairwise_insertedBefore {order : List κ} (hnodup : order.Nodup) (earlier : List κ) :
    order.Pairwise (InsertedBefore (earlier ++ order)) := by
  induction order generalizing earlier with
  | nil => exact List.Pairwise.nil
  | cons id order ih =>
    obtain ⟨hid, hrest⟩ := List.nodup_cons.mp hnodup
    refine List.Pairwise.cons (fun id' hid' => ?_) ?_
    · obtain ⟨between, after, rfl⟩ := List.append_of_mem hid'
      have hafter : id' ∉ after :=
        (List.nodup_cons.mp (List.nodup_append.mp hrest).2.1).1
      exact ⟨earlier, between, after, rfl, hid, hafter⟩
    · have htail := ih hrest (earlier ++ [id])
      rwa [List.append_assoc, List.singleton_append] at htail

/-- A window of strings represents the last insertions. -/
theorem Window.represents {c : ℕ} {history : List String} {r : DedupRing String}
    (h : Window c history r) : Represents c history r := by
  have hsplit : history = history.take (history.length - c) ++ r.order := by
    rw [h.order, List.take_append_drop]
  have hlength : r.order.length ≤ c := by
    rw [h.order, List.length_drop]
    omega
  refine ⟨fun id => h.set id rfl, h.nodup, hlength, fun id => ?_, ?_⟩
  · rw [h.has_iff rfl]
    constructor
    · intro hmem
      rw [← h.order] at hmem
      obtain ⟨before, after, horder⟩ := List.append_of_mem hmem
      have hnodup := h.nodup
      rw [horder] at hsplit hlength hnodup
      rw [List.length_append, List.length_cons] at hlength
      refine ⟨history.take (history.length - c) ++ before, after, ?_, ?_, by omega⟩
      · rw [List.append_assoc]
        exact hsplit
      · exact (List.nodup_cons.mp (List.nodup_append.mp hnodup).2.1).1
    · rintro ⟨before, after, rfl, _, hshort⟩
      have hstart : (before ++ id :: after).length - c ≤ before.length := by
        rw [List.length_append, List.length_cons]
        omega
      rw [List.drop_append_of_le_length hstart]
      exact List.mem_append_right _ List.mem_cons_self
  · rw [hsplit]
    exact pairwise_insertedBefore h.nodup _

/-- A run of operations on a new ring ends, in both relays with the same ring, which is the
window over the insertions. -/
theorem window_run (c : ℕ) (ops : List (Op κ)) :
    ∃ r history, Window c history r ∧
      ∀ impl, Transition.run (record impl) (make c, []) ops = some (r, history) := by
  induction ops using List.reverseRecOn with
  | nil => exact ⟨make c, [], window_make c, fun _ => rfl⟩
  | append_singleton ops op ih =>
    obtain ⟨r, history, hwindow, hrun⟩ := ih
    obtain ⟨r', happly, hwindow'⟩ := window_apply .typescript hwindow op
    refine ⟨r', r.insertions history op, hwindow', fun impl => ?_⟩
    have hsame : r.apply impl op = some r' := by
      rw [← happly]
      cases op with
      | mark | has => rfl
      | clear => simp only [apply, clear_eq]
    refine Transition.run_concat_eq_some.mpr ⟨_, hrun impl, ?_⟩
    rw [record, hsame]
    rfl

/-- With a capacity that is not negative, every sequence of operations ends in both relays
with the same ring, and the ring represents the insertions since it was cleared. -/
theorem ring_represents (c : ℕ) (ops : List (Op String)) :
    ∃ r history, Represents c history r ∧
      ∀ impl, Transition.run (record impl) (make c, []) ops = some (r, history) := by
  obtain ⟨r, history, hwindow, hrun⟩ := window_run c ops
  exact ⟨r, history, hwindow.represents, hrun⟩

/-- The window is kept by every operation that ends. -/
theorem exists_window_run {impl : Impl} {c : ℕ} {ops : List (Op κ)} {r : DedupRing κ}
    (hrun : Transition.run (apply impl) (make c) ops = some r) :
    ∃ history, Window c history r := by
  refine Transition.run_invariant (I := fun r : DedupRing κ => ∃ history, Window c history r)
    ?_ hrun ⟨[], window_make c⟩
  rintro r op r' ⟨history, hwindow⟩ hstep
  obtain ⟨r'', happly, hwindow'⟩ := window_apply impl hwindow op
  rw [hstep, Option.some.injEq] at happly
  exact ⟨_, happly ▸ hwindow'⟩

/-- A ring holds no more ids than its queue has. -/
theorem Window.card_le {c : ℕ} {history : List String} {r : DedupRing String}
    (h : Window c history r) : r.set.card ≤ c := by
  have hsubset : r.set ⊆ r.order.toFinset := by
    intro id hid
    exact List.mem_toFinset.mpr ((h.set id rfl).mp hid)
  have hcard := Finset.card_le_card hsubset
  have hlength := List.toFinset_card_le r.order
  have hbounded := h.represents.bounded
  omega

/-- With a negative capacity no `mark` of an id that is not held ends: the queue is too long
even when it is empty. -/
theorem not_marks_of_neg {r r' : DedupRing κ} {id : κ} (hcapacity : r.capacity < 0)
    (hid : id ∉ r.set) : ¬r.Marks id r' := by
  rw [Marks, if_neg hid]
  rintro ⟨_, hends⟩
  refine Loop.not_ends_of_invariant (I := fun _ => True) ?_ (fun _ _ => trivial) trivial hends
  intro q _
  have hlength : (0 : ℤ) ≤ q.1.length := Int.natCast_nonneg _
  show r.capacity < q.1.length
  omega

/-- The ring that the constructor makes. -/
def ofConfig (config : Config) : DedupRing String := .make (resolveConfig config).dedupCapacity

/-- Every `mark` of the ring of a relay ends, in every state the ring can reach, and leaves
no more ids in the ring than its capacity. -/
def MarksEnd (impl : Impl) (config : Config) : Prop :=
  ∀ ops r, Transition.run (apply impl) (ofConfig config) ops = some r →
    ∀ id, ∃ r', r.Marks id r' ∧
      (r'.order.length : ℤ) ≤ max (resolveConfig config).dedupCapacity 0 ∧
      (r'.set.card : ℤ) ≤ max (resolveConfig config).dedupCapacity 0

/-- The operations of the ring end just when the configured capacity is not negative. -/
theorem marksEnd_iff (impl : Impl) (config : Config) :
    MarksEnd impl config ↔ 0 ≤ (resolveConfig config).dedupCapacity := by
  constructor
  · intro h
    by_contra hcapacity
    obtain ⟨r', hmarks, _⟩ := h [] _ rfl ""
    exact not_marks_of_neg (not_le.mp hcapacity) (Finset.notMem_empty _) hmarks
  · intro hcapacity ops r hrun id
    have hring : ofConfig config = .make ((resolveConfig config).dedupCapacity.toNat : ℤ) := by
      rw [Int.toNat_of_nonneg hcapacity, ofConfig]
    rw [hring] at hrun
    obtain ⟨history, hwindow⟩ := exists_window_run hrun
    obtain ⟨r', hmark, hwindow'⟩ := window_apply impl hwindow (.mark id)
    have hlength := hwindow'.represents.bounded
    have hcard := hwindow'.card_le
    exact ⟨r', mark_eq_some_iff.mp hmark, by omega, by omega⟩

/-- A configuration with a negative capacity. -/
def negativeCapacity : Config :=
  ⟨"ws://127.0.0.1", "call", "response", none, some (-1), none, none, none, none⟩

/-- With the capacity `-1` the first `mark` never ends, in either relay. -/
theorem negativeCapacity_not_marksEnd :
    ¬MarksEnd .typescript negativeCapacity ∧ ¬MarksEnd .rescript negativeCapacity := by
  have hnegative : (ofConfig negativeCapacity).capacity < 0 := show (-1 : ℤ) < 0 by omega
  have hnot (impl : Impl) : ¬MarksEnd impl negativeCapacity := by
    intro h
    obtain ⟨r', hmarks, _⟩ := h [] _ rfl "a"
    exact not_marks_of_neg hnegative (Finset.notMem_empty _) hmarks
  exact ⟨hnot .typescript, hnot .rescript⟩

end DedupRing

end InfinityBridge.Relay
