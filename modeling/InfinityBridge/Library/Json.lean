import Mathlib.Tactic

/-!
# JSON documents over an arbitrary type of numbers

A document is the syntax tree of a JSON text. The type of its numbers is a
parameter, since a document read by one language is the same tree as the text it
was read from, with every number replaced by that language's own. Reading and
printing are therefore one operation, `traverse`, which replaces the numbers and
fails when one of them cannot be represented. The members of an object are kept
in the order of the text.
-/

/-- A JSON document whose numbers are of type `ν`. -/
inductive Json (ν : Type*) where
  | null
  | bool (b : Bool)
  | num (n : ν)
  | str (s : String)
  | arr (xs : List (Json ν))
  | obj (ms : List (String × Json ν))

namespace Json

variable {ν μ κ : Type*}

mutual

/-- Replace every number by its image; `none` when one of them has no image. -/
def traverse (f : ν → Option μ) : Json ν → Option (Json μ)
  | .null => some .null
  | .bool b => some (.bool b)
  | .num n => (f n).map .num
  | .str s => some (.str s)
  | .arr xs => (traverseList f xs).map .arr
  | .obj ms => (traverseMembers f ms).map .obj

/-- `traverse` on the elements of an array. -/
def traverseList (f : ν → Option μ) : List (Json ν) → Option (List (Json μ))
  | [] => some []
  | x :: xs => (traverse f x).bind fun y => (traverseList f xs).map (y :: ·)

/-- `traverse` on the members of an object. -/
def traverseMembers (f : ν → Option μ) :
    List (String × Json ν) → Option (List (String × Json μ))
  | [] => some []
  | (k, x) :: ms => (traverse f x).bind fun y => (traverseMembers f ms).map ((k, y) :: ·)

end

mutual

/-- The numbers of a document, in the order of the text. -/
def nums : Json ν → List ν
  | .num n => [n]
  | .arr xs => numsList xs
  | .obj ms => numsMembers ms
  | _ => []

/-- The numbers of an array's elements. -/
def numsList : List (Json ν) → List ν
  | [] => []
  | x :: xs => nums x ++ numsList xs

/-- The numbers of an object's members. -/
def numsMembers : List (String × Json ν) → List ν
  | [] => []
  | (_, x) :: ms => nums x ++ numsMembers ms

end

mutual

/-- How many arrays and objects are open at the deepest place of a document. -/
def depth : Json ν → ℕ
  | .arr xs => depthList xs + 1
  | .obj ms => depthMembers ms + 1
  | _ => 0

/-- The depth of an array's deepest element. -/
def depthList : List (Json ν) → ℕ
  | [] => 0
  | x :: xs => max (depth x) (depthList xs)

/-- The depth of an object's deepest member. -/
def depthMembers : List (String × Json ν) → ℕ
  | [] => 0
  | (_, x) :: ms => max (depth x) (depthMembers ms)

end

/-- The member values under a name, in the order of the text. -/
def named (k : String) : List (String × Json ν) → List (Json ν)
  | [] => []
  | (k', x) :: ms => if k' = k then x :: named k ms else named k ms

/-- The property a script reads off a parsed value: the last member of that name
of an object, and nothing of anything else. -/
def property (k : String) : Json ν → Option (Json ν)
  | .obj ms => (named k ms).getLast?
  | _ => none

/-- An empty object has no members. -/
@[simp] theorem named_nil (k : String) : named k ([] : List (String × Json ν)) = [] := rfl

/-- The first member of a name comes first. -/
@[simp] theorem named_cons_self (k : String) (x : Json ν) (ms : List (String × Json ν)) :
    named k ((k, x) :: ms) = x :: named k ms := by
  simp only [named, if_true]

/-- A member of another name does not count. -/
theorem named_cons_ne {k k' : String} (h : k' ≠ k) (x : Json ν) (ms : List (String × Json ν)) :
    named k ((k', x) :: ms) = named k ms := by
  simp only [named, if_neg h]

/-- Members are looked up one part after the other. -/
theorem named_append (k : String) (ms ms' : List (String × Json ν)) :
    named k (ms ++ ms') = named k ms ++ named k ms' := by
  induction ms with
  | nil => rfl
  | cons m ms ih =>
    obtain ⟨k', x⟩ := m
    by_cases h : k' = k
    · simp [named, h, ih]
    · simp [named, h, ih]

/-- The values under a name are those of the members with that name. -/
theorem mem_named {k : String} {x : Json ν} {ms : List (String × Json ν)} :
    x ∈ named k ms ↔ (k, x) ∈ ms := by
  induction ms with
  | nil => simp
  | cons m ms ih =>
    obtain ⟨k', y⟩ := m
    by_cases h : k' = k
    · subst h
      simp [ih]
    · rw [named_cons_ne h, ih]
      simp [Ne.symm h]

/-- A filter on the names keeps all members of a name or none. -/
theorem named_filter (p : String → Bool) (k : String) (ms : List (String × Json ν)) :
    named k (ms.filter fun m => p m.1) = if p k then named k ms else [] := by
  induction ms with
  | nil => simp
  | cons m ms ih =>
    obtain ⟨k', x⟩ := m
    by_cases hk : k' = k
    · subst hk
      cases hp : p k' <;> simp_all
    · cases hp : p k' <;> simp_all [named_cons_ne hk]

/-- Changing the values does not change which of them are under a name. -/
theorem named_map (g : Json ν → Json μ) (k : String) (ms : List (String × Json ν)) :
    named k (ms.map fun m => (m.1, g m.2)) = (named k ms).map g := by
  induction ms with
  | nil => rfl
  | cons m ms ih =>
    obtain ⟨k', x⟩ := m
    by_cases hk : k' = k
    · subst hk
      simp [ih]
    · simp [named, hk, ih]

/-- An object's members are all nested less deep than a bound. -/
theorem depthMembers_lt_iff {n : ℕ} {ms : List (String × Json ν)} (hn : 0 < n) :
    depthMembers ms < n ↔ ∀ m ∈ ms, depth m.2 < n := by
  induction ms with
  | nil => simp [depthMembers, hn]
  | cons m ms ih =>
    obtain ⟨k, x⟩ := m
    simp [depthMembers, ih]

/-- A pass over the members is one over the values of each name. -/
theorem traverseList_named {f : ν → Option μ} {k : String} {ms : List (String × Json ν)}
    {ms' : List (String × Json μ)} (h : traverseMembers f ms = some ms') :
    traverseList f (named k ms) = some (named k ms') := by
  induction ms generalizing ms' with
  | nil =>
    cases h
    rfl
  | cons m ms ih =>
    obtain ⟨k', x⟩ := m
    rw [traverseMembers, Option.bind_eq_some_iff] at h
    obtain ⟨y, hy, h⟩ := h
    obtain ⟨ms'', hms, rfl⟩ := Option.map_eq_some_iff.mp h
    by_cases hk : k' = k
    · subst hk
      simp [traverseList, hy, ih hms]
    · rw [named_cons_ne hk, named_cons_ne hk, ih hms]

/-- What is a single element after a pass was one before. -/
theorem traverseList_eq_singleton {f : ν → Option μ} {xs : List (Json ν)} {y : Json μ} :
    traverseList f xs = some [y] ↔ ∃ x, xs = [x] ∧ traverse f x = some y := by
  constructor
  · intro h
    cases xs with
    | nil => cases h
    | cons x xs =>
      rw [traverseList, Option.bind_eq_some_iff] at h
      obtain ⟨z, hz, h⟩ := h
      obtain ⟨zs, hzs, heq⟩ := Option.map_eq_some_iff.mp h
      cases heq
      cases xs with
      | nil => exact ⟨x, rfl, hz⟩
      | cons x' xs =>
        rw [traverseList, Option.bind_eq_some_iff] at hzs
        obtain ⟨_, _, hzs⟩ := hzs
        obtain ⟨_, _, heq⟩ := Option.map_eq_some_iff.mp hzs
        cases heq
  · rintro ⟨x, rfl, hx⟩
    simp [traverseList, hx]

/-- A pass over the members gives something exactly when it does for each value. -/
theorem exists_traverseMembers {f : ν → Option μ} {ms : List (String × Json ν)} :
    (∃ ms', traverseMembers f ms = some ms') ↔ ∀ m ∈ ms, ∃ y, traverse f m.2 = some y := by
  induction ms with
  | nil => simp [traverseMembers]
  | cons m ms ih =>
    obtain ⟨k, x⟩ := m
    simp only [List.forall_mem_cons, ← ih, traverseMembers, Option.bind_eq_some_iff,
      Option.map_eq_some_iff]
    constructor
    · rintro ⟨_, y, hy, ms', hms, _⟩
      exact ⟨⟨y, hy⟩, ms', hms⟩
    · rintro ⟨⟨y, hy⟩, ms', hms⟩
      exact ⟨_, y, hy, ms', hms, rfl⟩

mutual

/-- The members of one name are a single member, the last one of them, as in a map that
the members are inserted into. -/
def keepLast : Json ν → Json ν
  | .arr xs => .arr (keepLastList xs)
  | .obj ms => .obj (keepLastMembers ms)
  | j => j

/-- `keepLast` on the elements of an array. -/
def keepLastList : List (Json ν) → List (Json ν)
  | [] => []
  | x :: xs => keepLast x :: keepLastList xs

/-- `keepLast` on the members of an object. -/
def keepLastMembers : List (String × Json ν) → List (String × Json ν)
  | [] => []
  | (k, x) :: ms =>
    if (named k ms).isEmpty then (k, keepLast x) :: keepLastMembers ms else keepLastMembers ms

end

mutual

/-- Two passes over a document are one pass with the composed function. -/
theorem traverse_bind (f : ν → Option μ) (g : μ → Option κ) :
    ∀ j : Json ν, (traverse f j).bind (traverse g) = traverse (fun n => (f n).bind g) j
  | .null => rfl
  | .bool _ => rfl
  | .num n => by cases h : f n <;> simp [traverse, h]
  | .str _ => rfl
  | .arr xs => by
    have h := traverseList_bind f g xs
    rw [traverse, traverse, ← h]
    cases traverseList f xs <;> simp [traverse]
  | .obj ms => by
    have h := traverseMembers_bind f g ms
    rw [traverse, traverse, ← h]
    cases traverseMembers f ms <;> simp [traverse]

/-- `traverse_bind` on the elements of an array. -/
theorem traverseList_bind (f : ν → Option μ) (g : μ → Option κ) :
    ∀ xs : List (Json ν),
      (traverseList f xs).bind (traverseList g) = traverseList (fun n => (f n).bind g) xs
  | [] => rfl
  | x :: xs => by
    have hx := traverse_bind f g x
    have hxs := traverseList_bind f g xs
    rw [traverseList, traverseList, ← hx, ← hxs]
    cases traverse f x <;> cases traverseList f xs <;> simp [traverseList]

/-- `traverse_bind` on the members of an object. -/
theorem traverseMembers_bind (f : ν → Option μ) (g : μ → Option κ) :
    ∀ ms : List (String × Json ν),
      (traverseMembers f ms).bind (traverseMembers g) =
        traverseMembers (fun n => (f n).bind g) ms
  | [] => rfl
  | (k, x) :: ms => by
    have hx := traverse_bind f g x
    have hms := traverseMembers_bind f g ms
    rw [traverseMembers, traverseMembers, ← hx, ← hms]
    cases traverse f x <;> cases traverseMembers f ms <;> simp [traverseMembers]

end

mutual

/-- A pass gives the document back exactly when it gives every number back. -/
theorem traverse_eq_self_iff (f : ν → Option ν) :
    ∀ j : Json ν, traverse f j = some j ↔ ∀ n ∈ nums j, f n = some n
  | .null => by simp [traverse, nums]
  | .bool _ => by simp [traverse, nums]
  | .num n => by simp [traverse, nums]
  | .str _ => by simp [traverse, nums]
  | .arr xs => by simpa [traverse, nums] using traverseList_eq_self_iff f xs
  | .obj ms => by simpa [traverse, nums] using traverseMembers_eq_self_iff f ms

/-- `traverse_eq_self_iff` on the elements of an array. -/
theorem traverseList_eq_self_iff (f : ν → Option ν) :
    ∀ xs : List (Json ν), traverseList f xs = some xs ↔ ∀ n ∈ numsList xs, f n = some n
  | [] => by simp [traverseList, numsList]
  | x :: xs => by
    have hx := traverse_eq_self_iff f x
    have hxs := traverseList_eq_self_iff f xs
    simp only [traverseList, numsList, List.mem_append, Option.bind_eq_some_iff,
      Option.map_eq_some_iff, List.cons.injEq, or_imp, forall_and, ← hx, ← hxs]
    constructor
    · rintro ⟨y, hy, ys, hys, rfl, rfl⟩
      exact ⟨hy, hys⟩
    · rintro ⟨hy, hys⟩
      exact ⟨x, hy, xs, hys, rfl, rfl⟩

/-- `traverse_eq_self_iff` on the members of an object. -/
theorem traverseMembers_eq_self_iff (f : ν → Option ν) :
    ∀ ms : List (String × Json ν),
      traverseMembers f ms = some ms ↔ ∀ n ∈ numsMembers ms, f n = some n
  | [] => by simp [traverseMembers, numsMembers]
  | (k, x) :: ms => by
    have hx := traverse_eq_self_iff f x
    have hms := traverseMembers_eq_self_iff f ms
    simp only [traverseMembers, numsMembers, List.mem_append, Option.bind_eq_some_iff,
      Option.map_eq_some_iff, List.cons.injEq, Prod.mk.injEq, true_and, or_imp, forall_and,
      ← hx, ← hms]
    constructor
    · rintro ⟨y, hy, ys, hys, rfl, rfl⟩
      exact ⟨hy, hys⟩
    · rintro ⟨hy, hys⟩
      exact ⟨x, hy, ms, hys, rfl, rfl⟩

end

mutual

/-- A pass that finds an image of every number gives a document. -/
theorem isSome_traverse {f : ν → Option μ} (hf : ∀ n, (f n).isSome = true) :
    ∀ j : Json ν, (traverse f j).isSome = true
  | .null => rfl
  | .bool _ => rfl
  | .num n => by simp [traverse, hf n]
  | .str _ => rfl
  | .arr xs => by simp [traverse, isSome_traverseList hf xs]
  | .obj ms => by simp [traverse, isSome_traverseMembers hf ms]

/-- `isSome_traverse` on the elements of an array. -/
theorem isSome_traverseList {f : ν → Option μ} (hf : ∀ n, (f n).isSome = true) :
    ∀ xs : List (Json ν), (traverseList f xs).isSome = true
  | [] => rfl
  | x :: xs => by
    obtain ⟨y, hy⟩ := Option.isSome_iff_exists.mp (isSome_traverse hf x)
    simp [traverseList, hy, isSome_traverseList hf xs]

/-- `isSome_traverse` on the members of an object. -/
theorem isSome_traverseMembers {f : ν → Option μ} (hf : ∀ n, (f n).isSome = true) :
    ∀ ms : List (String × Json ν), (traverseMembers f ms).isSome = true
  | [] => rfl
  | (k, x) :: ms => by
    obtain ⟨y, hy⟩ := Option.isSome_iff_exists.mp (isSome_traverse hf x)
    simp [traverseMembers, hy, isSome_traverseMembers hf ms]

end

mutual

/-- A pass leaves the nesting as it is. -/
theorem depth_of_traverse (f : ν → Option μ) :
    ∀ (j : Json ν) {k : Json μ}, traverse f j = some k → depth k = depth j
  | .null, _, h => by cases h; rfl
  | .bool _, _, h => by cases h; rfl
  | .num n, _, h => by
    obtain ⟨m, _, rfl⟩ := Option.map_eq_some_iff.mp h
    simp [depth]
  | .str _, _, h => by cases h; rfl
  | .arr xs, _, h => by
    obtain ⟨ys, hys, rfl⟩ := Option.map_eq_some_iff.mp h
    simp only [depth, depthList_of_traverseList f xs hys]
  | .obj ms, _, h => by
    obtain ⟨ys, hys, rfl⟩ := Option.map_eq_some_iff.mp h
    simp only [depth, depthMembers_of_traverseMembers f ms hys]

/-- `depth_of_traverse` on the elements of an array. -/
theorem depthList_of_traverseList (f : ν → Option μ) :
    ∀ (xs : List (Json ν)) {ys : List (Json μ)},
      traverseList f xs = some ys → depthList ys = depthList xs
  | [], _, h => by cases h; rfl
  | x :: xs, _, h => by
    rw [traverseList, Option.bind_eq_some_iff] at h
    obtain ⟨y, hy, h⟩ := h
    obtain ⟨ys, hys, rfl⟩ := Option.map_eq_some_iff.mp h
    rw [depthList, depthList, depth_of_traverse f x hy, depthList_of_traverseList f xs hys]

/-- `depth_of_traverse` on the members of an object. -/
theorem depthMembers_of_traverseMembers (f : ν → Option μ) :
    ∀ (ms : List (String × Json ν)) {ys : List (String × Json μ)},
      traverseMembers f ms = some ys → depthMembers ys = depthMembers ms
  | [], _, h => by cases h; rfl
  | (k, x) :: ms, _, h => by
    rw [traverseMembers, Option.bind_eq_some_iff] at h
    obtain ⟨y, hy, h⟩ := h
    obtain ⟨ys, hys, rfl⟩ := Option.map_eq_some_iff.mp h
    rw [depthMembers, depthMembers, depth_of_traverse f x hy,
      depthMembers_of_traverseMembers f ms hys]

end

end Json
