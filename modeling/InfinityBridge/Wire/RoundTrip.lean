import InfinityBridge.Wire.Msg

/-!
# The round trip of a wire message

A message comes back from its text as it was, except that an optional value that is
`null` becomes absent. What was read from a text once does not change any more.
-/

/-- No value under a name is nested deeper than the object. -/
theorem Json.depth_le_of_mem_named {ν : Type*} {k : String} {v : Json ν}
    {ms : List (String × Json ν)} (h : v ∈ Json.named k ms) : v.depth ≤ depthMembers ms := by
  induction ms with
  | nil => cases h
  | cons m ms ih =>
    obtain ⟨k', x⟩ := m
    rw [depthMembers]
    by_cases hk : k' = k
    · subst hk
      rw [named_cons_self, List.mem_cons] at h
      rcases h with rfl | h
      · exact le_max_left _ _
      · exact (ih h).trans (le_max_right _ _)
    · rw [named_cons_ne hk] at h
      exact (ih h).trans (le_max_right _ _)

namespace InfinityBridge

/-- The values of any shape in a message. -/
def WireMsg.values : WireMsg → List Value
  | .hello p => p.metadata.toList
  | .ping _ | .pong _ => []
  | .cmd p => [p.payload]
  | .ack p => p.response.toList
  | .event p => [p.data]

/-- The JSON form of a message is one level deeper than the values in it. -/
theorem WireMsg.depth_toValue_le_iff (m : WireMsg) (k : ℕ) :
    m.toValue.depth ≤ k + 1 ↔ ∀ v ∈ m.values, v.depth ≤ k := by
  have hnull {α : Type} (f : α → Value) (hf : ∀ a, (f a).depth = 0) (o : Option α) :
      (orNull f o).depth = 0 := by
    cases o with
    | none => rfl
    | some a => exact hf a
  have hstr (o : Option String) : (orNull Json.str o : Value).depth = 0 := hnull _ (fun _ => rfl) o
  cases m with
  | hello p =>
    have hv : (orNull (Json.num ∘ Number.ofUInt32) p.v : Value).depth = 0 :=
      hnull _ (fun _ => rfl) _
    cases hm : p.metadata <;>
      simp [toValue, values, hm, unlessNone, Json.depth, Json.depthMembers, hstr, hv]
  | ping ts | pong ts =>
    have hts : (orNull (Json.num ∘ Number.ofUInt64) ts : Value).depth = 0 :=
      hnull _ (fun _ => rfl) _
    simp [toValue, values, Json.depth, Json.depthMembers, hts]
  | cmd p =>
    cases hn : p.name <;> simp [toValue, values, hn, unlessNone, Json.depth, Json.depthMembers]
  | ack p =>
    cases he : p.error <;> cases hr : p.response <;> cases hd : p.duplicate <;>
      simp [toValue, values, he, hr, hd, unlessNone, Json.depth, Json.depthMembers]
  | event p => simp [toValue, values, Json.depth, Json.depthMembers]

/-- A text is read exactly when its nesting is within the limit. -/
theorem Text.parse_doc {j : Value} (h : j.depth < recursionLimit) : (Text.doc j).parse = some j :=
  if_pos h

/-- A message whose values are nested within the limit reads back as its canonical form. -/
theorem WireMsg.fromJson_toJson {m : WireMsg} (h : ∀ v ∈ m.values, v.depth + 1 < recursionLimit) :
    fromJson m.toJson = some m.canonical := by
  have hdepth : m.toValue.depth < recursionLimit := by
    have hle := (m.depth_toValue_le_iff (recursionLimit - 2)).mpr fun v hv => by
      have := h v hv
      omega
    have hlimit : recursionLimit = 128 := rfl
    omega
  rw [fromJson, toJson, Text.parse_doc hdepth, Option.bind_some, fromValue_toValue]

/-! ### What has been read -/

/-- An optional value that has been read is not `null`, and stood under its name. -/
theorem optional_some_eq {ms : List (String × Value)} {i : ℕ} {k : String} {o : Option Value}
    (h : optional some ((Body.map ms).field i k) = some o) :
    dropNull o = o ∧ ∀ v ∈ o.toList, v ∈ Json.named k ms := by
  simp only [Body.field] at h
  split at h
  · cases h
    exact ⟨rfl, fun v hv => by cases hv⟩
  · next v hnamed =>
    cases v <;> simp only [optional, Option.map_some, Option.some.injEq] at h <;> subst h <;>
      simp [dropNull, hnamed]
  · cases h

/-- A required value that has been read stood under its name. -/
theorem required_some_eq {ms : List (String × Value)} {i : ℕ} {k : String} {v : Value}
    (h : required some ((Body.map ms).field i k) = some v) : v ∈ Json.named k ms := by
  obtain ⟨v', hnamed, hv⟩ := named_of_required h
  rw [Option.some.injEq] at hv
  simp [hnamed, hv]

/-- A message that has been read from the members of an object is canonical, and its
values are values of these members. -/
theorem WireMsg.of_fromTagged {tag : String} {ms : List (String × Value)} {d : WireMsg}
    (h : fromTagged tag (.map ms) = some d) :
    d.canonical = d ∧ ∀ v ∈ d.values, ∃ k, v ∈ Json.named k ms := by
  unfold fromTagged at h
  split at h <;> try obtain ⟨p, hp, rfl⟩ := Option.map_eq_some_iff.mp h
  case h_1 =>
    simp only [HelloPayload.fromBody, bind, Option.bind_eq_some_iff] at hp
    obtain ⟨_, _, _, _, _, _, _, _, _, _, _, _, metadata, hmeta, heq⟩ := hp
    cases heq
    obtain ⟨hcanonical, hmem⟩ := optional_some_eq hmeta
    exact ⟨by simp only [canonical, hcanonical], fun v hv => ⟨_, hmem v hv⟩⟩
  case h_2 | h_3 => exact ⟨rfl, fun v hv => by cases hv⟩
  case h_4 =>
    simp only [CmdPayload.fromBody, bind, Option.bind_eq_some_iff] at hp
    obtain ⟨_, _, _, _, _, _, payload, hpayload, heq⟩ := hp
    cases heq
    refine ⟨rfl, fun v hv => ⟨"payload", ?_⟩⟩
    rw [List.mem_singleton.mp hv]
    exact required_some_eq hpayload
  case h_5 =>
    simp only [AckPayload.fromBody, bind, Option.bind_eq_some_iff] at hp
    obtain ⟨_, _, _, _, _, _, _, _, response, hresponse, _, _, heq⟩ := hp
    cases heq
    obtain ⟨hcanonical, hmem⟩ := optional_some_eq hresponse
    exact ⟨by simp only [canonical, hcanonical], fun v hv => ⟨_, hmem v hv⟩⟩
  case h_6 =>
    simp only [EventPayload.fromBody, bind, Option.bind_eq_some_iff] at hp
    obtain ⟨_, _, _, _, data, hdata, heq⟩ := hp
    cases heq
    refine ⟨rfl, fun v hv => ⟨"data", ?_⟩⟩
    rw [List.mem_singleton.mp hv]
    exact required_some_eq hdata
  case h_7 => cases h

/-- What has been read from an object reads back as it is. -/
theorem WireMsg.fromJson_toJson_of_fromJson {ms : List (String × Value)} {d : WireMsg}
    (h : fromJson (.doc (.obj ms)) = some d) : fromJson d.toJson = some d := by
  obtain ⟨j, hparse, hvalue⟩ := Option.bind_eq_some_iff.mp h
  have hlimit : (Json.obj ms).depth < recursionLimit := by
    by_contra hge
    rw [Text.parse, if_neg hge] at hparse
    cases hparse
  cases Text.eq_doc_of_parse hparse
  simp only [fromValue] at hvalue
  split at hvalue
  · obtain ⟨hcanonical, hvalues⟩ := of_fromTagged hvalue
    rw [fromJson_toJson fun v hv => ?_, hcanonical]
    obtain ⟨k, hk⟩ := hvalues v hv
    have hle := Json.depth_le_of_mem_named hk
    rw [Json.depth] at hlimit
    omega
  · cases hvalue

/-- Every message reads back from its text, with the optional values that are `null` left
out; and a message that has been read from an object reads back exactly. -/
theorem WireMsg.codec_round_trip :
    (∀ m : WireMsg, (∀ v ∈ m.values, v.depth + 1 < recursionLimit) →
      fromJson m.toJson = some m.canonical) ∧
    ∀ (ms : List (String × Value)) (d : WireMsg),
      fromJson (.doc (.obj ms)) = some d → fromJson d.toJson = some d :=
  ⟨fun _ h => fromJson_toJson h, fun _ _ h => fromJson_toJson_of_fromJson h⟩

/-- A hello whose metadata are `null` comes back without them, and a command that has been
read from a text in another order comes back as it is. -/
theorem WireMsg.codec_round_trip_hello :
    fromJson (WireMsg.hello ⟨some "gauge", none, none, none, some 1, some .null⟩).toJson =
        some (.hello ⟨some "gauge", none, none, none, some 1, none⟩) ∧
      fromJson (WireMsg.cmd ⟨"a", none, .null⟩).toJson = some (.cmd ⟨"a", none, .null⟩) := by
  refine ⟨codec_round_trip.1 _ fun v hv => ?_, codec_round_trip.2
    [("payload", .null), ("extra", .bool true), ("id", .str "a"), ("name", .null),
      ("t", .str "cmd")]
    _ (by rfl)⟩
  rw [List.mem_singleton.mp hv]
  decide

end InfinityBridge
