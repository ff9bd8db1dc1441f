import InfinityBridge.EndToEnd.Channel
import InfinityBridge.EndToEnd.World
import InfinityBridge.Relay.Requests

/-!
# Several relays on one CommBus

Any number of relays call one WASM bridge, whose responses are broadcast to all of them.
A relay takes a response for its own when the request id is in its `pending`, and each
relay draws its ids for itself. The CommBus hands over what is on it in any order, each
text once at most to a relay, and may lose it.

Acks stay with the relay whose command they are for in every run in which no relay draws
an id that another request still goes by, and a script hands on the numbers of the results.
Two relays that read the same millisecond can draw the same id.
-/

namespace InfinityBridge.EndToEnd

open Relay Wasm

/-- Relays with the same two CommBus events. -/
structure Fleet (ι : Type*) where
  impl : ι → Impl
  cfg : ι → ResolvedConfig
  callEvent_eq : ∀ i j, (cfg i).callEvent = (cfg j).callEvent
  responseEvent_eq : ∀ i j, (cfg i).responseEvent = (cfg j).responseEvent

/-- The relays and the texts between them and the bridge. -/
structure SharedBus (ι : Type*) where
  relays : ι → Relay.State
  /-- The calls on their way to the bridge, each with the relay that has made it. -/
  toWasm : List (ι × Text)
  /-- The texts on their way to each relay. -/
  inbox : ι → List Text
  /-- The runs of the handler, each with the relay whose call made the bridge run it. -/
  invocations : List (ι × Invocation)

inductive BusEvent (ι : Type*) where
  /-- A callback of relay `i` other than that for a CommBus text. -/
  | relay (i : ι) (e : RelayEvent)
  /-- The bridge receives the `k`-th call; `result` is what the handler returns if it is run. -/
  | handle (k : ℕ) (result : Except String Value)
  | loseCall (k : ℕ)
  /-- Relay `i` receives the `k`-th text on its way to it. -/
  | respond (i : ι) (k : ℕ)
  | loseResponse (i : ι) (k : ℕ)
  /-- `Bridge::emit`. -/
  | emit (name : String) (data : Value)

/-- The request that the bridge answers when it receives a text. -/
def asks (raw : Text) : Option String :=
  match dispatch .exact raw with
  | .command requestId _ _ | .failed requestId _ => some requestId
  | .event _ | .dropped => none

/-- The request that a relay takes a text for the response to. -/
def respondsTo (impl : Impl) (raw : Text) : Option String :=
  match raw.jsonParse.map (wasmMessage impl) with
  | some (.response requestId _ _ _) => some requestId
  | _ => none

/-- An envelope with this request id for a command with this id. -/
def Carries (requestId : String) (id : Option Value) (raw : Text) : Prop :=
  ∃ msg : Value, raw = .doc (envelope requestId msg) ∧ msg.property "id" = id

/-- The numbers of a text as a script reads and prints them, and the host reads them then. -/
def reprinted : Text → Option Text
  | .doc j => (j.traverse (Number.relayed Double.ofLiteral)).map .doc
  | .junk raw => some (.junk raw)

/-- A script hands on every text, with the numbers it makes of them. -/
theorem isSome_reprinted (t : Text) : (reprinted t).isSome = true := by
  cases t with
  | doc j => simp [reprinted, Json.isSome_traverse Number.isSome_relayed j]
  | junk raw => rfl

namespace SharedBus

variable {ι : Type*}

/-- Put a text of the bridge, if there is one, on its way to every relay. -/
def broadcast (w : SharedBus ι) (text : Option Text) : SharedBus ι :=
  { w with inbox := fun i => w.inbox i ++ text.toList }

/-- The bridge dispatches a call of relay `i` and broadcasts what it answers. The numbers of
the answer are on their way as the relays hand them on. -/
def handle (w : SharedBus ι) (i : ι) (raw : Text) (result : Except String Value) : SharedBus ι :=
  match dispatch .exact raw with
  | .command requestId name payload =>
    ({ w with
      invocations :=
        w.invocations ++ [(i, Invocation.mk raw requestId name payload result)] }).broadcast
        ((sendResponse .exact requestId result).bind reprinted)
  | .failed requestId message =>
    w.broadcast ((sendResponse .exact requestId (.error message)).bind reprinted)
  | .event _ | .dropped => w

def init (F : Fleet ι) : SharedBus ι where
  relays i := make (F.impl i) (F.cfg i)
  toWasm := []
  inbox _ := []
  invocations := []

section Steps

variable [DecidableEq ι] (F : Fleet ι)

/-- A callback of relay `i`: its calls go on the CommBus. -/
def relayStep (w : SharedBus ι) (i : ι) (e : RelayEvent) : Option (SharedBus ι) :=
  (State.step (F.impl i) (F.cfg i) (w.relays i) e).map fun relay => { w with
    relays := Function.update w.relays i relay
    toWasm := w.toWasm ++ (State.newCalls (w.relays i) relay).map (i, ·) }

/-- Take the `k`-th text off the way to relay `i`. -/
def takeText (w : SharedBus ι) (i : ι) (k : ℕ) : SharedBus ι :=
  { w with inbox := Function.update w.inbox i ((w.inbox i).eraseIdx k) }

/-- The steps of the relays and the bridge. -/
def step (w : SharedBus ι) : BusEvent ι → Option (SharedBus ι)
  | .relay i e =>
    match e with
    | .wasmMessage _ => none
    | e => w.relayStep F i e
  | .handle k result =>
    w.toWasm[k]?.map fun call =>
      ({ w with toWasm := w.toWasm.eraseIdx k }).handle call.1 call.2 result
  | .loseCall k => some { w with toWasm := w.toWasm.eraseIdx k }
  | .respond i k =>
    (w.inbox i)[k]?.bind fun raw => (w.takeText i k).relayStep F i (.wasmMessage raw)
  | .loseResponse i k => some (w.takeText i k)
  | .emit name data => some (w.broadcast (Wasm.emit .exact name data))

end Steps

/-- The handler has returned `result` for the envelope that relay `i` has sent for a
command. -/
def ComputedFor (w : SharedBus ι) (i : ι) (requestId : String) (id : Option Value)
    (result : Except String Value) : Prop :=
  ∃ r ∈ w.invocations, r.1 = i ∧ Carries requestId id r.2.raw ∧ r.2.result = result

/-- A frame of relay `i` is the ack of a command it has accepted, with the result of the
handler for the envelope that this relay has sent for that command. -/
def Rightful (w : SharedBus ι) (i : ι) (id : Option Value) (frame : Text) : Prop :=
  ∃ requestId v, (requestId, id) ∈ (w.relays i).accepted ∧ w.ComputedFor i requestId id (.ok v) ∧
    frame = .doc (ackFrame id true none (some v) none)

/-- Every ack with `ok` that is not marked as a duplicate is rightful. -/
def Unmixed (w : SharedBus ι) : Prop :=
  ∀ i, ∀ f ∈ (w.relays i).sent, ∀ id, State.AcksOk id f.frame →
    f.frame ≠ .doc (duplicateAck id) → w.Rightful i id f.frame

/-- No other request goes by the id that a relay draws. When the relay accepts a command
under it, the bridge is about to answer no call under it, and no response under it is on
its way to the relay. When the bridge will answer the call, no entry of any `pending` but
the new one is under it. And a script hands on the numbers of what the handler returns. -/
def Unshared (F : Fleet ι) (w : SharedBus ι) : BusEvent ι → Prop
  | .relay i e => ∀ d ∈ State.drawn (F.impl i) (w.relays i) e,
    (d.command ≠ none → (∀ call ∈ w.toWasm, asks call.2 ≠ some d.requestId) ∧
      ∀ raw ∈ w.inbox i, respondsTo (F.impl i) raw ≠ some d.requestId) ∧
    (d.thrown = false → asks d.text ≠ none → ∀ k, (k = i ∧ d.command ≠ none) ∨
      (w.relays k).pending.lookup d.requestId = none)
  | .handle _ (.ok v) => ∀ n ∈ v.nums, n.Intact Double.ofLiteral
  | _ => True

/-! ### Texts -/

/-- The bridge answers an envelope under its request id. -/
theorem eq_of_asks_envelope {rid rid' : String} {v : Value}
    (h : asks (.doc (envelope rid v)) = some rid') : rid = rid' := by
  unfold asks at h
  rw [dispatch_exact] at h
  split_ifs at h with hlimit
  cases hmsg : WireMsg.fromValue v with
  | none => simpa [hmsg] using h
  | some m => cases m <;> simp [hmsg] at h <;> exact h

/-- A response is handed on as it is when its numbers are. -/
theorem reprinted_responseDoc {rid : String} {result : Except String Value}
    (hintact : ∀ v, result = .ok v → ∀ n ∈ v.nums, n.Intact Double.ofLiteral) :
    reprinted (.doc (responseDoc rid result)) = some (.doc (responseDoc rid result)) := by
  have hresult : traverseResult (Number.relayed Double.ofLiteral) result = some result := by
    cases result with
    | ok v =>
      have hself : v.traverse (Number.relayed Double.ofLiteral) = some v :=
        (Json.traverse_eq_self_iff _ v).mpr fun n hn =>
          n.relayed_eq_self_iff.mpr (hintact v rfl n hn)
      rw [traverseResult, hself, Option.map_some]
    | error message => rfl
  rw [reprinted, traverse_responseDoc, hresult, Option.map_some, Option.map_some]

/-- What the bridge does with a call: the handler is run and its result is broadcast, or
nothing happens. -/
theorem handle_eq (w : SharedBus ι) (i : ι) (raw : Text) (result : Except String Value) :
    match asks raw with
    | none => w.handle i raw result = w
    | some rid => ∃ name payload, w.handle i raw result =
        ({ w with
          invocations :=
            w.invocations ++ [(i, Invocation.mk raw rid name payload result)] }).broadcast
            (reprinted (.doc (responseDoc rid result))) := by
  unfold asks SharedBus.handle
  cases hdispatch : dispatch .exact raw with
  | dropped | event => rfl
  | command rid name payload =>
    refine ⟨name, payload, ?_⟩
    rw [← toValue_ofResult]
    rfl
  | failed rid message =>
    -- printing never fails
    simp only [dispatch, SerdeJson.exact] at hdispatch
    split at hdispatch
    · cases hdispatch
    · split at hdispatch <;> cases hdispatch

/-- A result can be told from its response. -/
theorem responseDoc_injective {rid : String} {result result' : Except String Value}
    (h : responseDoc rid result = responseDoc rid result') : result = result' := by
  cases result <;> cases result' <;> simp [responseDoc] at h <;> rw [h]

/-- No text of the bridge is an ack. -/
theorem not_acksOk_of_text {c : BridgeCall} {raw : Text}
    (h : c.text = some raw) (id : Option Value) : ¬State.AcksOk id raw := by
  rintro ⟨j, hparse, ht, _⟩
  cases c with
  | emit name data =>
    cases h
    cases hparse
    simp [WireMsg.toValue, Json.property, Json.named] at ht
  | sendResponse rid result =>
    cases h
    cases hparse
    rw [toValue_ofResult] at ht
    cases result <;> simp [responseDoc, Json.property, Json.named] at ht

/-! ### What every step keeps -/

variable {F : Fleet ι} {w w' : SharedBus ι}

/-- Every call and every response under a request id that is pending is that of the
pending command. -/
structure Sound (F : Fleet ι) (w : SharedBus ι) : Prop where
  timers : ∀ i, (w.relays i).TimersOk
  heard : ∀ i, ∀ raw ∈ (w.relays i).heard, ∃ c : BridgeCall, c.text = some raw
  inbox : ∀ i, ∀ raw ∈ w.inbox i, ∃ c : BridgeCall, c.text = some raw
  accepted : ∀ i rid p, (w.relays i).pending.lookup rid = some p →
    (rid, p.cmdId) ∈ (w.relays i).accepted
  calls : ∀ i rid p, (w.relays i).pending.lookup rid = some p →
    ∀ call ∈ w.toWasm, asks call.2 = some rid → call.1 = i ∧ Carries rid p.cmdId call.2
  responses : ∀ i rid p, (w.relays i).pending.lookup rid = some p →
    ∀ raw ∈ w.inbox i, respondsTo (F.impl i) raw = some rid →
      ∃ result, w.ComputedFor i rid p.cmdId result ∧ raw = .doc (responseDoc rid result)
  unmixed : w.Unmixed

/-- At first there are no requests. -/
theorem sound_init (F : Fleet ι) : Sound F (init F) where
  timers _ := State.timersOk_make
  heard _ _ h := by cases h
  inbox _ _ h := by cases h
  accepted _ _ _ h := by cases h
  calls _ _ _ h := by cases h
  responses _ _ _ h := by cases h
  unmixed _ _ h := by cases h

/-- What was computed for a request remains so. -/
theorem ComputedFor.mono {i : ι} {rid : String} {id : Option Value}
    {result : Except String Value} (h : w.ComputedFor i rid id result)
    (hinvocations : w.invocations ⊆ w'.invocations) : w'.ComputedFor i rid id result := by
  obtain ⟨r, hr, hcomputed⟩ := h
  exact ⟨r, hinvocations hr, hcomputed⟩

/-- What a relay may do when it enters no request: take requests out of `pending`, hear
what is on its way to it, and send acks that are rightful. -/
structure Kept (w w' : SharedBus ι) (i : ι) : Prop where
  timers : (w'.relays i).TimersOk
  accepted : (w.relays i).accepted ⊆ (w'.relays i).accepted
  pending : ∀ rid p, (w'.relays i).pending.lookup rid = some p →
    (w.relays i).pending.lookup rid = some p
  heard : ∀ raw ∈ (w'.relays i).heard, raw ∈ (w.relays i).heard ∨ raw ∈ w.inbox i
  sent : ∀ f ∈ (w'.relays i).sent, f ∈ (w.relays i).sent ∨ ∀ id, State.AcksOk id f.frame →
    f.frame ≠ .doc (duplicateAck id) → w'.Rightful i id f.frame

/-- A relay that does nothing. -/
theorem Sound.kept (h : Sound F w) {i : ι} (hsame : w'.relays i = w.relays i) : Kept w w' i where
  timers := hsame ▸ h.timers i
  accepted _ hmem := hsame ▸ hmem
  pending _ _ hp := hsame ▸ hp
  heard _ hraw := .inl (hsame ▸ hraw)
  sent _ hf := .inl (hsame ▸ hf)

/-- Rightful acks stay rightful, and no other acks are sent. -/
theorem Sound.unmixed_of_sent (h : Sound F w)
    (haccepted : ∀ i, (w.relays i).accepted ⊆ (w'.relays i).accepted)
    (hinvocations : w.invocations ⊆ w'.invocations)
    (hsent : ∀ i, ∀ f ∈ (w'.relays i).sent, f ∈ (w.relays i).sent ∨
      ∀ id, State.AcksOk id f.frame → f.frame ≠ .doc (duplicateAck id) →
        w'.Rightful i id f.frame) : w'.Unmixed := by
  intro i f hf id hok hnot
  rcases hsent i f hf with hf | hnew
  · obtain ⟨rid, v, hacc, hcomputed, hframe⟩ := h.unmixed i f hf id hok hnot
    exact ⟨rid, v, haccepted i hacc, hcomputed.mono hinvocations, hframe⟩
  · exact hnew id hok hnot

/-- When no request is entered and no call is made, what is kept is sound as long as every
response that is new is for the request that is pending under its id. -/
theorem Sound.mono (h : Sound F w) (hkept : ∀ i, Kept w w' i) (hcalls : w'.toWasm ⊆ w.toWasm)
    (hinvocations : w.invocations ⊆ w'.invocations)
    (hinbox : ∀ i, ∀ raw ∈ w'.inbox i, raw ∈ w.inbox i ∨
      ((∃ c : BridgeCall, c.text = some raw) ∧
        ∀ rid p, (w.relays i).pending.lookup rid = some p → respondsTo (F.impl i) raw = some rid →
          ∃ result, w'.ComputedFor i rid p.cmdId result ∧ raw = .doc (responseDoc rid result))) :
    Sound F w' where
  timers i := (hkept i).timers
  heard i raw hraw := ((hkept i).heard raw hraw).elim (h.heard i raw) (h.inbox i raw)
  inbox i raw hraw := (hinbox i raw hraw).elim (h.inbox i raw) (·.1)
  accepted i rid p hp := (hkept i).accepted (h.accepted i rid p ((hkept i).pending rid p hp))
  calls i rid p hp call hcall := h.calls i rid p ((hkept i).pending rid p hp) call (hcalls hcall)
  responses i rid p hp raw hraw hresponds := by
    have hold := (hkept i).pending rid p hp
    rcases hinbox i raw hraw with hraw | ⟨_, hnew⟩
    · obtain ⟨result, hcomputed, heq⟩ := h.responses i rid p hold raw hraw hresponds
      exact ⟨result, hcomputed.mono hinvocations, heq⟩
    · exact hnew rid p hold hresponds
  unmixed := h.unmixed_of_sent (fun i => (hkept i).accepted) hinvocations fun i => (hkept i).sent

/-- A relay that hears the bridge only sends no ack with `ok` of its own accord, but for a
copy. -/
theorem eq_duplicateAck_of_unreported {cfg : ResolvedConfig} {heard : List Text} {f : Sent}
    (hheard : ∀ raw ∈ heard, ∃ c : BridgeCall, c.text = some raw)
    (h : State.Unreported cfg heard f) {id : Option Value} (hok : State.AcksOk id f.frame) :
    f.frame = .doc (duplicateAck id) := by
  rcases h.eq_duplicateAck hok with hframe | hmem
  · exact hframe
  · obtain ⟨c, hc⟩ := hheard _ hmem
    exact absurd hok (not_acksOk_of_text hc id)

/-- The bridge receives a call, which is taken off the CommBus. -/
theorem Sound.handle (h : Sound F w) {k : ℕ} {call : ι × Text} (hcall : w.toWasm[k]? = some call)
    {result : Except String Value}
    (hintact : ∀ v, result = .ok v → ∀ n ∈ v.nums, n.Intact Double.ofLiteral) :
    Sound F (({ w with toWasm := w.toWasm.eraseIdx k } : SharedBus ι).handle call.1 call.2
      result) := by
  have hmem : call ∈ w.toWasm := List.mem_of_getElem? hcall
  have hhandle := handle_eq { w with toWasm := w.toWasm.eraseIdx k } call.1 call.2 result
  cases hasks : asks call.2 with
  | none =>
    rw [hasks] at hhandle
    rw [hhandle]
    exact h.mono (fun i => h.kept rfl) List.eraseIdx_subset (fun _ hr => hr)
      fun i raw hraw => .inl hraw
  | some rid =>
    rw [hasks] at hhandle
    obtain ⟨name, payload, hhandle⟩ := hhandle
    rw [hhandle, reprinted_responseDoc hintact]
    refine h.mono (fun i => h.kept rfl) List.eraseIdx_subset (List.subset_append_left _ _) ?_
    intro i raw hraw
    rcases List.mem_append.mp hraw with hraw | hraw
    · exact .inl hraw
    · obtain rfl : raw = .doc (responseDoc rid result) := List.mem_singleton.mp hraw
      refine .inr ⟨⟨.sendResponse rid result, by rw [← toValue_ofResult]; rfl⟩, ?_⟩
      intro rid' p hp hresponds
      obtain ⟨ok, response, error, hmessage, _⟩ :=
        responseAck_result (F.impl i) numberText none rid result
      have hrid : rid = rid' := by
        simpa [respondsTo, hmessage] using hresponds
      subst hrid
      -- the call was that of the relay's own pending command
      obtain ⟨hown, hcarries⟩ := h.calls i rid p hp call hmem hasks
      exact ⟨result, ⟨_, List.mem_append_right _ (List.mem_singleton_self _), hown, hcarries, rfl⟩,
        rfl⟩

/-- The bridge emits an event, which is the response to no request. -/
theorem Sound.emit (h : Sound F w) (name : String) (data : Value) :
    Sound F (w.broadcast (Wasm.emit .exact name data)) := by
  refine h.mono (fun i => h.kept rfl) (fun _ hc => hc) (fun _ hr => hr) fun i raw hraw => ?_
  rcases List.mem_append.mp hraw with hraw | hraw
  · exact .inl hraw
  · obtain rfl : raw = .doc (WireMsg.event ⟨name, data⟩).toValue := List.mem_singleton.mp hraw
    refine .inr ⟨⟨.emit name data, rfl⟩, fun rid p _ hresponds => ?_⟩
    simp [respondsTo, wasmMessage_event] at hresponds

/-- What the arrival of a text of the bridge does: an event is forwarded, and a response
answers the command that is pending under its id, if there is one. -/
theorem step_text {impl : Impl} {cfg : ResolvedConfig} {s t : State} {c : BridgeCall}
    {raw : Text} (hc : c.text = some raw)
    (hstep : State.step impl cfg s (.wasmMessage raw) = some t) :
    (∀ rid p, t.pending.lookup rid = some p → s.pending.lookup rid = some p) ∧
      ∃ fs, t.sent = s.sent ++ fs ∧ ∀ f ∈ fs, f.frame = raw ∨
        ∃ rid p, s.pending.lookup rid = some p ∧ respondsTo impl raw = some rid ∧
          ∀ result, raw = .doc (responseDoc rid result) →
            f.frame = .doc (resultAck p.cmdId result) := by
  cases c with
  | emit name data =>
    have hchannel : channelStep impl cfg s (.call (.emit name data)) = some t := by
      rw [channelStep, hc]
      exact hstep
    cases hc
    rw [step_emit hchannel]
    exact ⟨fun _ _ hp => hp, _, rfl, fun f hf => .inl (by rw [List.mem_singleton.mp hf]; rfl)⟩
  | sendResponse rid result =>
    cases hc
    simp only [State.step] at hstep
    split_ifs at hstep
    cases hstep
    simp only [State.onWasmMessage, Text.jsonParse_doc, toValue_ofResult]
    obtain ⟨ok, response, error, hmessage, -⟩ := responseAck_result impl numberText none rid result
    simp only [hmessage]
    split
    · exact ⟨fun _ _ hp => hp, [], by simp, by simp⟩
    · next p hp =>
      obtain ⟨ok', response', error', hmessage', hack⟩ :=
        responseAck_result impl numberText p.cmdId rid result
      rw [hmessage, WasmMessage.response.injEq] at hmessage'
      obtain ⟨-, rfl, rfl, rfl⟩ := hmessage'
      simp only [hack]
      refine ⟨fun rid' p' hp' => ?_, _, rfl, fun f hf =>
        .inr ⟨rid, p, hp, ?_, fun result' heq => ?_⟩⟩
      · have herase : (s.pending.erase rid).lookup rid' = some p' := hp'
        rw [Table.lookup_erase_eq] at herase
        split_ifs at herase
        exact herase
      · simp [respondsTo, hmessage]
      · obtain rfl := responseDoc_injective (Text.doc.inj heq)
        rw [List.mem_singleton.mp hf]

/-- A frame is an ack with `ok` whose id and response are these texts. -/
def Acks (id response : String) (frame : Text) : Prop :=
  ((frame.jsonParse.bind (Json.property "t")).bind asString = some "ack" ∧
    (frame.jsonParse.bind (Json.property "ok")).bind asBool = some true) ∧
  (frame.jsonParse.bind (Json.property "id")).bind asString = some id ∧
    (frame.jsonParse.bind (Json.property "response")).bind asString = some response

instance (id response : String) (frame : Text) : Decidable (Acks id response frame) :=
  inferInstanceAs (Decidable ((_ ∧ _) ∧ _ ∧ _))

/-- Such a frame is an ack with `ok`, and no duplicate. -/
theorem Acks.acksOk {id response : String} {frame : Text} (h : Acks id response frame) :
    State.AcksOk (some (.str id)) frame ∧ frame ≠ .doc (duplicateAck (some (.str id))) := by
  obtain ⟨⟨ht, hok⟩, hid, hresponse⟩ := h
  constructor
  · cases frame with
    | junk raw => cases ht
    | doc j =>
      simp only [Text.jsonParse_doc, Option.bind_some, Option.bind_eq_some_iff] at ht hok hid
      obtain ⟨v, hv, hstr⟩ := ht
      obtain ⟨b, hb, hbool⟩ := hok
      obtain ⟨i, hi, histr⟩ := hid
      exact ⟨j, rfl, by rw [hv, eq_str_of_asString hstr], by rw [hb, eq_bool_of_asBool hbool],
        by rw [hi, eq_str_of_asString histr]⟩
  · rintro rfl
    simp [duplicateAck, ackFrame, member, Json.property, Json.named, asString] at hresponse

/-- An ack of a relay none of whose calls was handled is not rightful. -/
theorem not_unmixed {i : ι} {id response : String}
    (hframe : ∃ f ∈ (w.relays i).sent, Acks id response f.frame)
    (hothers : ∀ r ∈ w.invocations, r.1 ≠ i) : ¬w.Unmixed := by
  intro h
  obtain ⟨f, hf, hacks⟩ := hframe
  obtain ⟨hok, hnot⟩ := hacks.acksOk
  obtain ⟨rid, v, _, ⟨r, hr, hrelay, _⟩, _⟩ := h i f hf _ hok hnot
  exact hothers r hr hrelay

variable [DecidableEq ι] {i : ι} {e : RelayEvent}

/-- What one relay keeps, all of them keep. -/
theorem Sound.kept_update (h : Sound F w) (relay : State)
    (hrelays : w'.relays = Function.update w.relays i relay) (hkept : Kept w w' i) (j : ι) :
    Kept w w' j := by
  by_cases hj : j = i
  · exact hj ▸ hkept
  · exact h.kept (by rw [hrelays, Function.update_of_ne hj])

/-- A relay that sends no envelope. -/
theorem Sound.drawsNothing (h : Sound F w) {relay : State}
    (hdraws : State.DrawsNothing (F.cfg i) (w.relays i) relay) (htimers : relay.TimersOk)
    (hrelays : w'.relays = Function.update w.relays i relay)
    (hcalls : w'.toWasm ⊆ w.toWasm) (hinvocations : w'.invocations = w.invocations)
    (hinbox : ∀ j, w'.inbox j ⊆ w.inbox j) : Sound F w' := by
  have hself : w'.relays i = relay := by rw [hrelays, Function.update_self]
  obtain ⟨fs, hsent, hfs⟩ := hdraws.sent
  refine h.mono (h.kept_update relay hrelays ⟨?_, ?_, ?_, ?_, ?_⟩) hcalls
    (fun r hr => hinvocations ▸ hr) fun j raw hraw => .inl (hinbox j hraw)
  · exact hself ▸ htimers
  · exact hself ▸ hdraws.accepted
  · exact hself ▸ hdraws.pending
  · rw [hself, hdraws.heard]
    exact fun _ hraw => .inl hraw
  · rw [hself, hsent]
    intro f hf
    refine (List.mem_append.mp hf).imp_right fun hf id hok hnot => absurd ?_ hnot
    exact eq_duplicateAck_of_unreported (hdraws.heard ▸ h.heard i) (hfs f hf) hok

/-- After a draw an entry is the new one, or it is old and not under the id of the new one. -/
theorem pending_draws {relay : State} {d : Draw}
    (hdraws : State.Draws (F.cfg i) d (w.relays i) relay) {j : ι} {rid : String}
    {p : PendingRequest}
    (hp : (Function.update w.relays i relay j).pending.lookup rid = some p) :
    (j = i ∧ rid = d.requestId ∧ d.command = some p.cmdId) ∨
      ((j = i → rid = d.requestId → d.command = none) ∧
        (w.relays j).pending.lookup rid = some p) := by
  by_cases hj : j = i
  · subst hj
    rw [Function.update_self] at hp
    rcases hdraws.pending rid p hp with ⟨hrid, hid⟩ | ⟨hold, hp⟩
    · exact .inl ⟨rfl, hrid, hid⟩
    · exact .inr ⟨fun _ => hold, hp⟩
  · rw [Function.update_of_ne hj] at hp
    exact .inr ⟨fun heq => absurd heq hj, hp⟩

/-- Of the entries after a draw only the new one is asked for by the new call. -/
theorem calls_draws {relay : State} {d : Draw}
    (hdrawn : State.drawn (F.impl i) (w.relays i) e = some d)
    (hdraws : State.Draws (F.cfg i) d (w.relays i) relay) (hunshared : w.Unshared F (.relay i e))
    {j : ι} {rid : String} {p : PendingRequest}
    (hp : (Function.update w.relays i relay j).pending.lookup rid = some p) {text : Text}
    (htext : text ∈ State.newCalls (w.relays i) relay) (hasks : asks text = some rid) :
    j = i ∧ Carries rid p.cmdId text := by
  obtain ⟨_, halone⟩ := hunshared d hdrawn
  rw [hdraws.newCalls] at htext
  split_ifs at htext with hthrown
  · cases htext
  · obtain rfl : text = d.text := List.mem_singleton.mp htext
    obtain rfl : d.requestId = rid := eq_of_asks_envelope hasks
    rcases pending_draws hdraws hp with ⟨rfl, _, hid⟩ | ⟨hold, hp⟩
    · exact ⟨rfl, d.message, rfl, State.property_id_of_drawn hdrawn hid⟩
    · -- the new call would be answered to a request that is still pending
      have hanswered : asks d.text ≠ none := by simp [hasks]
      rcases halone (by simpa using hthrown) hanswered j with ⟨hj, hcommand⟩ | hnone
      · exact absurd (hold hj rfl) hcommand
      · rw [hp] at hnone
        cases hnone

/-- A relay that sends an envelope under an id by which no other request goes. -/
theorem Sound.draws (h : Sound F w) {relay : State} {d : Draw}
    (hdrawn : State.drawn (F.impl i) (w.relays i) e = some d)
    (hdraws : State.Draws (F.cfg i) d (w.relays i) relay) (htimers : relay.TimersOk)
    (hunshared : w.Unshared F (.relay i e)) :
    Sound F { w with
      relays := Function.update w.relays i relay
      toWasm := w.toWasm ++ (State.newCalls (w.relays i) relay).map (i, ·) } := by
  obtain ⟨hfree, _⟩ := hunshared d hdrawn
  obtain ⟨fs, hsent, hfs⟩ := hdraws.sent
  let w' : SharedBus ι := { w with
    relays := Function.update w.relays i relay
    toWasm := w.toWasm ++ (State.newCalls (w.relays i) relay).map (i, ·) }
  have hself : w'.relays i = relay := Function.update_self _ _ _
  have hother {j : ι} (hj : j ≠ i) : w'.relays j = w.relays j := Function.update_of_ne hj _ _
  have haccepted (j : ι) : (w.relays j).accepted ⊆ (w'.relays j).accepted := by
    by_cases hj : j = i
    · subst hj
      rw [hself, hdraws.accepted]
      exact List.subset_append_left _ _
    · exact fun _ hmem => hother hj ▸ hmem
  constructor
  case timers =>
    intro j
    show (w'.relays j).TimersOk
    by_cases hj : j = i
    · rw [hj, hself]
      exact htimers
    · rw [hother hj]
      exact h.timers j
  case heard =>
    intro j
    by_cases hj : j = i
    · subst hj
      rw [hself, hdraws.heard]
      exact h.heard j
    · exact hother hj ▸ h.heard j
  case inbox => exact h.inbox
  case accepted =>
    intro j rid p hp
    rcases pending_draws hdraws hp with ⟨rfl, rfl, hid⟩ | ⟨_, hp⟩
    · rw [hself, hdraws.accepted, hid]
      exact List.mem_append_right _ (List.mem_singleton_self _)
    · exact haccepted j (h.accepted j rid p hp)
  case calls =>
    intro j rid p hp call hcall hasks
    rcases List.mem_append.mp hcall with hmem | hmem
    · rcases pending_draws hdraws hp with ⟨rfl, rfl, hid⟩ | ⟨_, hp⟩
      · exact absurd hasks ((hfree (by simp [hid])).1 call hmem)
      · exact h.calls j rid p hp call hmem hasks
    · obtain ⟨text, htext, rfl⟩ := List.mem_map.mp hmem
      obtain ⟨rfl, hcarries⟩ := calls_draws hdrawn hdraws hunshared hp htext hasks
      exact ⟨rfl, hcarries⟩
  case responses =>
    intro j rid p hp raw hraw hresponds
    rcases pending_draws hdraws hp with ⟨rfl, rfl, hid⟩ | ⟨_, hp⟩
    · exact absurd hresponds ((hfree (by simp [hid])).2 raw hraw)
    · exact h.responses j rid p hp raw hraw hresponds
  case unmixed =>
    refine h.unmixed_of_sent haccepted (fun _ hr => hr) fun j f hf => ?_
    by_cases hj : j = i
    · subst hj
      rw [hself, hsent] at hf
      refine (List.mem_append.mp hf).imp_right fun hf id hok hnot => absurd ?_ hnot
      exact eq_duplicateAck_of_unreported (hdraws.heard ▸ h.heard j) (hfs f hf) hok
    · exact .inl (hother hj ▸ hf)

/-- A relay receives a text of the bridge. -/
theorem Sound.respond (h : Sound F w) {k : ℕ} {raw : Text} (hraw : (w.inbox i)[k]? = some raw)
    (hstep : (w.takeText i k).relayStep F i (.wasmMessage raw) = some w') : Sound F w' := by
  obtain ⟨relay, hrelay, rfl⟩ := Option.map_eq_some_iff.mp hstep
  have hmem : raw ∈ w.inbox i := List.mem_of_getElem? hraw
  have hcalm := State.calm_wasmMessage hrelay
  have hheard : relay.heard = (w.relays i).heard ++ [raw] := hcalm.heard
  have haccepted : relay.accepted = (w.relays i).accepted := hcalm.accepted
  have hnone : State.newCalls (w.relays i) relay = [] := hcalm.newCalls
  obtain ⟨c, hc⟩ := h.inbox i raw hmem
  obtain ⟨hpending, fs, hsent, hfs⟩ := step_text hc hrelay
  refine h.mono (h.kept_update relay rfl ⟨?_, ?_, ?_, ?_, ?_⟩) ?_ (fun _ hr => hr) ?_
  · simp only [Function.update_self]
    exact State.timersOk_step (h.timers i) hrelay
  · simp only [Function.update_self, haccepted]
    exact fun _ hacc => hacc
  · simp only [Function.update_self]
    exact hpending
  · simp only [Function.update_self, hheard]
    intro raw' hraw'
    rcases List.mem_append.mp hraw' with hraw' | hraw'
    · exact .inl hraw'
    · exact .inr (List.mem_singleton.mp hraw' ▸ hmem)
  · simp only [Function.update_self, hsent]
    intro f hf
    refine (List.mem_append.mp hf).imp_right fun hf id hok hnot => ?_
    rcases hfs f hf with hframe | ⟨rid, p, hp, hresponds, hframe⟩
    · exact absurd (hframe ▸ hok) (not_acksOk_of_text hc id)
    · -- the response was computed for the command that is pending
      obtain ⟨result, hcomputed, heq⟩ := h.responses i rid p hp raw hmem hresponds
      rw [hframe result heq] at hok ⊢
      cases result with
      | ok v =>
        obtain ⟨-, rfl⟩ := State.acksOk_ackFrame hok
        refine ⟨rid, v, ?_, hcomputed, rfl⟩
        simp only [Function.update_self, haccepted]
        exact h.accepted i rid p hp
      | error message => cases (State.acksOk_ackFrame hok).1
  · intro call hcall
    have hcalls : call ∈ w.toWasm ++ (State.newCalls (w.relays i) relay).map (i, ·) := hcall
    rwa [hnone, List.map_nil, List.append_nil] at hcalls
  · intro j raw' hraw'
    refine .inl ?_
    by_cases hj : j = i
    · subst hj
      simp only [takeText, Function.update_self] at hraw'
      exact List.mem_of_mem_eraseIdx hraw'
    · simpa [takeText, Function.update_of_ne hj] using hraw'

/-- Every step in which no relay draws an id that another request goes by keeps the bus
sound. -/
theorem sound_step (h : Sound F w) {ev : BusEvent ι} (hunshared : w.Unshared F ev)
    (hstep : w.step F ev = some w') : Sound F w' := by
  have htake (i : ι) (k : ℕ) (j : ι) : (w.takeText i k).inbox j ⊆ w.inbox j := by
    by_cases hj : j = i
    · subst hj
      simpa [takeText] using List.eraseIdx_subset
    · simp [takeText, Function.update_of_ne hj]
  cases ev with
  | relay i e =>
    have hrelay : w.relayStep F i e = some w' ∧ ∀ raw, e ≠ .wasmMessage raw := by
      cases e <;> simp_all [step]
    obtain ⟨hstep, hnot⟩ := hrelay
    obtain ⟨relay, ht, rfl⟩ := Option.map_eq_some_iff.mp hstep
    have htimers := State.timersOk_step (h.timers i) ht
    have hdraws := State.draws_step (h.timers i) hnot ht
    cases hdrawn : State.drawn (F.impl i) (w.relays i) e with
    | none =>
      rw [hdrawn] at hdraws
      refine h.drawsNothing hdraws htimers rfl ?_ rfl fun _ _ hraw => hraw
      simp [hdraws.newCalls]
    | some d =>
      rw [hdrawn] at hdraws
      exact h.draws hdrawn hdraws htimers hunshared
  | handle k result =>
    obtain ⟨call, hcall, rfl⟩ := Option.map_eq_some_iff.mp hstep
    exact h.handle hcall fun v hv => by
      subst hv
      exact hunshared
  | loseCall k =>
    rw [step, Option.some.injEq] at hstep
    subst hstep
    exact h.mono (fun _ => h.kept rfl) List.eraseIdx_subset (fun _ hr => hr)
      fun _ _ hraw => .inl hraw
  | respond i k =>
    obtain ⟨raw, hraw, hstep⟩ := Option.bind_eq_some_iff.mp hstep
    exact h.respond hraw hstep
  | loseResponse i k =>
    rw [step, Option.some.injEq] at hstep
    subst hstep
    exact h.mono (fun _ => h.kept rfl) (fun _ hc => hc) (fun _ hr => hr)
      fun j _ hraw => .inl (htake i k j hraw)
  | emit name data =>
    rw [step, Option.some.injEq] at hstep
    exact hstep ▸ h.emit name data

/-- In every run in which no relay draws an id that another request goes by, and the numbers
of the results are handed on, every ack with `ok` that is no duplicate carries what the
handler has returned for the relay's own envelope. -/
theorem acks_unmixed (F : Fleet ι) {evs : List (BusEvent ι)}
    (hunshared : Transition.Meets (step F) (Unshared F) (init F) evs) :
    Transition.Always (step F) Unmixed (init F) evs :=
  Transition.always_of_meets (fun _ h => h.unmixed)
    (fun _ _ _ h hunshared hstep => sound_step h hunshared hstep) hunshared (sound_init F)

instance [Fintype ι] (ev : BusEvent ι) : Decidable (w.Unshared F ev) := by
  unfold Unshared
  split <;> infer_instance

/-- A TypeScript and a ReScript relay that keep every default. -/
def twoRelays : Fleet Bool where
  impl rescript := if rescript then .rescript else .typescript
  cfg _ := defaultConfig
  callEvent_eq _ _ := rfl
  responseEvent_eq _ _ := rfl

/-- Both relays start. -/
def bothStarted : List (BusEvent Bool) :=
  [.relay false (.init false false), .relay true (.init false false),
    .relay false (.socketOpen 0 .epoch), .relay true (.socketOpen 0 .epoch)]

/-- The arrival of a command. -/
def command (id : String) (now : TimeValue) : RelayEvent :=
  .socketMessage 0 (some (WireMsg.cmd ⟨id, none, .null⟩).toJson) now false false

/-- Each relay takes a command in the same millisecond; the bridge handles the first one, and
the other relay receives the response. -/
def sameMillisecond : List (BusEvent Bool) := bothStarted ++
  [.relay false (command "a" .epoch), .relay true (command "b" .epoch),
    .handle 0 (.ok (.str "first")), .respond true 0]

/-- The run exists. -/
theorem sameMillisecond_isSome : (Transition.run (step twoRelays) (init twoRelays)
    sameMillisecond).isSome = true := by
  decide +kernel

/-- The second relay acks its command with the result of the first one's. -/
theorem sameMillisecond_sent : ∃ f ∈ (((Transition.run (step twoRelays) (init twoRelays)
    sameMillisecond).get sameMillisecond_isSome).relays true).sent, Acks "b" "first" f.frame := by
  decide +kernel

/-- The handler was not run for the second relay. -/
theorem sameMillisecond_invocations : ∀ r ∈ ((Transition.run (step twoRelays) (init twoRelays)
    sameMillisecond).get sameMillisecond_isSome).invocations, r.1 ≠ true := by
  decide +kernel

/-- The second relay acks its command with what the handler has returned for the command of
the first relay. -/
theorem sameMillisecond_mixed : ∃ w,
    Transition.run (step twoRelays) (init twoRelays) sameMillisecond = some w ∧ ¬w.Unmixed := by
  exact ⟨_, (Option.some_get sameMillisecond_isSome).symm,
    not_unmixed sameMillisecond_sent sameMillisecond_invocations⟩

/-- The second relay takes its command a millisecond later, and receives its own response. -/
def nextMillisecond : List (BusEvent Bool) := bothStarted ++
  [.relay false (command "a" .epoch), .relay true (command "b" ⟨1, by decide⟩),
    .handle 1 (.ok (.str "second")), .respond false 0, .respond true 0]

/-- The run exists. -/
theorem nextMillisecond_isSome : (Transition.run (step twoRelays) (init twoRelays)
    nextMillisecond).isSome = true := by
  decide +kernel

/-- No request id is drawn twice in it. -/
theorem nextMillisecond_unshared : Transition.Meets (step twoRelays) (Unshared twoRelays)
    (init twoRelays) nextMillisecond := by
  decide +kernel

/-- The second relay has answered its command. -/
theorem nextMillisecond_answered : ∃ f ∈ (((Transition.run (step twoRelays) (init twoRelays)
    nextMillisecond).get nextMillisecond_isSome).relays true).sent,
    f.origin = .answer "1-1" false := by
  decide +kernel

/-- With a millisecond between the commands the response answers the right one. -/
theorem acks_unmixed_nextMillisecond : ∃ w,
    Transition.run (step twoRelays) (init twoRelays) nextMillisecond = some w ∧ w.Unmixed ∧
      ∃ f ∈ (w.relays true).sent, f.origin = .answer "1-1" false := by
  have hrun := (Option.some_get nextMillisecond_isSome).symm
  have hunmixed := acks_unmixed twoRelays nextMillisecond_unshared
  exact ⟨_, hrun, Transition.always_iff.mp hunmixed _ _ List.prefix_rfl hrun,
    nextMillisecond_answered⟩

end SharedBus

end InfinityBridge.EndToEnd
