import InfinityBridge.EndToEnd.Provenance

/-!
# How often a command is seen

The frame of a command is put once at most on each socket, and only the newest socket
can still deliver it. So the relay accepts a command once at most, puts it on the
CommBus once at most, and the handler runs for it once at most.
-/

namespace InfinityBridge.EndToEnd

open Relay Wasm

namespace World

variable {uuid : ℕ → String} {w w' : World} {e : Host.CallEvent}

/-- How many frames of command `c` are between the host and the relay on socket `i`. -/
def waiting (uuid : ℕ → String) (w : World) (c i : ℕ) : ℕ :=
  (w.inbound i).countP fun t => frameId t = some (uuid c)

/-- How many of these requests are for command `c`. -/
def requestsOf (uuid : ℕ → String) (c : ℕ) (rs : List (String × Option Value)) : ℕ :=
  rs.countP fun r => r.2.bind asString = some (uuid c)

/-- How many of these CommBus calls are for command `c`. -/
def callsOf (uuid : ℕ → String) (c : ℕ) (ts : List Text) : ℕ :=
  ts.countP fun t => callId t = some (uuid c)

/-- How many of these runs of the handler are for command `c`. -/
def runsOf (uuid : ℕ → String) (c : ℕ) (rs : List Invocation) : ℕ :=
  rs.countP fun r => callId r.raw = some (uuid c)

/-- No command is seen twice. -/
structure Counted (uuid : ℕ → String) (w : World) : Prop where
  newest : w.relay.Newest
  distinct : w.host.hub.Distinct
  clients : ∀ id k, w.host.hub.clients.lookup id = some k → w.connected k.tx = true
  connected : ∀ i, w.connected i = true → i < w.relay.nextSocket
  idle : ∀ i, w.connected i = false → w.inbound i = []
  unissued : ∀ c, ¬w.Issued c → requestsOf uuid c w.relay.accepted = 0 ∧ ∀ i, w.waiting uuid c i = 0
  acceptedOnce : ∀ c, requestsOf uuid c w.relay.accepted ≤ 1
  once : ∀ c i, i + 1 = w.relay.nextSocket →
    requestsOf uuid c w.relay.accepted + w.waiting uuid c i ≤ 1
  handled : ∀ c, callsOf uuid c w.toWasm + runsOf uuid c w.invocations ≤
    requestsOf uuid c w.relay.accepted
  copies : w.relay.copies = []

/-- At first there is nothing to count. -/
theorem counted_init (impl : Impl) (cfg : ResolvedConfig) : Counted uuid (init impl cfg) where
  newest _ h := by cases h
  distinct _ _ _ _ h := by cases h
  clients _ _ h := by cases h
  connected _ h := by cases h
  idle _ _ := rfl
  unissued _ _ := ⟨rfl, fun _ => rfl⟩
  acceptedOnce _ := Nat.zero_le _
  once _ _ h := by cases h
  handled _ := Nat.zero_le _
  copies := rfl

/-- What is not on a socket does not wait there. -/
theorem waiting_eq_zero {c i : ℕ} (h : w.inbound i = []) : w.waiting uuid c i = 0 := by
  rw [waiting, h, List.countP_nil]

/-- A socket that is no connection is no client's. -/
theorem Counted.holders_eq_zero (h : Counted uuid w) {i : ℕ} (hi : w.connected i = false) :
    w.host.hub.holders i = 0 := by
  refine Host.Hub.holders_eq_zero fun id k hk htx => ?_
  have := h.clients id k hk
  rw [htx, hi] at this
  cases this

/-- A step of the host keeps the counts, when it puts the frame of a command on a socket
only if it delivers that command. -/
theorem Counted.host (h : Counted uuid w) (hstepped : HostStepped uuid e w w')
    (hconnected : ∀ i, w'.connected i = true ↔ w.connected i = true ∨ e = .register i)
    (hregister : ∀ i, e = .register i → w.connected i = false ∧ i < w.relay.nextSocket)
    (hwaiting : ∀ c i, e ≠ .deliver c → w'.waiting uuid c i ≤ w.waiting uuid c i)
    (hdeliver : ∀ c i, e = .deliver c →
      w'.waiting uuid c i ≤ w.waiting uuid c i + w.host.hub.holders i)
    (hidle : ∀ i, w'.connected i = false → w.inbound i = [] → w'.inbound i = []) :
    Counted uuid w' := by
  have hclients {id : ℕ} {k : Host.Client} (hk : w'.host.hub.clients.lookup id = some k) :=
    Host.Calls.clients_step hstepped.host hk
  have hdistinct := h.distinct
  constructor
  case newest => rw [hstepped.relay]; exact h.newest
  case distinct =>
    intro id id' k k' hk hk' htx
    rcases hclients hk with ⟨k₀, hk₀, htx₀⟩ | ⟨rfl, hid⟩
    · rcases hclients hk' with ⟨k₀', hk₀', htx₀'⟩ | ⟨hreg, _⟩
      · exact h.distinct id id' k₀ k₀' hk₀ hk₀' (by rw [htx₀, htx₀', htx])
      · -- the channel of the new client is the channel of no other
        have hnot := (hregister _ hreg).1
        rw [← htx, ← htx₀, h.clients id k₀ hk₀] at hnot
        cases hnot
    · rcases hclients hk' with ⟨k₀', hk₀', htx₀'⟩ | ⟨_, hid'⟩
      · have hnot := (hregister _ rfl).1
        rw [htx, ← htx₀', h.clients id' k₀' hk₀'] at hnot
        cases hnot
      · rw [hid, hid']
  case clients =>
    intro id k hk
    rw [hconnected]
    rcases hclients hk with ⟨k₀, hk₀, htx₀⟩ | ⟨hreg, _⟩
    · exact .inl (htx₀ ▸ h.clients id k₀ hk₀)
    · exact .inr hreg
  case connected =>
    intro i hi
    rw [hstepped.relay]
    exact ((hconnected i).mp hi).elim (h.connected i) fun hreg => (hregister i hreg).2
  case idle =>
    intro i hi
    refine hidle i hi (h.idle i ?_)
    by_contra hne
    rw [(hconnected i).mpr (.inl (by simpa using hne))] at hi
    cases hi
  case unissued =>
    intro c hc
    have hc' : ¬w.Issued c := fun hissued => hc (hstepped.extends.issued c hissued).1
    have hne : e ≠ .deliver c := by
      rintro rfl
      exact hc (Host.Calls.delivered_step hstepped.host (.inr rfl)).1
    obtain ⟨haccepted, hwait⟩ := h.unissued c hc'
    rw [hstepped.relay]
    exact ⟨haccepted, fun i => Nat.le_zero.mp (hwait i ▸ hwaiting c i hne)⟩
  case acceptedOnce => rw [hstepped.relay]; exact h.acceptedOnce
  case once =>
    rw [hstepped.relay]
    intro c i hi
    by_cases he : e = .deliver c
    · subst he
      have hbefore := Host.Calls.beforeDelivery_of_deliver hstepped.host
      obtain ⟨haccepted, hwait⟩ := h.unissued c (fun hissued => hissued hbefore)
      have hle := hdeliver c i rfl
      rw [hwait i] at hle
      have := h.distinct.holders_le i
      omega
    · have := hwaiting c i he
      have := h.once c i hi
      omega
  case handled =>
    rw [hstepped.toWasm, hstepped.invocations, hstepped.relay]
    exact h.handled
  case copies => rw [hstepped.relay]; exact h.copies

/-- A callback of the relay keeps the counts, when it accepts a command only as it takes its
frame off the newest socket, and puts on the CommBus only what it accepts. -/
theorem Counted.relay {new : List (String × Option Value)} {heard calls : List Text}
    (h : Counted uuid w) (hstepped : RelayStepped new heard calls w w')
    (hbalance : ∀ c i, i + 1 = w.relay.nextSocket →
      requestsOf uuid c new + w'.waiting uuid c i ≤ w.waiting uuid c i)
    (hsocket : new ≠ [] → ∃ i, i + 1 = w.relay.nextSocket)
    (hcalls : ∀ c, callsOf uuid c calls ≤ requestsOf uuid c new) : Counted uuid w' := by
  have hinbound (i : ℕ) : (w'.inbound i).Sublist (w.inbound i) := by
    rw [inbound, inbound, hstepped.host]
    exact (List.Sublist.refl _).append (hstepped.down i)
  have hwaiting (c i : ℕ) : w'.waiting uuid c i ≤ w.waiting uuid c i :=
    (hinbound i).countP_le
  have haccepted (c : ℕ) : requestsOf uuid c w'.relay.accepted =
      requestsOf uuid c w.relay.accepted + requestsOf uuid c new := by
    rw [hstepped.calm.accepted]
    exact List.countP_append
  have hnone (c : ℕ) (hnew : new = []) : requestsOf uuid c new = 0 := by rw [hnew]; rfl
  have hsockets : w.relay.nextSocket ≤ w'.relay.nextSocket := hstepped.calm.nextSocket
  have honce (c : ℕ) : requestsOf uuid c w'.relay.accepted ≤ 1 := by
    rw [haccepted]
    by_cases hnew : new = []
    · rw [hnone c hnew]
      exact h.acceptedOnce c
    · obtain ⟨i, hi⟩ := hsocket hnew
      have := hbalance c i hi
      have := h.once c i hi
      omega
  constructor
  case newest => exact hstepped.calm.newest h.newest
  case distinct => rw [hstepped.host]; exact h.distinct
  case clients => rw [hstepped.host, hstepped.connected]; exact h.clients
  case connected =>
    rw [hstepped.connected]
    exact fun i hi => (h.connected i hi).trans_le hsockets
  case idle =>
    rw [hstepped.connected]
    exact fun i hi => List.sublist_nil.mp (h.idle i hi ▸ hinbound i)
  case unissued =>
    intro c hc
    rw [Issued, hstepped.host] at hc
    obtain ⟨hzero, hwait⟩ := h.unissued c hc
    refine ⟨?_, fun i => Nat.le_zero.mp (hwait i ▸ hwaiting c i)⟩
    rw [haccepted, hzero]
    by_cases hnew : new = []
    · rw [hnone c hnew]
    · obtain ⟨i, hi⟩ := hsocket hnew
      have := hbalance c i hi
      rw [hwait i] at this
      omega
  case acceptedOnce => exact honce
  case once =>
    intro c i hi
    by_cases hsame : w'.relay.nextSocket = w.relay.nextSocket
    · rw [haccepted]
      have := hbalance c i (hi.trans hsame)
      have := h.once c i (hi.trans hsame)
      omega
    · -- a socket that is new has nothing on it
      have hfresh : w.connected i = false := by
        by_contra hne
        have := h.connected i (by simpa using hne)
        omega
      have hzero : w.waiting uuid c i = 0 := waiting_eq_zero (h.idle i hfresh)
      have := hwaiting c i
      have := honce c
      omega
  case handled =>
    intro c
    have happend : callsOf uuid c w'.toWasm = callsOf uuid c w.toWasm + callsOf uuid c calls := by
      rw [hstepped.toWasm]
      exact List.countP_append
    rw [haccepted, happend, hstepped.invocations]
    have := h.handled c
    have := hcalls c
    omega
  case copies => exact hstepped.calm.copies.trans h.copies

/-- What happens on the sockets and the CommBus keeps the counts, when the handler runs
only for calls that it takes off the CommBus. -/
theorem Counted.bus (h : Counted uuid w) (hstepped : BusStepped w w')
    (hhandled : ∀ c, callsOf uuid c w'.toWasm + runsOf uuid c w'.invocations ≤
      callsOf uuid c w.toWasm + runsOf uuid c w.invocations) : Counted uuid w' := by
  have hinbound (i : ℕ) : (w'.inbound i).Sublist (w.inbound i) := by
    rw [inbound, inbound, hstepped.host]
    exact (List.Sublist.refl _).append (hstepped.down i)
  have hwaiting (c i : ℕ) : w'.waiting uuid c i ≤ w.waiting uuid c i :=
    (hinbound i).countP_le
  constructor
  case newest => rw [hstepped.relay]; exact h.newest
  case distinct => rw [hstepped.host]; exact h.distinct
  case clients => rw [hstepped.host, hstepped.connected]; exact h.clients
  case connected => rw [hstepped.connected, hstepped.relay]; exact h.connected
  case idle =>
    rw [hstepped.connected]
    exact fun i hi => List.sublist_nil.mp (h.idle i hi ▸ hinbound i)
  case unissued =>
    intro c hc
    rw [Issued, hstepped.host] at hc
    obtain ⟨hzero, hwait⟩ := h.unissued c hc
    rw [hstepped.relay]
    exact ⟨hzero, fun i => Nat.le_zero.mp (hwait i ▸ hwaiting c i)⟩
  case acceptedOnce => rw [hstepped.relay]; exact h.acceptedOnce
  case once =>
    rw [hstepped.relay]
    intro c i hi
    have := hwaiting c i
    have := h.once c i hi
    omega
  case handled =>
    rw [hstepped.relay]
    exact fun c => (hhandled c).trans (h.handled c)
  case copies => rw [hstepped.relay]; exact h.copies

end World

end InfinityBridge.EndToEnd
