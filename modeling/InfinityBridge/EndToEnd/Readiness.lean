import InfinityBridge.EndToEnd.Reports
import InfinityBridge.EndToEnd.World

/-!
# Readiness

One relay and the host, with WebSockets that carry the frames of the relay in order. A
frame that was sent on a socket is on its way until the host takes it off, and can be
lost only when the socket is no longer open at the relay. What the host sends to the
relay is arbitrary. The connections of the host that belong to no socket of this relay
are those of other gauges, and receive arbitrary texts.
-/

namespace InfinityBridge.EndToEnd

open Relay Host

/-- Which socket of the relay a connection of the host belongs to, if it belongs to one. -/
structure Wiring where
  socket : ℕ → Option ℕ
  injective : ∀ c c' i, socket c = some i → socket c' = some i → c = c'

/-- A relay, the host, and the frames on their way to the host, by socket. -/
structure Link where
  relay : State
  host : Server
  up : ℕ → List Text

def Link.init (impl : Impl) (cfg : ResolvedConfig) : Link where
  relay := make impl cfg
  host := Server.init
  up := fun _ => []

inductive LinkEvent where
  | relay (e : RelayEvent)
  /-- A step of the host that takes no frame off a socket of the relay. -/
  | host (e : ServerEvent)
  /-- Connection `c` receives the next frame on its socket. -/
  | deliver (c : ℕ)
  /-- All but the first `n` frames on socket `i` are lost. -/
  | lose (i n : ℕ)

namespace Link

variable (wiring : Wiring) (impl : Impl) (cfg : ResolvedConfig) (scfg : ServerConfig)

/-- A step of the host. -/
def hostStep (w : Link) (e : ServerEvent) : Option Link :=
  (Server.step scfg w.host e).map fun host => { w with host }

/-- The steps of the link. -/
def step (w : Link) : LinkEvent → Option Link
  | .relay e =>
    (State.step impl cfg w.relay e).map fun relay => { w with
      relay
      up := fun i => w.up i ++ uploads w.relay relay i }
  | .host e =>
    match e with
    | .receive c (.text t) =>
      match wiring.socket c with
      | some _ => none
      | none => w.hostStep scfg (.receive c (.text t))
    | .accept c =>
      match wiring.socket c with
      | some i => if i < w.relay.nextSocket then w.hostStep scfg (.accept c) else none
      | none => w.hostStep scfg (.accept c)
    | e => w.hostStep scfg e
  | .deliver c =>
    match wiring.socket c with
    | none => none
    | some i =>
      match w.up i with
      | [] => none
      | frame :: frames =>
        ({ w with up := Function.update w.up i frames }).hostStep scfg (.receive c (.text frame))
  | .lose i n =>
    if (w.relay.sockets i).readyState = .open then none
    else some { w with up := Function.update w.up i ((w.up i).take n) }

/-- The work before the host on connection `c`: the rest of the frame it is in, and the
frames on socket `i`. -/
def ahead (w : Link) (c i : ℕ) : List ReaderOp :=
  (w.host.conns c).reader.todo ++ (w.up i).flatMap handleText

end Link

/-! ### A step of the relay -/

variable {impl : Impl} {cfg : ResolvedConfig} {s t : State} {e : RelayEvent}

/-- The texts of the gauge do not claim the reserved event. -/
def Unreserved : RelayEvent → Prop
  | .wasmMessage raw => ∀ e, WireMsg.fromJson raw = some (.event e) → e.name ≠ readyEvent
  | _ => True

/-- What a step of a relay tells the host on the socket that is open after it. -/
structure Tells (s t : State) (fs : List Sent) : Prop where
  sent : t.sent = s.sent ++ fs
  socket : ∀ f ∈ fs, f.socket = t.openSocket
  reported : .setReady true ∈ opsOf fs → t.commBusBound = true
  bound : s.commBusBound = true → t.commBusBound = true
  listening : (s.commBusBound = true → s.listeners ≠ []) →
    t.commBusBound = true → t.listeners ≠ []
  ready : ∀ i b, t.openSocket = some i → (s.openSocket = some i → b = s.commBusBound) →
    readiness b (opsOf fs) = t.commBusBound

/-- When a socket opens, the last thing said on it is the current readiness. -/
theorem readiness_onOpen (cfg : ResolvedConfig) (s : State) (now : TimeValue) :
    ∃ fs, (s.onOpen cfg now).sent = s.sent ++ fs ∧
      ∀ b, readiness b (opsOf fs) = (s.onOpen cfg now).commBusBound := by
  refine ⟨[⟨.hello, .doc (State.helloFrame cfg now), s.openSocket⟩,
    ⟨.ready, .doc (State.readyFrame s.commBusBound), s.openSocket⟩], ?_, fun b => ?_⟩
  · simp only [State.onOpen, State.sendReady, State.wsSend, List.append_assoc,
      List.singleton_append]
    rfl
  · simp [opsOf, handleText_readyFrame, ReaderOp.readiness, State.onOpen, State.sendReady,
      State.wsSend]

/-- Every step but a destruction tells the host what has become of the readiness. -/
theorem exists_tells (hdestroy : ∀ off unregister, e ≠ .destroy off unregister)
    (hunreserved : Unreserved e) (hstep : State.step impl cfg s e = some t) :
    ∃ fs, Tells s t fs := by
  obtain ⟨u, husent, hsame, _, hopen⟩ := State.socketsFirst_step hdestroy hstep
  obtain ⟨fs, hfs, hsockets⟩ := hsame.sent
  rw [husent] at hfs
  have hcancel {fs' : List Sent} (h : t.sent = s.sent ++ fs') : fs' = fs :=
    List.append_cancel_left (h.symm.trans hfs)
  have hsocket : ∀ f ∈ fs, f.socket = t.openSocket := fun f hf => by
    rw [hsockets f hf, hsame.openSocket]
  rcases reports_or_forwards hdestroy hstep with h | ⟨raw, rfl, ht⟩
  · obtain ⟨fs', hsent, _, hreported, hready⟩ := h.sent
    cases hcancel hsent
    refine ⟨fs, hfs, hsocket, hreported, h.bound, h.listening, fun i b hi hb => ?_⟩
    rw [hsame.openSocket] at hi
    rcases hopen i hi with hbefore | ⟨now, rfl⟩
    · rw [hb hbefore]
      exact hready
    · simp only [State.step] at hstep
      split_ifs at hstep
      cases hstep
      obtain ⟨fs'', hsent', hopened⟩ := readiness_onOpen cfg (s.setSocket i fun k => { k with
        opened := true
        readyState := if k.readyState = .connecting then .open else k.readyState }) now
      rw [← hcancel hsent']
      exact hopened b
  · have hone : t.sent = s.sent ++ [⟨.forwarded, raw, s.openSocket⟩] := by
      rw [ht]
      rfl
    have hops : opsOf fs = handleText raw := by
      rw [← hcancel hone]
      simp [opsOf]
    refine ⟨fs, hfs, hsocket, ?_, ?_, ?_, fun i b hi hb => ?_⟩
    · rw [hops]
      exact fun hmem => absurd hmem (setReady_notMem hunreserved true)
    · rw [ht]
      exact id
    · rw [ht]
      exact id
    · rw [hsame.openSocket] at hi
      rw [hops, readiness_eq_self (setReady_notMem hunreserved), ht]
      rcases hopen i hi with hbefore | ⟨now, h⟩
      · exact hb hbefore
      · cases h

/-- The frames that a step puts on a socket. -/
theorem uploads_eq {fs : List Sent} (h : Tells s t fs) (i : ℕ) :
    uploads s t i = if t.openSocket = some i then fs.map (·.frame) else [] := by
  rw [uploads, h.sent, List.drop_left]
  split_ifs with hopen
  · rw [List.filter_eq_self.mpr fun f hf => by simp [h.socket f hf, hopen]]
  · rw [List.filter_eq_nil_iff.mpr fun f hf => by simp [h.socket f hf, hopen], List.map_nil]

/-! ### What holds on the link -/

variable {wiring : Wiring} {scfg : ServerConfig} {w v : Link}

/-- The host believes a gauge ready, or is going to, only when the listener of the relay is
attached; and on the open socket of the relay, what the host believes is going to be what
the relay says. -/
structure Agreed (wiring : Wiring) (scfg : ServerConfig) (w : Link) : Prop where
  sound : Server.Sound scfg w.host
  listening : w.relay.commBusBound = true → w.relay.listeners ≠ []
  told : ∀ c i, wiring.socket c = some i → .setReady true ∈ w.ahead c i →
    w.relay.commBusBound = true
  believed : ∀ id client i, w.host.hub.clients.lookup id = some client →
    wiring.socket client.tx = some i → client.ready = true → w.relay.commBusBound = true
  coming : ∀ c i, wiring.socket c = some i → w.relay.openSocket = some i →
    (w.host.conns c).reader.entered = false →
      readiness false (w.ahead c i) = w.relay.commBusBound
  agrees : ∀ id client i, w.host.hub.clients.lookup id = some client →
    wiring.socket client.tx = some i → w.relay.openSocket = some i →
      readiness client.ready (w.ahead client.tx i) = w.relay.commBusBound

/-- At the start. -/
theorem agreed_init : Agreed wiring scfg (Link.init impl cfg) where
  sound := Server.sound_init
  listening h := by cases h
  told c i _ h := by cases h
  believed id client i h := by cases h
  coming c i _ h := by cases h
  agrees id client i h := by cases h

/-- A step of the relay. -/
theorem Agreed.relay_step (h : Agreed wiring scfg w)
    (hdestroy : ∀ off unregister, e ≠ .destroy off unregister) (hunreserved : Unreserved e)
    (hstep : Link.step wiring impl cfg scfg w (.relay e) = some v) : Agreed wiring scfg v := by
  simp only [Link.step] at hstep
  obtain ⟨relay, hrelay, rfl⟩ := Option.map_eq_some_iff.mp hstep
  obtain ⟨fs, htells⟩ := exists_tells hdestroy hunreserved hrelay
  have hahead (c i : ℕ) (hopen : relay.openSocket = some i) :
      Link.ahead ⟨relay, w.host, fun i => w.up i ++ uploads w.relay relay i⟩ c i =
        w.ahead c i ++ opsOf fs := by
    simp only [Link.ahead, uploads_eq htells, if_pos hopen, List.flatMap_append, List.append_assoc]
    rw [opsOf, List.flatMap_map]
  have hsame (c i : ℕ) (hopen : relay.openSocket ≠ some i) :
      Link.ahead ⟨relay, w.host, fun i => w.up i ++ uploads w.relay relay i⟩ c i =
        w.ahead c i := by
    simp only [Link.ahead, uploads_eq htells, if_neg hopen, List.append_nil]
  refine ⟨h.sound, htells.listening h.listening, fun c i hc hmem => ?_,
    fun id client i hclient htx hready => htells.bound (h.believed id client i hclient htx hready),
    fun c i hc hopen hentered => ?_, fun id client i hclient htx hopen => ?_⟩
  · by_cases hopen : relay.openSocket = some i
    · rw [hahead c i hopen] at hmem
      rcases List.mem_append.mp hmem with hmem | hmem
      · exact htells.bound (h.told c i hc hmem)
      · exact htells.reported hmem
    · rw [hsame c i hopen] at hmem
      exact htells.bound (h.told c i hc hmem)
  · rw [hahead c i hopen, readiness_append]
    exact htells.ready i _ hopen fun hbefore => h.coming c i hc hbefore hentered
  · rw [hahead _ i hopen, readiness_append]
    exact htells.ready i _ hopen fun hbefore => h.agrees id client i hclient htx hbefore

/-- A step of the host, which leaves the work before each connection as it is, or makes
the first call of it. -/
theorem Agreed.server_step (h : Agreed wiring scfg w) {e : ServerEvent} {host : Server}
    {up : ℕ → List Text} (hbound : w.host.registrations ≤ 2 ^ 64)
    (hstep : Server.step scfg w.host e = some host)
    (hahead : ∀ c i, wiring.socket c = some i →
      (e ≠ .readerOp c ∧ Link.ahead ⟨w.relay, host, up⟩ c i = w.ahead c i) ∨
      ∃ op, e = .readerOp c ∧
        (w.host.conns c).reader = .serving (op :: (host.conns c).reader.todo) ∧
        w.ahead c i = op :: Link.ahead ⟨w.relay, host, up⟩ c i) :
    Agreed wiring scfg ⟨w.relay, host, up⟩ := by
  refine ⟨Server.sound_step h.sound hstep, h.listening, fun c i hc hmem => h.told c i hc ?_,
    fun id client i hclient htx hready => ?_, fun c i hc hopen hentered => ?_,
    fun id client i hclient htx hopen => ?_⟩
  · rcases hahead c i hc with ⟨_, hsame⟩ | ⟨op, _, _, hop⟩
    · rwa [hsame] at hmem
    · rw [hop]
      exact List.mem_cons_of_mem _ hmem
  · rcases Server.ready_step h.sound hbound hstep hclient with ⟨_, _, hfalse⟩ |
      ⟨old, hold, hkept, hold', _⟩ | ⟨old, op, ops, hold, hkept, hop, rfl, hreader⟩
    · rw [hfalse] at hready
      cases hready
    · exact h.believed id old i hold (hkept ▸ htx) (hold' ▸ hready)
    · rcases hahead _ i htx with ⟨hne, _⟩ | ⟨op', _, hreader', hcons⟩
      · exact absurd rfl hne
      · rw [hreader] at hreader'
        cases hreader'
        cases op with
        | setReady b =>
          have hb : b = true := hop.symm.trans hready
          refine h.told _ i htx ?_
          rw [hcons, hb]
          exact List.mem_cons_self
        | _ => exact h.believed id old i hold (hkept ▸ htx) (hop.symm.trans hready)
  · have hbefore : (w.host.conns c).reader.entered = false := by
      by_contra hne
      rw [Server.entered_step hstep (Bool.not_eq_false _ ▸ hne)] at hentered
      cases hentered
    rcases hahead c i hc with ⟨_, hsame⟩ | ⟨op, _, hreader, _⟩
    · rw [hsame]
      exact h.coming c i hc hopen hbefore
    · rw [hreader] at hbefore
      cases hbefore
  · rcases Server.ready_step h.sound hbound hstep hclient with ⟨rfl, hreader, hfalse⟩ |
      ⟨old, hold, hkept, hold', hne⟩ | ⟨old, op, ops, hold, hkept, hop, rfl, hreader⟩
    · rcases hahead _ i htx with ⟨_, hsame⟩ | ⟨_, heq, _⟩
      · rw [hsame, hfalse]
        refine h.coming _ i htx hopen ?_
        rw [hreader]
        rfl
      · cases heq
    · rcases hahead _ i htx with ⟨_, hsame⟩ | ⟨_, heq, _⟩
      · rw [hsame, hold', hkept]
        exact h.agrees id old i hold (hkept ▸ htx) hopen
      · exact absurd heq hne
    · rcases hahead _ i htx with ⟨hne, _⟩ | ⟨op', _, hreader', hcons⟩
      · exact absurd rfl hne
      · rw [hreader] at hreader'
        cases hreader'
        have hagrees := h.agrees id old i hold (hkept ▸ htx) hopen
        rw [← hkept, hcons, readiness_cons, ← hop] at hagrees
        exact hagrees

/-- A step of the host on its own takes no frame off a socket of the relay. -/
theorem server_of_host {e : ServerEvent}
    (hstep : Link.step wiring impl cfg scfg w (.host e) = some v) :
    Server.step scfg w.host e = some v.host ∧ v = ⟨w.relay, v.host, w.up⟩ ∧
      ∀ c i text, wiring.socket c = some i → e ≠ .receive c (.text text) := by
  have hhost {e : ServerEvent} (h : w.hostStep scfg e = some v) :
      Server.step scfg w.host e = some v.host ∧ v = ⟨w.relay, v.host, w.up⟩ := by
    obtain ⟨host, hserver, rfl⟩ := Option.map_eq_some_iff.mp h
    exact ⟨hserver, rfl⟩
  simp only [Link.step] at hstep
  split at hstep
  · split at hstep
    · cases hstep
    · next hsocket =>
      refine ⟨(hhost hstep).1, (hhost hstep).2, fun c i text hc he => ?_⟩
      cases he
      rw [hsocket] at hc
      cases hc
  · split at hstep
    · split_ifs at hstep
      exact ⟨(hhost hstep).1, (hhost hstep).2, by simp⟩
    · exact ⟨(hhost hstep).1, (hhost hstep).2, by simp⟩
  · next hne _ =>
    refine ⟨(hhost hstep).1, (hhost hstep).2, fun c i text _ he => ?_⟩
    exact hne c text he

/-- What a step of the host does to the work before connection `c` on socket `i`: nothing, or
it makes the first call, or it takes the next frame off the socket. -/
inductive Link.Works (w v : Link) (e : ServerEvent) (c i : ℕ) : Prop where
  | idle (hne : e ≠ .readerOp c)
    (htodo : (v.host.conns c).reader.todo = (w.host.conns c).reader.todo) (hup : v.up i = w.up i)
  | call (op : ReaderOp) (he : e = .readerOp c)
    (hreader : (w.host.conns c).reader = .serving (op :: (v.host.conns c).reader.todo))
    (hup : v.up i = w.up i)
  | takes (frame : Text) (he : e = .receive c (.text frame))
    (hbefore : (w.host.conns c).reader.todo = [])
    (hafter : (v.host.conns c).reader.todo = handleText frame) (hup : w.up i = frame :: v.up i)

/-- What a step of the link is: a callback of the relay, a step of the host, or a loss. -/
inductive Link.Moves (wiring : Wiring) (impl : Impl) (cfg : ResolvedConfig) (scfg : ServerConfig)
    (w v : Link) : LinkEvent → Prop where
  | relay (e : RelayEvent) (hstep : State.step impl cfg w.relay e = some v.relay)
    (hhost : v.host = w.host) (hup : v.up = fun i => w.up i ++ uploads w.relay v.relay i) :
    Moves wiring impl cfg scfg w v (.relay e)
  | host (e : LinkEvent) (se : ServerEvent) (hstep : Server.step scfg w.host se = some v.host)
    (hrelay : v.relay = w.relay) (hworks : ∀ c i, wiring.socket c = some i → w.Works v se c i) :
    Moves wiring impl cfg scfg w v e
  | lose (i n : ℕ) (hclosed : (w.relay.sockets i).readyState ≠ .open)
    (hv : v = { w with up := Function.update w.up i ((w.up i).take n) }) :
    Moves wiring impl cfg scfg w v (.lose i n)

/-- A step of the host on its own. -/
theorem moves_host {e : ServerEvent}
    (hstep : Link.step wiring impl cfg scfg w (.host e) = some v) :
    Link.Moves wiring impl cfg scfg w v (.host e) := by
  obtain ⟨hserver, hv, hreceive⟩ := server_of_host hstep
  refine .host _ e hserver (by rw [hv]) fun c i hc => ?_
  have hup : v.up i = w.up i := by rw [hv]
  rcases Server.todo_step c hserver with ⟨text, he, _⟩ | ⟨op, he, hreader⟩ | ⟨_, hne, htodo⟩
  · exact absurd he (hreceive c i text hc)
  · exact .call op he hreader hup
  · exact .idle hne htodo hup

/-- The arrival of a frame. -/
theorem moves_deliver {c : ℕ} (hstep : Link.step wiring impl cfg scfg w (.deliver c) = some v) :
    Link.Moves wiring impl cfg scfg w v (.deliver c) := by
  simp only [Link.step] at hstep
  split at hstep
  · cases hstep
  · next i hsocket =>
    split at hstep
    · cases hstep
    · next frame frames hup =>
      obtain ⟨host, hserver, rfl⟩ := Option.map_eq_some_iff.mp hstep
      refine .host _ _ hserver rfl fun c' i' hc' => ?_
      by_cases hc : c' = c
      · subst hc
        cases hsocket.symm.trans hc'
        rcases Server.todo_step c' hserver with ⟨text, he, hbefore, hafter⟩ | ⟨_, he, _⟩ |
          ⟨hne, _⟩
        · cases he
          refine .takes frame rfl hbefore hafter (hup.trans ?_)
          exact congrArg (frame :: ·) (Function.update_self i frames w.up).symm
        · cases he
        · exact absurd rfl (hne frame)
      · have hi : i' ≠ i := by
          rintro rfl
          exact hc (wiring.injective _ _ _ hc' hsocket)
        have hother := Server.conn_step_other (c := c') hserver fun hactor =>
          hc (Option.some.inj hactor).symm
        exact .idle (by simp) (by rw [hother]) (Function.update_of_ne hi _ _)

/-- Every step of the link is one of these. -/
theorem moves_step {e : LinkEvent} (hstep : Link.step wiring impl cfg scfg w e = some v) :
    Link.Moves wiring impl cfg scfg w v e := by
  cases e with
  | relay e =>
    obtain ⟨relay, hrelay, rfl⟩ := Option.map_eq_some_iff.mp hstep
    exact .relay e hrelay rfl rfl
  | host e => exact moves_host hstep
  | deliver c => exact moves_deliver hstep
  | lose i n =>
    simp only [Link.step] at hstep
    split_ifs at hstep with hclosed
    cases hstep
    exact .lose i n hclosed rfl

/-- A step of the host leaves the work before a connection as it is, or makes the first call
of it. -/
theorem Link.Works.ahead {e : ServerEvent} {c i : ℕ} (h : w.Works v e c i) :
    (e ≠ .readerOp c ∧ v.ahead c i = w.ahead c i) ∨
      ∃ op, e = .readerOp c ∧
        (w.host.conns c).reader = .serving (op :: (v.host.conns c).reader.todo) ∧
        w.ahead c i = op :: v.ahead c i := by
  cases h with
  | idle hne htodo hup => exact .inl ⟨hne, by simp only [Link.ahead, htodo, hup]⟩
  | call op he hreader hup =>
    refine .inr ⟨op, he, hreader, ?_⟩
    simp only [Link.ahead, hreader, hup, Reader.todo, List.cons_append]
  | takes frame he hbefore hafter hup =>
    refine .inl ⟨by rw [he]; simp, ?_⟩
    simp only [Link.ahead, hbefore, hafter, hup, List.flatMap_cons, List.nil_append]

/-- What is left before a connection after a loss was before it already. -/
theorem mem_ahead_of_lose {i n c j : ℕ} {op : ReaderOp}
    (hmem : op ∈ Link.ahead { w with up := Function.update w.up i ((w.up i).take n) } c j) :
    op ∈ w.ahead c j := by
  have hsub : Function.update w.up i ((w.up i).take n) j ⊆ w.up j := by
    by_cases hj : j = i
    · subst hj
      rw [Function.update_self]
      exact fun _ => List.mem_of_mem_take
    · rw [Function.update_of_ne hj]
      exact List.Subset.refl _
  rcases List.mem_append.mp hmem with hmem | hmem
  · exact List.mem_append_left _ hmem
  · obtain ⟨frame, hframe, hop⟩ := List.mem_flatMap.mp hmem
    exact List.mem_append_right _ (List.mem_flatMap.mpr ⟨frame, hsub hframe, hop⟩)

/-- The loss of frames. -/
theorem Agreed.lose_step (h : Agreed wiring scfg w) {i n : ℕ}
    (hstep : Link.step wiring impl cfg scfg w (.lose i n) = some v) : Agreed wiring scfg v := by
  simp only [Link.step] at hstep
  split_ifs at hstep with hclosed
  cases hstep
  have hother {j : ℕ} (hopen : w.relay.openSocket = some j) : j ≠ i := by
    rintro rfl
    exact hclosed (State.openSocket_eq_some.mp hopen).2
  refine ⟨h.sound, h.listening, fun c j hc hmem => h.told c j hc (mem_ahead_of_lose hmem),
    h.believed, fun c j hc hopen hentered => ?_, fun id client j hclient htx hopen => ?_⟩
  · have hcoming := h.coming c j hc hopen hentered
    simpa only [Link.ahead, Function.update_of_ne (hother hopen)] using hcoming
  · have hagrees := h.agrees id client j hclient htx hopen
    simpa only [Link.ahead, Function.update_of_ne (hother hopen)] using hagrees

/-- The relay is not destroyed, and the gauge does not claim the reserved event. -/
def Undisturbed : LinkEvent → Prop
  | .relay e => (∀ off unregister, e ≠ .destroy off unregister) ∧ Unreserved e
  | _ => True

/-- Ids are only ever drawn. -/
theorem registrations_link {e : LinkEvent} (hstep : Link.step wiring impl cfg scfg w e = some v) :
    w.host.registrations ≤ v.host.registrations := by
  cases moves_step hstep with
  | relay e hrelay hhost hup => rw [hhost]
  | host e se hserver => exact Server.registrations_step hserver
  | lose i n hclosed hv => rw [hv]

/-- Every step keeps the link agreed. -/
theorem agreed_step (h : Agreed wiring scfg w) {e : LinkEvent} (hundisturbed : Undisturbed e)
    (hbound : w.host.registrations ≤ 2 ^ 64)
    (hstep : Link.step wiring impl cfg scfg w e = some v) : Agreed wiring scfg v := by
  cases moves_step hstep with
  | relay e hrelay hhost hup => exact h.relay_step hundisturbed.1 hundisturbed.2 hstep
  | host e se hserver hrelay hworks =>
    have hahead := fun c i hc => (hworks c i hc).ahead
    obtain ⟨relay, host, up⟩ := v
    subst hrelay
    exact h.server_step hbound hserver hahead
  | lose i n hclosed hv => exact h.lose_step hstep

/-- What the host believes about a gauge, and what the gauge says. -/
structure Link.ReadinessAgrees (wiring : Wiring) (w : Link) : Prop where
  /-- A record that is ready belongs to a relay whose response listener is attached. -/
  bound : ∀ id client i, w.relay.ws = some i → w.host.hub.clients.lookup id = some client →
    wiring.socket client.tx = some i → client.ready = true →
      w.relay.commBusBound = true ∧ w.relay.listeners ≠ []
  /-- With nothing in flight on the open socket, the record says what the relay says. -/
  agrees : ∀ id client i, w.relay.openSocket = some i →
    w.host.hub.clients.lookup id = some client → wiring.socket client.tx = some i →
    w.up i = [] → (w.host.conns client.tx).reader.todo = [] →
      client.ready = w.relay.commBusBound

/-- The host and the relay agree about readiness in every state that is reached without
destroying the relay, as long as fewer than `2 ^ 64` clients have been registered. -/
theorem readiness_agrees {es : List LinkEvent}
    (hrun : Transition.run (Link.step wiring impl cfg scfg) (Link.init impl cfg) es = some w)
    (hundisturbed : ∀ e ∈ es, Undisturbed e) (hbound : w.host.registrations < 2 ^ 64) :
    w.ReadinessAgrees wiring := by
  have hinvariant := Transition.run_invariant_of_meets
    (I := fun v => v.host.registrations ≤ 2 ^ 64 → Agreed wiring scfg v)
    (P := fun _ e => Undisturbed e)
    (fun v e v' h he hstep hv' =>
      have hv := (registrations_link hstep).trans hv'
      agreed_step (h hv) he hv hstep)
    (Transition.meets_of_forall hundisturbed (Link.init impl cfg)) hrun (fun _ => agreed_init)
  have h := hinvariant hbound.le
  refine ⟨fun id client i _ hclient htx hready => ?_,
    fun id client i hopen hclient htx hup htodo => ?_⟩
  · have hbound := h.believed id client i hclient htx hready
    exact ⟨hbound, h.listening hbound⟩
  · have hagrees := h.agrees id client i hclient htx hopen
    simpa [Link.ahead, hup, htodo] using hagrees

/-- Every connection of the host belongs to a socket of the relay. -/
def oneRelay : Wiring := ⟨some, fun _ _ _ h h' => Option.some.inj (h.trans h'.symm)⟩

/-- A relay that is bound only after its socket has opened. -/
def boundLate : List LinkEvent :=
  [.relay (.init false true), .host (.accept 0), .host (.fetchId 0), .host (.insert 0),
    .relay (.socketOpen 0 .epoch), .deliver 0, .host (.readerOp 0), .host (.readerOp 0),
    .deliver 0, .host (.readerOp 0), .host (.readerOp 0), .relay (.timer 1 false false),
    .deliver 0, .host (.readerOp 0), .host (.readerOp 0)]

/-- The run exists. -/
theorem boundLate_isSome :
    (Transition.run (Link.step oneRelay .typescript defaultConfig Server.defaultConfig)
      (Link.init .typescript defaultConfig) boundLate).isSome = true := by
  decide +kernel

/-- The state in which the relay is bound. -/
def boundLateState : Link :=
  (Transition.run (Link.step oneRelay .typescript defaultConfig Server.defaultConfig)
    (Link.init .typescript defaultConfig) boundLate).get boundLate_isSome

/-- Its last state. -/
theorem boundLateState_run :
    Transition.run (Link.step oneRelay .typescript defaultConfig Server.defaultConfig)
      (Link.init .typescript defaultConfig) boundLate = some boundLateState :=
  (Option.some_get boundLate_isSome).symm

/-- Its socket is open, its client registered and nothing in flight. -/
theorem boundLateState_quiet : boundLateState.relay.openSocket = some 0 ∧
    (boundLateState.host.hub.clients.lookup 1).isSome = true ∧
    (boundLateState.host.hub.clients.lookup 1).map Client.tx = some 0 ∧
    (boundLateState.up 0).isEmpty = true ∧
    (boundLateState.host.conns 0).reader.todo.isEmpty = true ∧
    boundLateState.host.registrations < 2 ^ 64 := by
  decide +kernel

/-- Nothing disturbs it. -/
theorem boundLate_undisturbed : ∀ e ∈ boundLate, Undisturbed e := by
  simp [boundLate, Undisturbed, Unreserved]

/-- The host knows that it is bound. -/
theorem readiness_agrees_boundLate : ∃ client,
    boundLateState.host.hub.clients.lookup 1 = some client ∧
      client.ready = boundLateState.relay.commBusBound := by
  obtain ⟨hopen, hisSome, htx, hup, htodo, hbound⟩ := boundLateState_quiet
  obtain ⟨client, hclient⟩ := Option.isSome_iff_exists.mp hisSome
  rw [hclient, Option.map_some, Option.some.injEq] at htx
  refine ⟨client, hclient, ?_⟩
  refine (readiness_agrees boundLateState_run boundLate_undisturbed hbound).agrees 1 client 0
    hopen hclient ?_ (List.isEmpty_iff.mp hup) ?_
  · rw [htx]
    rfl
  · rw [htx]
    exact List.isEmpty_iff.mp htodo

/-! ### After a wrap of the counter -/

/-- A connection of the host has worked through some calls, and no other connection has
done anything. -/
structure WorkedThrough (c : ℕ) (ops : List ReaderOp) (s t : Server) : Prop where
  reader : (t.conns c).reader = .serving []
  id : (t.conns c).id = (s.conns c).id
  others : ∀ c', c' ≠ c → t.conns c' = s.conns c'
  record : ∀ client, s.hub.clients.lookup (s.conns c).id = some client →
    ∃ client', t.hub.clients.lookup (s.conns c).id = some client' ∧
      client'.tx = client.tx ∧ client'.ready = readiness client.ready ops

variable (impl cfg scfg)

/-- Steps of the host that concern no frame of the relay are steps of the link. -/
theorem run_host (hsockets : ∀ c i, wiring.socket c = some i → i < w.relay.nextSocket)
    {es : List ServerEvent} (hes : ∀ e ∈ es, ∀ c text, e ≠ .receive c (.text text)) {host : Server}
    (hrun : Transition.run (Server.step scfg) w.host es = some host) :
    Transition.run (Link.step wiring impl cfg scfg) w (es.map .host) =
      some ⟨w.relay, host, w.up⟩ := by
  induction es generalizing w with
  | nil =>
    rw [Transition.run_nil, Option.some.injEq] at hrun
    subst hrun
    rfl
  | cons e es ih =>
    obtain ⟨u, hu, hrest⟩ := Transition.run_cons_eq_some.mp hrun
    refine Transition.run_cons_eq_some.mpr ⟨⟨w.relay, u, w.up⟩, ?_,
      ih hsockets (fun e he => hes e (List.mem_cons_of_mem _ he)) hrest⟩
    have hhost : w.hostStep scfg e = some ⟨w.relay, u, w.up⟩ := by
      rw [Link.hostStep, hu, Option.map_some]
    simp only [Link.step]
    split
    · exact absurd rfl (hes _ List.mem_cons_self _ _)
    · split
      · next i hsocket => rw [if_pos (hsockets _ i hsocket), hhost]
      · exact hhost
    · exact hhost

/-- The host works through what is before a connection. -/
theorem run_ops (hsockets : ∀ c i, wiring.socket c = some i → i < w.relay.nextSocket) {c : ℕ}
    {ops : List ReaderOp} (hreader : (w.host.conns c).reader = .serving ops) :
    ∃ host, Transition.run (Link.step wiring impl cfg scfg) w
        ((List.replicate ops.length (.readerOp c)).map .host) = some ⟨w.relay, host, w.up⟩ ∧
      WorkedThrough c ops w.host host := by
  obtain ⟨host, hrun, hdone, hid, hothers, hrecord⟩ := Server.run_ops scfg hreader
  refine ⟨host, run_host impl cfg scfg hsockets (fun e he c' text h => ?_) hrun, hdone, hid,
    hothers, hrecord⟩
  rw [List.eq_of_mem_replicate he] at h
  cases h

/-- The host receives the next frame on a connection and works through it. -/
theorem run_deliver (hsockets : ∀ c i, wiring.socket c = some i → i < w.relay.nextSocket)
    {c i : ℕ} {frame : Text} {frames : List Text} (hsocket : wiring.socket c = some i)
    (hup : w.up i = frame :: frames) (hreader : (w.host.conns c).reader = .serving []) :
    ∃ host, Transition.run (Link.step wiring impl cfg scfg) w
        (.deliver c :: (List.replicate (handleText frame).length (.readerOp c)).map .host) =
          some ⟨w.relay, host, Function.update w.up i frames⟩ ∧
      WorkedThrough c (handleText frame) w.host host := by
  let received : Link := ⟨w.relay,
    w.host.act c fun k => { k with reader := .serving (handleText frame) },
    Function.update w.up i frames⟩
  have hreceive : Link.step wiring impl cfg scfg w (.deliver c) = some received := by
    simp only [Link.step, hsocket, hup, Link.hostStep, Server.step, hreader, Option.map_some]
    rfl
  have hreader' : (received.host.conns c).reader = .serving (handleText frame) := by
    simp [received]
  obtain ⟨host, hrun, hworked⟩ : ∃ host, Transition.run (Link.step wiring impl cfg scfg) received
        ((List.replicate (handleText frame).length (.readerOp c)).map .host) =
          some ⟨received.relay, host, received.up⟩ ∧
      WorkedThrough c (handleText frame) received.host host :=
    run_ops impl cfg scfg (w := received) hsockets hreader'
  have hid : (received.host.conns c).id = (w.host.conns c).id := by simp [received]
  refine ⟨host, Transition.run_cons_eq_some.mpr ⟨received, hreceive, hrun⟩, hworked.reader,
    hworked.id.trans hid, fun c' hc' => ?_, fun client hclient => ?_⟩
  · rw [hworked.others c' hc']
    exact Server.act_conns_ne w.host hc' fun k => { k with reader := .serving (handleText frame) }
  · have hrecord := hworked.record client
    rw [hid] at hrecord
    exact hrecord hclient

/-- The events in which connections draw ids carry no text. -/
theorem draws_ne_receive {n : ℕ} {e : ServerEvent} (he : e ∈ Server.draws n ++ [.insert n])
    (c : ℕ) (text : Text) : e ≠ .receive c (.text text) := by
  rintro rfl
  simp [Server.draws] at he

/-- After `n` further draws, the last connection inserts its client under its id. -/
theorem exists_registered (scfg : ServerConfig) {s : Server} (hnextId : s.hub.nextId < 2 ^ 64)
    (hfresh : ∀ k, 0 < k → (s.conns k).reader = .absent) {n : ℕ} (hn : 0 < n) :
    ∃ t client, Transition.run (Server.step scfg) s (Server.draws n ++ [.insert n]) = some t ∧
      t.conns 0 = s.conns 0 ∧ (t.conns n).reader = .serving [] ∧
      (t.conns n).id = (s.hub.nextId + n - 1) % 2 ^ 64 ∧
      t.hub.clients.lookup (t.conns n).id = some client ∧ client.tx = n ∧
      client.ready = false := by
  obtain ⟨t, hdraws, hzero, _, _, hlast⟩ := Server.run_draws scfg hnextId hfresh n
  obtain ⟨hgotId, hid⟩ := hlast hn
  let inserted : Server := { t with
    hub := t.hub.insertClient (t.conns n).id n t.now
    lastHeard := Function.update t.lastHeard (t.conns n).id t.now }
  let u := inserted.act n fun k => { k with reader := .serving [], ping := .starting }
  have hinsert : Server.step scfg t (.insert n) = some u := by
    simp only [Server.step, hgotId, u, inserted]
  have huid : (u.conns n).id = (t.conns n).id := by simp [u, inserted]
  refine ⟨u, ⟨n, none, t.now, false⟩, Transition.run_concat_eq_some.mpr ⟨t, hdraws, hinsert⟩,
    ?_, ?_, ?_, ?_, rfl, rfl⟩
  · rw [← hzero]
    exact Server.act_conns_ne inserted hn.ne _
  · simp [u]
  · rw [huid, hid]
  · rw [huid]
    show (t.hub.clients.insert (t.conns n).id ⟨n, none, t.now, false⟩).lookup _ = _
    rw [Table.lookup_insert_eq, if_pos rfl]

/-- Work on a connection is done piece by piece. -/
theorem WorkedThrough.trans {c : ℕ} {ops ops' : List ReaderOp} {s t u : Server}
    (h : WorkedThrough c ops s t) (h' : WorkedThrough c ops' t u) :
    WorkedThrough c (ops ++ ops') s u := by
  refine ⟨h'.reader, h'.id.trans h.id, fun c' hc' => (h'.others c' hc').trans (h.others c' hc'),
    fun client hclient => ?_⟩
  obtain ⟨client', hclient', htx', hready'⟩ := h.record client hclient
  rw [← h.id] at hclient'
  obtain ⟨client'', hclient'', htx'', hready''⟩ := h'.record client' hclient'
  rw [h.id] at hclient''
  refine ⟨client'', hclient'', htx''.trans htx', ?_⟩
  rw [hready'', hready', readiness_append]

/-- The host receives all frames on a connection and works through them. -/
theorem run_deliver_all (hsockets : ∀ c i, wiring.socket c = some i → i < w.relay.nextSocket)
    {c i : ℕ} {frames : List Text} (hsocket : wiring.socket c = some i) (hup : w.up i = frames)
    (hreader : (w.host.conns c).reader = .serving []) :
    ∃ es v, Transition.run (Link.step wiring impl cfg scfg) w es = some v ∧
      (∀ e ∈ es, Undisturbed e) ∧ v.relay = w.relay ∧ v.up i = [] ∧
      WorkedThrough c (frames.flatMap handleText) w.host v.host := by
  induction frames generalizing w with
  | nil =>
    refine ⟨[], w, rfl, by simp, rfl, hup, hreader, rfl, fun _ _ => rfl, fun client h => ?_⟩
    exact ⟨client, h, rfl, by simp⟩
  | cons frame frames ih =>
    obtain ⟨host, hrun, hworked⟩ := run_deliver impl cfg scfg hsockets hsocket hup hreader
    let v : Link := ⟨w.relay, host, Function.update w.up i frames⟩
    obtain ⟨es, u, hrest, hundisturbed, hrelay, hdone, hworked'⟩ := ih (w := v) hsockets
      (Function.update_self _ _ _) hworked.reader
    refine ⟨_, u, Transition.run_append_eq_some.mpr ⟨v, hrun, hrest⟩, fun e he => ?_, hrelay,
      hdone, hworked.trans hworked'⟩
    rcases List.mem_append.mp he with he | he
    · rcases List.mem_cons.mp he with rfl | he
      · trivial
      · obtain ⟨e, _, rfl⟩ := List.mem_map.mp he
        trivial
    · exact hundisturbed e he

/-- The first and a much later connection of the host belong to the first two sockets. -/
def wrapped : Wiring where
  socket c := if c = 0 then some 0 else if c = 2 ^ 64 then some 1 else none
  injective c c' i h h' := by
    split_ifs at h h' <;> grind

/-- The relay reports on its first socket that it is not bound, loses that socket, binds and
reports this on the second one. The host has not quite got through the first report. -/
def reconnected : List LinkEvent :=
  [.relay (.init false true), .host (.accept 0), .host (.fetchId 0), .host (.insert 0),
    .relay (.socketOpen 0 .epoch), .deliver 0, .host (.readerOp 0), .host (.readerOp 0),
    .deliver 0, .host (.readerOp 0), .relay (.socketDrop 0), .relay (.socketClose 0),
    .relay (.timer 2 false false), .relay (.timer 1 false false),
    .relay (.socketOpen 1 .epoch)]

/-- The run exists. -/
theorem reconnected_isSome :
    (Transition.run (Link.step wrapped .typescript defaultConfig Server.defaultConfig)
      (Link.init .typescript defaultConfig) reconnected).isSome = true := by
  decide +kernel

/-- The state after that. -/
def reconnectedState : Link :=
  (Transition.run (Link.step wrapped .typescript defaultConfig Server.defaultConfig)
    (Link.init .typescript defaultConfig) reconnected).get reconnected_isSome

/-- What is on its way, and what the host has still to do. -/
theorem reconnectedState_facts : reconnectedState.relay.openSocket = some 1 ∧
    reconnectedState.relay.commBusBound = true ∧ reconnectedState.relay.nextSocket = 2 ∧
    readiness false ((reconnectedState.up 1).flatMap handleText) = true ∧
    (reconnectedState.host.conns 0).reader.isServing = true ∧
    readiness true (reconnectedState.host.conns 0).reader.todo = false ∧
    (reconnectedState.host.conns 0).id = 1 ∧ reconnectedState.host.hub.nextId = 2 := by
  decide +kernel

/-- No other connection of the host has been accepted. -/
theorem reconnectedState_fresh (k : ℕ) (hk : 0 < k) :
    (reconnectedState.host.conns k).reader = .absent := by
  cases k with
  | zero => cases hk
  | succ k => rfl

/-- Its last state. -/
theorem reconnectedState_run :
    Transition.run (Link.step wrapped .typescript defaultConfig Server.defaultConfig)
      (Link.init .typescript defaultConfig) reconnected = some reconnectedState :=
  (Option.some_get reconnected_isSome).symm

/-- Nothing disturbs it. -/
theorem reconnected_undisturbed : ∀ e ∈ reconnected, Undisturbed e := by
  simp [reconnected, Undisturbed, Unreserved]

/-- If the second connection registers under the id of the first one, and the host then
ends the report of the first one, it disagrees with the relay. -/
theorem exists_disagreement (hsockets : 1 < w.relay.nextSocket)
    (hopen : w.relay.openSocket = some 1) (hbound : w.relay.commBusBound = true)
    (hreport : readiness false ((w.up 1).flatMap handleText) = true) {todo : List ReaderOp}
    (hreader : (w.host.conns 0).reader = .serving todo) (hlate : readiness true todo = false)
    (hid : (w.host.conns 0).id = 1) (hnext : w.host.hub.nextId = 2)
    (hfresh : ∀ k, 0 < k → (w.host.conns k).reader = .absent) :
    ∃ es v, Transition.run (Link.step wrapped impl cfg scfg) w es = some v ∧
      (∀ e ∈ es, Undisturbed e) ∧ ¬v.ReadinessAgrees wrapped := by
  have hfrom : (2 ^ 64 : ℕ) ≠ 0 := by decide
  have hwrapped : ∀ c i, wrapped.socket c = some i → i < w.relay.nextSocket := by
    intro c i h
    simp only [wrapped] at h
    split_ifs at h <;> cases h <;> omega
  have hsecond : wrapped.socket (2 ^ 64) = some 1 := by
    simp only [wrapped, if_neg hfrom, if_true]
  have hone : (w.host.hub.nextId + 2 ^ 64 - 1) % 2 ^ 64 = 1 := by
    rw [hnext]
    decide
  obtain ⟨t, client, hrun, hzero, hserves, htid, hclient, htx, hready⟩ :=
    exists_registered scfg (s := w.host) (n := 2 ^ 64) (by rw [hnext]; decide) hfresh (by decide)
  rw [hone] at htid
  generalize (2 ^ 64 : ℕ) = n at *
  have hregistered := run_host impl cfg scfg hwrapped (fun e he => draws_ne_receive he) hrun
  -- it reports, on the second socket, that it is bound
  let v : Link := ⟨w.relay, t, w.up⟩
  obtain ⟨es, u, hreports, hundisturbed, hrelay, hup, hworked⟩ :=
    run_deliver_all impl cfg scfg (w := v) hwrapped hsecond rfl hserves
  obtain ⟨client', hclient', htx', hready'⟩ := hworked.record client hclient
  -- the host ends the report of the first socket
  have huzero : (u.host.conns 0).reader = .serving todo := by
    rw [hworked.others 0 hfrom.symm, hzero, hreader]
  obtain ⟨host, hended, hworked'⟩ := run_ops impl cfg scfg (w := u)
    (by rw [hrelay]; exact hwrapped) huzero
  have huid : (u.host.conns 0).id = (v.host.conns n).id := by
    rw [hworked.others 0 hfrom.symm, hzero, hid]
    exact htid.symm
  rw [← huid] at hclient'
  obtain ⟨client'', hclient'', htx'', hready''⟩ := hworked'.record client' hclient'
  have htrue : client'.ready = true := by
    rw [hready', hready]
    exact hreport
  have hfalse : client''.ready = false := by
    rw [hready'', htrue]
    exact hlate
  refine ⟨_, _,
    Transition.run_append_eq_some.mpr ⟨_, hregistered,
      Transition.run_append_eq_some.mpr ⟨_, hreports, hended⟩⟩, fun e he => ?_, fun h => ?_⟩
  · have hhost {es : List ServerEvent} (he : e ∈ es.map LinkEvent.host) : Undisturbed e := by
      obtain ⟨e, _, rfl⟩ := List.mem_map.mp he
      trivial
    rcases List.mem_append.mp he with he | he
    · exact hhost he
    · rcases List.mem_append.mp he with he | he
      · exact hundisturbed e he
      · exact hhost he
  · have hsocket : wrapped.socket client''.tx = some 1 := by
      rw [htx'', htx', htx]
      exact hsecond
    have hquiet : (host.conns client''.tx).reader.todo = [] := by
      rw [htx'', htx', htx, hworked'.others n hfrom, hworked.reader]
      rfl
    have hagrees := h.agrees (u.host.conns 0).id client'' 1 (by rw [hrelay]; exact hopen)
      hclient'' hsocket hup hquiet
    rw [hfalse, hrelay, hbound] at hagrees
    exact absurd hagrees (by decide)

/-- After `2 ^ 64` registrations the second connection has the id of the first one, whose
last report the host takes for its own. -/
theorem readiness_wraps : ∃ es w,
    Transition.run (Link.step wrapped .typescript defaultConfig Server.defaultConfig)
      (Link.init .typescript defaultConfig) es = some w ∧
    (∀ e ∈ es, Undisturbed e) ∧ ¬w.ReadinessAgrees wrapped := by
  obtain ⟨hopen, hbound, hsocket, hreport, hserving, hlate, hid, hnext⟩ := reconnectedState_facts
  obtain ⟨todo, hreader⟩ : ∃ todo, (reconnectedState.host.conns 0).reader = .serving todo := by
    cases hr : (reconnectedState.host.conns 0).reader <;> simp_all [Reader.isServing]
  rw [hreader] at hlate
  obtain ⟨es, w, hrun, hundisturbed, hdisagrees⟩ := exists_disagreement .typescript defaultConfig
    Server.defaultConfig (by rw [hsocket]; decide) hopen hbound hreport hreader hlate hid hnext
    reconnectedState_fresh
  refine ⟨reconnected ++ es, w,
    Transition.run_append_eq_some.mpr ⟨_, reconnectedState_run, hrun⟩, fun e he => ?_, hdisagrees⟩
  rcases List.mem_append.mp he with he | he
  · exact reconnected_undisturbed e he
  · exact hundisturbed e he

end InfinityBridge.EndToEnd
