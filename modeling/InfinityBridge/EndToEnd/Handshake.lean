import InfinityBridge.EndToEnd.Readiness
import InfinityBridge.Relay.Handshake

/-!
# The handshake

A gauge tells the host who it is in the hello of its socket. The host may be anywhere in
the frames of that socket, and the WASM module may have anything forwarded. What the host
knows of a gauge is what its relay was configured to say, and it knows it as soon as it has
worked through the first frame of the socket.
-/

namespace InfinityBridge.EndToEnd

open Relay Host

variable {impl : Impl} {cfg : ResolvedConfig} {version : UInt32} {s t : State} {e : RelayEvent}

/-- What the hello of a relay says, at this time and with this version. -/
def helloOf (cfg : ResolvedConfig) (version : UInt32) (now : TimeValue) : HelloPayload where
  client := some (cfg.hello.client.getD "msfs-gauge")
  aircraft := cfg.hello.aircraft
  tail := cfg.hello.tail
  session := some (cfg.hello.session.getD (toString now.millis))
  v := some version
  metadata := dropNull cfg.hello.metadata

/-- The version is a 32-bit integer, and the metadata are nested within the limit. -/
structure Greetable (cfg : ResolvedConfig) (version : UInt32) : Prop where
  version : cfg.protocolVersion = .ofUInt32 version
  depth : ∀ m, cfg.hello.metadata = some m → m.depth + 1 < recursionLimit

/-- An optional member is what is left out or written in a message. -/
theorem member_map {α : Type*} (k : String) (f : α → Value) (o : Option α) :
    member k (o.map f) = unlessNone k f o := by
  cases o <;> rfl

/-- An optional document is what is left out or written in a message. -/
theorem member_eq_unlessNone (k : String) (o : Option Value) : member k o = unlessNone k id o := by
  cases o <;> rfl

/-- The hello of a readable configuration is within the nesting limit. -/
theorem depth_helloFrame (h : Greetable cfg version) (now : TimeValue) :
    (State.helloFrame cfg now).depth < recursionLimit := by
  have hlimit : recursionLimit = 128 := rfl
  have hdepth := h.depth
  cases hm : cfg.hello.metadata with
  | none =>
    cases ha : cfg.hello.aircraft <;> cases ht : cfg.hello.tail <;>
      simp [State.helloFrame, ha, ht, hm, member, Json.depth, Json.depthMembers, hlimit]
  | some m =>
    have := hdepth m hm
    cases ha : cfg.hello.aircraft <;> cases ht : cfg.hello.tail <;>
      simp [State.helloFrame, ha, ht, hm, member, Json.depth, Json.depthMembers] <;> omega

/-- The host reads the hello of a relay as it was meant. -/
theorem helloFrame_fromJson (h : Greetable cfg version) (now : TimeValue) :
    WireMsg.fromJson (.doc (State.helloFrame cfg now)) =
      some (.hello (helloOf cfg version now)) := by
  have hstr : ∀ s : String, (Json.str s : Value) ≠ .null := fun _ h => by cases h
  have hnum : ∀ n, ((Json.num ∘ Number.ofUInt32) n : Value) ≠ .null := fun _ h => by cases h
  have hone {α : Type} (k : String) (f : α → Value) (a : α) :
      (unlessNone k f (some a)).map Prod.snd = [f a] := rfl
  rw [WireMsg.fromJson, Text.parse_doc (depth_helloFrame h now), Option.bind_some]
  simp only [State.helloFrame, WireMsg.fromValue, member_map, member_eq_unlessNone "meta",
    Json.named_append, named_unlessNone, WireMsg.fromTagged, HelloPayload.fromBody]
  rw [optional_unlessNone (f := Json.str) (o := some (cfg.hello.client.getD "msfs-gauge")) hstr
      (fun _ => rfl) (by simp [Json.named, Json.named_append, named_unlessNone, hone]),
    optional_unlessNone (f := Json.str) (o := cfg.hello.aircraft) hstr (fun _ => rfl)
      (by simp [Json.named, Json.named_append, named_unlessNone]),
    optional_unlessNone (f := Json.str) (o := cfg.hello.tail) hstr (fun _ => rfl)
      (by simp [Json.named, Json.named_append, named_unlessNone]),
    optional_unlessNone (f := Json.str)
      (o := some (cfg.hello.session.getD (toString now.millis))) hstr (fun _ => rfl)
      (by simp [Json.named, Json.named_append, named_unlessNone, hone]),
    optional_unlessNone (f := Json.num ∘ Number.ofUInt32) (o := some version) hnum
      (fun n => by simp [asUInt32])
      (by simp [Json.named, Json.named_append, named_unlessNone, hone, h.version]),
    optional_value (o := cfg.hello.metadata)
      (by simp [Json.named, Json.named_append, named_unlessNone])]
  simp [Json.named, Body.fits, helloOf]

/-! ### What a relay says about itself -/

/-- A document whose tag, as a script reads it, is another one than `hello` is no hello. -/
theorem setHello_notMem {frame : Text} {j : Value} (hparse : frame.jsonParse = some j)
    {tag : String} (htag : j.property "t" = some (.str tag)) (hne : tag ≠ "hello")
    (h : HelloPayload) : .setHello h ∉ handleText frame := by
  have hread (hmsg : WireMsg.fromJson frame = some (.hello h)) : False := by
    obtain ⟨j', hparse', hvalue⟩ := Option.bind_eq_some_iff.mp hmsg
    cases Text.eq_doc_of_parse hparse'
    cases hparse
    exact hne (WireMsg.tag_of_property hvalue htag).symm
  intro hmem
  rcases List.mem_cons.mp hmem with hmem | hmem
  · cases hmem
  cases hmsg : WireMsg.fromJson frame with
  | none => simp [hmsg] at hmem
  | some m =>
    cases m with
    | hello h' =>
      have heq : h = h' := by simpa [hmsg] using hmem
      exact hread (heq ▸ hmsg)
    | event e =>
      simp only [hmsg] at hmem
      split_ifs at hmem <;> cases List.mem_singleton.mp hmem
    | _ => simp [hmsg] at hmem

/-- The host takes a hello from a relay only if it is the one of its configuration. -/
theorem hello_of_wellMade (hgreets : Greetable cfg version) {f : Sent}
    (hmade : f.WellMade impl cfg e) {h : HelloPayload} (hmem : .setHello h ∈ handleText f.frame) :
    ∃ now, h = helloOf cfg version now := by
  obtain ⟨origin, frame, socket⟩ := f
  cases origin with
  | hello =>
    obtain ⟨now, rfl⟩ := hmade
    simp only [handleText, helloFrame_fromJson hgreets] at hmem
    exact ⟨now, by simpa using hmem⟩
  | ready =>
    obtain ⟨bound, rfl⟩ := hmade
    exact absurd hmem (setHello_notMem rfl (by rfl) (by decide) h)
  | pong =>
    obtain ⟨_, _, _, _, _, _, rfl⟩ := hmade
    exact absurd hmem (setHello_notMem rfl (by rfl) (by decide) h)
  | forwarded =>
    obtain ⟨_, j, hparse, hforward⟩ := hmade
    have hshape := wasmMessage_shape impl j
    rw [hforward] at hshape
    rcases hshape.1 with htag | htag
    · exact absurd hmem (setHello_notMem hparse htag (by decide) h)
    · exact absurd hmem (setHello_notMem hparse htag (by decide) h)
  | duplicate =>
    obtain ⟨id, rfl⟩ := hmade
    exact absurd hmem (setHello_notMem rfl (ackFrame_property_t _ _ _ _ _) (by decide) h)
  | answer rid own =>
    obtain ⟨id, ok, error, response, rfl⟩ := hmade
    exact absurd hmem (setHello_notMem rfl (ackFrame_property_t _ _ _ _ _) (by decide) h)

/-! ### What the host knows -/

variable {wiring : Wiring} {scfg : ServerConfig} {w v : Link}

/-- The hello of a socket is not yet in the record: nothing has come on a socket that is not
open, or the next frame is the hello, or the read loop is at it. -/
inductive Expects (cfg : ResolvedConfig) (version : UInt32) (socketOpen : Prop) :
    List ReaderOp → List Text → Prop where
  | closed (h : ¬socketOpen) : Expects cfg version socketOpen [] []
  | next (now : TimeValue) (frames : List Text) :
    Expects cfg version socketOpen [] (.doc (State.helloFrame cfg now) :: frames)
  | received (now : TimeValue) (frames : List Text) :
    Expects cfg version socketOpen [.touch, .setHello (helloOf cfg version now)] frames
  | touched (now : TimeValue) (frames : List Text) :
    Expects cfg version socketOpen [.setHello (helloOf cfg version now)] frames

/-- What the host knows of a gauge is what its relay says; and before it knows anything, the
hello is the first thing it is to hear. -/
structure Known (wiring : Wiring) (scfg : ServerConfig) (cfg : ResolvedConfig) (version : UInt32)
    (w : Link) : Prop where
  sound : Server.Sound scfg w.host
  said : ∀ c i h, wiring.socket c = some i → .setHello h ∈ w.ahead c i →
    ∃ now, h = helloOf cfg version now
  coming : ∀ c i, wiring.socket c = some i → (w.host.conns c).reader.entered = false →
    Expects cfg version (w.relay.openSocket = some i) (w.host.conns c).reader.todo (w.up i)
  known : ∀ id client i, w.host.hub.clients.lookup id = some client →
    wiring.socket client.tx = some i →
    (∃ now, client.hello = some (helloOf cfg version now)) ∨
      client.hello = none ∧ client.ready = false ∧ Expects cfg version
        (w.relay.openSocket = some i) (w.host.conns client.tx).reader.todo (w.up i)

/-- At first no client is registered. -/
theorem known_init : Known wiring scfg cfg version (Link.init impl cfg) where
  sound := Server.sound_init
  said c i h _ hmem := by cases hmem
  coming c i _ _ := .closed (by simp [Link.init, State.openSocket, make])
  known id client i hclient := by cases hclient

/-- What a relay sends next keeps the hello first. -/
theorem Expects.relay {i : ℕ} {todo : List ReaderOp} {up : List Text}
    (h : Expects cfg version (s.openSocket = some i) todo up)
    (hstep : State.step impl cfg s e = some t) :
    Expects cfg version (t.openSocket = some i) todo (up ++ uploads s t i) := by
  cases h with
  | closed hclosed =>
    obtain ⟨fs, hsent, _⟩ := State.writes_step hstep
    have hframes : t.framesOn i = s.framesOn i ++ fs.filter (·.socket = some i) :=
      State.framesOn_append hsent i
    rw [uploads_append hsent, List.nil_append]
    rcases State.framesOn_step hstep hclosed with ⟨hsame, hclosed'⟩ | ⟨now, _, hgreeted⟩
    · rw [hsame, List.self_eq_append_right] at hframes
      rw [hframes]
      exact .closed hclosed'
    · rw [hgreeted, List.append_cancel_left_eq] at hframes
      rw [← hframes]
      exact .next now _
  | next now frames => exact .next now _
  | received now frames => exact .received now _
  | touched now frames => exact .touched now _

/-- A step of the relay. -/
theorem Known.relay_step (h : Known wiring scfg cfg version w) (hgreets : Greetable cfg version)
    (hstep : State.step impl cfg w.relay e = some v.relay) (hhost : v.host = w.host)
    (hup : v.up = fun i => w.up i ++ uploads w.relay v.relay i) :
    Known wiring scfg cfg version v := by
  obtain ⟨fs, hsent, hmade⟩ := State.writes_step hstep
  refine ⟨hhost ▸ h.sound, fun c i hello hc hmem => ?_, fun c i hc hentered => ?_,
    fun id client i hclient htx => ?_⟩
  · simp only [Link.ahead, hhost, hup, List.flatMap_append, ← List.append_assoc] at hmem
    rcases List.mem_append.mp hmem with hmem | hmem
    · exact h.said c i hello hc hmem
    · obtain ⟨frame, hframe, hop⟩ := List.mem_flatMap.mp hmem
      rw [uploads_append hsent] at hframe
      obtain ⟨f, hf, rfl⟩ := List.mem_map.mp hframe
      exact hello_of_wellMade hgreets (hmade f (List.mem_of_mem_filter hf)) hop
  · rw [hhost] at hentered ⊢
    rw [hup]
    exact (h.coming c i hc hentered).relay hstep
  · rw [hhost] at hclient ⊢
    rw [hup]
    exact (h.known id client i hclient htx).imp_right fun hknown =>
      ⟨hknown.1, hknown.2.1, hknown.2.2.relay hstep⟩

/-- A step of the host takes the hello off the socket, or works through it. -/
theorem Expects.works {e : ServerEvent} {c i : ℕ} {socketOpen : Prop}
    (h : Expects cfg version socketOpen (w.host.conns c).reader.todo (w.up i))
    (hgreets : Greetable cfg version) (hworks : w.Works v e c i) :
    (e ≠ .readerOp c ∧ Expects cfg version socketOpen (v.host.conns c).reader.todo (v.up i)) ∨
    (e = .readerOp c ∧ (∃ ops, (w.host.conns c).reader = .serving (.touch :: ops)) ∧
      Expects cfg version socketOpen (v.host.conns c).reader.todo (v.up i)) ∨
    (e = .readerOp c ∧ ∃ now, (w.host.conns c).reader =
      .serving [.setHello (helloOf cfg version now)]) := by
  cases hworks with
  | idle hne htodo hup =>
    rw [htodo, hup]
    exact .inl ⟨hne, h⟩
  | call op he hreader hup =>
    rw [hreader, Reader.todo] at h
    rw [hup]
    right
    generalize (v.host.conns c).reader.todo = todo at *
    cases h with
    | received now frames => exact .inl ⟨he, ⟨_, hreader⟩, .touched now _⟩
    | touched now frames => exact .inr ⟨he, now, hreader⟩
  | takes frame he hbefore hafter hup =>
    refine .inl ⟨by rw [he]; simp, ?_⟩
    rw [hbefore, hup] at h
    rw [hafter]
    generalize v.up i = frames at *
    cases h with
    | next now frames =>
      simp only [handleText, helloFrame_fromJson hgreets]
      exact .received now _

/-- A step of the host. -/
theorem Known.host_step (h : Known wiring scfg cfg version w) (hgreets : Greetable cfg version)
    {e : ServerEvent} (hbound : w.host.registrations ≤ 2 ^ 64)
    (hstep : Server.step scfg w.host e = some v.host) (hrelay : v.relay = w.relay)
    (hworks : ∀ c i, wiring.socket c = some i → w.Works v e c i) :
    Known wiring scfg cfg version v := by
  refine ⟨Server.sound_step h.sound hstep, fun c i hello hc hmem => h.said c i hello hc ?_,
    fun c i hc hentered => ?_, fun id client i hclient htx => ?_⟩
  · rcases (hworks c i hc).ahead with ⟨_, hsame⟩ | ⟨op, _, _, hop⟩
    · rwa [hsame] at hmem
    · rw [hop]
      exact List.mem_cons_of_mem _ hmem
  · have hbefore : (w.host.conns c).reader.entered = false := by
      by_contra hne
      rw [Server.entered_step hstep (Bool.not_eq_false _ ▸ hne)] at hentered
      cases hentered
    rw [hrelay]
    rcases (h.coming c i hc hbefore).works hgreets (hworks c i hc) with ⟨_, hexpects⟩ |
      ⟨_, ⟨ops, hreader⟩, _⟩ | ⟨_, now, hreader⟩
    · exact hexpects
    · rw [hreader] at hbefore
      cases hbefore
    · rw [hreader] at hbefore
      cases hbefore
  · rw [hrelay]
    rcases Server.record_step h.sound hbound hstep hclient with ⟨rfl, hreader, hnew⟩ |
      ⟨hold, hne⟩ | ⟨old, op, ops, hold, hclient', rfl, hreader⟩
    · have hexpects := h.coming client.tx i htx (by rw [hreader]; rfl)
      rcases hexpects.works hgreets (hworks _ i htx) with ⟨_, hexpects'⟩ | ⟨he, _⟩ | ⟨he, _⟩
      · exact .inr ⟨by rw [hnew], by rw [hnew], hexpects'⟩
      · cases he
      · cases he
    · refine (h.known id client i hold htx).imp_right fun ⟨hhello, hready, hexpects⟩ =>
        ⟨hhello, hready, ?_⟩
      rcases hexpects.works hgreets (hworks _ i htx) with ⟨_, hexpects'⟩ | ⟨he, _⟩ | ⟨he, _⟩
      · exact hexpects'
      · exact absurd he hne
      · exact absurd he hne
    · have hkept : client.tx = old.tx := by
        rw [hclient']
        cases op <;> rfl
      by_cases hhello : ∃ hello, op = .setHello hello
      · obtain ⟨hello, rfl⟩ := hhello
        have hmem : .setHello hello ∈ w.ahead client.tx i := by
          rcases (hworks _ i htx).ahead with ⟨hne, _⟩ | ⟨op', _, hreader', hcons⟩
          · exact absurd rfl hne
          · rw [hreader] at hreader'
            cases hreader'
            rw [hcons]
            exact List.mem_cons_self
        obtain ⟨now, rfl⟩ := h.said client.tx i hello htx hmem
        exact .inl ⟨now, by rw [hclient']; rfl⟩
      · have hsame : client.hello = old.hello := by
          rw [hclient']
          cases op with
          | setHello hello => exact absurd ⟨hello, rfl⟩ hhello
          | _ => rfl
        rw [hsame]
        refine (h.known id old i hold (hkept ▸ htx)).imp_right fun ⟨hnone, hready, hexpects⟩ =>
          ⟨hnone, ?_⟩
        rw [← hkept] at hexpects
        rcases hexpects.works hgreets (hworks _ i htx) with ⟨hne, _⟩ |
          ⟨_, ⟨ops', hreader'⟩, hexpects'⟩ | ⟨_, now, hreader'⟩
        · exact absurd rfl hne
        · rw [hreader] at hreader'
          cases hreader'
          exact ⟨by rw [hclient']; exact hready, hexpects'⟩
        · rw [hreader] at hreader'
          cases hreader'
          exact absurd ⟨_, rfl⟩ hhello

/-- The loss of frames, which leaves a socket that is not open with the hello or with
nothing. -/
theorem Known.lose_step (h : Known wiring scfg cfg version w) {i n : ℕ}
    (hclosed : (w.relay.sockets i).readyState ≠ .open)
    (hv : v = { w with up := Function.update w.up i ((w.up i).take n) }) :
    Known wiring scfg cfg version v := by
  have hexpects (c j : ℕ) (hexpects : Expects cfg version (w.relay.openSocket = some j)
      (w.host.conns c).reader.todo (w.up j)) : Expects cfg version
        (w.relay.openSocket = some j) (w.host.conns c).reader.todo
          (Function.update w.up i ((w.up i).take n) j) := by
    by_cases hj : j = i
    · subst hj
      rw [Function.update_self]
      generalize (w.host.conns c).reader.todo = todo, w.up j = up at *
      have hshut : w.relay.openSocket ≠ some j := fun hopen =>
        hclosed (State.openSocket_eq_some.mp hopen).2
      cases hexpects with
      | closed hclosed' =>
        rw [List.take_nil]
        exact .closed hclosed'
      | next now frames =>
        cases n with
        | zero => exact .closed hshut
        | succ n => exact .next now _
      | received now frames => exact .received now _
      | touched now frames => exact .touched now _
    · rwa [Function.update_of_ne hj]
  subst hv
  exact ⟨h.sound, fun c j hello hc hmem => h.said c j hello hc (mem_ahead_of_lose hmem),
    fun c j hc hentered => hexpects c j (h.coming c j hc hentered),
    fun id client j hclient htx => (h.known id client j hclient htx).imp_right
      fun ⟨hnone, hready, he⟩ => ⟨hnone, hready, hexpects _ j he⟩⟩

/-- Every step of the link keeps the hello known, or next to be heard. -/
theorem known_step (h : Known wiring scfg cfg version w) (hgreets : Greetable cfg version)
    {e : LinkEvent} (hbound : w.host.registrations ≤ 2 ^ 64)
    (hstep : Link.step wiring impl cfg scfg w e = some v) : Known wiring scfg cfg version v := by
  cases moves_step hstep with
  | relay e hrelay hhost hup => exact h.relay_step hgreets hrelay hhost hup
  | host e se hserver hrelay hworks => exact h.host_step hgreets hbound hserver hrelay hworks
  | lose i n hclosed hv => exact h.lose_step hclosed hv

/-- The record of a gauge holds the hello its relay was configured to say; or it holds no
hello and is not ready, and the hello is the first thing the host is to hear on the socket.
So on an open socket with nothing in flight the host knows the gauge. Sockets may be lost
and reopened and the relay destroyed, and the WASM module may have anything forwarded. -/
theorem identity_known {es : List LinkEvent} (hgreets : Greetable cfg version)
    (hrun : Transition.run (Link.step wiring impl cfg scfg) (Link.init impl cfg) es = some w)
    (hbound : w.host.registrations < 2 ^ 64) {id i : ℕ} {client : Client}
    (hclient : w.host.hub.clients.lookup id = some client)
    (htx : wiring.socket client.tx = some i) :
    ((∃ now, client.hello = some (helloOf cfg version now)) ∨
      client.hello = none ∧ client.ready = false ∧
        Expects cfg version (w.relay.openSocket = some i) (w.host.conns client.tx).reader.todo
          (w.up i)) ∧
    (w.relay.openSocket = some i → w.up i = [] → (w.host.conns client.tx).reader.todo = [] →
      ∃ now, client.hello = some (helloOf cfg version now)) := by
  have hinvariant := Transition.run_invariant
    (I := fun v => v.host.registrations ≤ 2 ^ 64 → Known wiring scfg cfg version v)
    (fun v e v' h hstep hv' =>
      have hv := (registrations_link hstep).trans hv'
      known_step (h hv) hgreets hv hstep)
    hrun (fun _ => known_init)
  have hknown := (hinvariant hbound.le).known id client i hclient htx
  refine ⟨hknown, fun hopen hup htodo => hknown.resolve_right ?_⟩
  rintro ⟨_, _, hexpects⟩
  rw [hup, htodo] at hexpects
  cases hexpects with
  | closed hclosed => exact hclosed hopen

/-- The host can read the default configuration. -/
theorem greetable_default : Greetable defaultConfig 1 where
  version := rfl
  depth m hm := by cases hm

/-- After the relay has said that it is bound, the host knows it. -/
theorem identity_known_boundLate : ∃ client,
    boundLateState.host.hub.clients.lookup 1 = some client ∧
      ∃ now, client.hello = some (helloOf defaultConfig 1 now) := by
  obtain ⟨hopen, hisSome, htx, hup, htodo, hbound⟩ := boundLateState_quiet
  obtain ⟨client, hclient⟩ := Option.isSome_iff_exists.mp hisSome
  rw [hclient, Option.map_some, Option.some.injEq] at htx
  have hwired : oneRelay.socket client.tx = some 0 := by
    rw [htx]
    rfl
  refine ⟨client, hclient, (identity_known greetable_default boundLateState_run hbound hclient
    hwired).2 hopen (List.isEmpty_iff.mp hup) ?_⟩
  rw [htx]
  exact List.isEmpty_iff.mp htodo

end InfinityBridge.EndToEnd
