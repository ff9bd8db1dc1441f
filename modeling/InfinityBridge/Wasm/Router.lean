import InfinityBridge.Wasm.Bridge

/-!
# Handlers and routers

A dispatch with everything it does. What a handler does is a change of some state, of
any type; what the bridge does is a list of effects. A router is a handler made of
closures, registered one after the other under names that may repeat.
-/

namespace InfinityBridge.Wasm

variable {σ τ : Type*}

/-- `BridgeHandler`. -/
structure BridgeHandler (σ : Type*) where
  onCommand : Option String → Value → σ → Except String Value × σ
  onEvent : String → Value → σ → σ

/-- What a dispatch does, apart from what its handler does. -/
inductive Effect (τ : Type*) where
  | onCommand (name : Option String) (payload : Value)
  | onEvent (name : String) (data : Value)
  /-- `B::call`, whatever comes of it. -/
  | call (event : String) (text : τ)
  | eprintln (message : String)

/-- Whether an effect is a call, of the handler or of the backend. -/
def Effect.isCall : Effect τ → Bool
  | .eprintln _ => false
  | _ => true

/-- `Bridge`, with the backend's outcomes. -/
structure Bridge (τ : Type*) where
  json : SerdeJson τ
  responseEvent : String
  call : String → τ → Except String Unit

namespace Bridge

variable (b : Bridge τ)

/-- `Bridge::send_response`. -/
def sendResponse (requestId : String) (result : Except String Value) : List (Effect τ) :=
  match Wasm.sendResponse b.json requestId result with
  | none => [.eprintln "[msfs-bridge] Failed to serialize response"]
  | some text =>
    .call b.responseEvent text :: match b.call b.responseEvent text with
      | .ok () => []
      | .error e => [.eprintln ("[msfs-bridge] CommBus send failed: " ++ e)]

/-- Call the handler for a command and send what it returns. -/
def answer (handler : BridgeHandler σ) (requestId : String) (name : Option String)
    (payload : Value) (s : σ) : σ × List (Effect τ) :=
  let r := handler.onCommand name payload s
  (r.2, .onCommand name payload :: b.sendResponse requestId r.1)

/-- `Bridge::dispatch`. -/
def dispatch (handler : BridgeHandler σ) (raw : τ) (s : σ) : σ × List (Effect τ) :=
  match CommBusEnvelope.fromStr b.json raw with
  | none => (s, [.eprintln "[msfs-bridge] Failed to parse CommBus envelope"])
  | some envelope =>
    match b.json.toString envelope.payload with
    | none => (s, b.sendResponse envelope.requestId (.error "internal: re-serialize failed"))
    | some payload =>
      match (b.json.fromStr payload).bind WireMsg.fromValue with
      | some (.cmd cmd) => b.answer handler envelope.requestId cmd.name cmd.payload s
      | some (.event evt) => (handler.onEvent evt.name evt.data s, [.onEvent evt.name evt.data])
      | _ => b.answer handler envelope.requestId none envelope.payload s

/-- The dispatch is the plain one, with its effects. -/
theorem dispatch_eq (handler : BridgeHandler σ) (raw : τ) (s : σ) :
    b.dispatch handler raw s =
      match Wasm.dispatch b.json raw with
      | .dropped => (s, [.eprintln "[msfs-bridge] Failed to parse CommBus envelope"])
      | .event evt => (handler.onEvent evt.name evt.data s, [.onEvent evt.name evt.data])
      | .command requestId name payload => b.answer handler requestId name payload s
      | .failed requestId message => (s, b.sendResponse requestId (.error message)) := by
  unfold dispatch Wasm.dispatch
  cases CommBusEnvelope.fromStr b.json raw with
  | none => rfl
  | some envelope =>
    dsimp only
    cases b.json.toString envelope.payload with
    | none => rfl
    | some payload =>
      dsimp only
      cases (b.json.fromStr payload).bind WireMsg.fromValue with
      | none => rfl
      | some msg => cases msg <;> rfl

end Bridge

/-! ### Routers -/

/-- A closure that is registered for a command. -/
abbrev CommandFn (σ : Type*) := Value → σ → Except String Value × σ

/-- A closure that is registered for an event. -/
abbrev EventFn (σ : Type*) := Value → σ → σ

/-- The closure for the other commands. -/
abbrev FallbackFn (σ : Type*) := Option String → Value → σ → Except String Value × σ

/-- `Router`. -/
structure Router (σ : Type*) where
  commands : List (String × CommandFn σ)
  events : List (String × EventFn σ)
  fallback : Option (FallbackFn σ)

/-- A call of `command`, `event` or `fallback`. -/
inductive Registration (σ : Type*) where
  | command (name : String) (handler : CommandFn σ)
  | event (name : String) (handler : EventFn σ)
  | fallback (handler : FallbackFn σ)

namespace Router

/-- `Router::new`. -/
def new : Router σ := ⟨[], [], none⟩

/-- `Router::command`, `Router::event` and `Router::fallback`. -/
def register (r : Router σ) : Registration σ → Router σ
  | .command name handler => { r with commands := r.commands ++ [(name, handler)] }
  | .event name handler => { r with events := r.events ++ [(name, handler)] }
  | .fallback handler => { r with fallback := some handler }

/-- A router, registration by registration. -/
def build (rs : List (Registration σ)) : Router σ := rs.foldl register new

/-- The loop of `on_command`: the first closure under the name is called. -/
def callCommand (name : String) (payload : Value) (s : σ) :
    List (String × CommandFn σ) → Option (Except String Value × σ)
  | [] => none
  | (cmdName, handler) :: rest =>
    if cmdName = name then some (handler payload s) else callCommand name payload s rest

/-- The loop of `on_event`. -/
def callEvent (name : String) (data : Value) (s : σ) : List (String × EventFn σ) → σ
  | [] => s
  | (evtName, handler) :: rest =>
    if evtName = name then handler data s else callEvent name data s rest

def onCommand (r : Router σ) (name : Option String) (payload : Value) (s : σ) :
    Except String Value × σ :=
  match name.bind fun n => callCommand n payload s r.commands with
  | some result => result
  | none =>
    match r.fallback with
    | some fallback => fallback name payload s
    | none => (.error ("UNKNOWN_COMMAND: " ++ name.getD "<unnamed>"), s)

def onEvent (r : Router σ) (name : String) (data : Value) (s : σ) : σ :=
  callEvent name data s r.events

/-- A router as a handler. -/
def handler (r : Router σ) : BridgeHandler σ := ⟨r.onCommand, r.onEvent⟩

/-- What a registration adds to the commands. -/
def commandsOf : Registration σ → List (String × CommandFn σ)
  | .command name handler => [(name, handler)]
  | _ => []

/-- What a registration adds to the events. -/
def eventsOf : Registration σ → List (String × EventFn σ)
  | .event name handler => [(name, handler)]
  | _ => []

/-- The command handlers of a router, in the order of registration. -/
theorem commands_build (rs : List (Registration σ)) :
    (build rs).commands = rs.flatMap commandsOf := by
  induction rs using List.reverseRecOn with
  | nil => rfl
  | append_singleton rs r ih =>
    rw [build, List.foldl_append, List.flatMap_append, ← ih]
    cases r <;> simp [register, commandsOf, build]

/-- The event handlers of a router, in the order of registration. -/
theorem events_build (rs : List (Registration σ)) :
    (build rs).events = rs.flatMap eventsOf := by
  induction rs using List.reverseRecOn with
  | nil => rfl
  | append_singleton rs r ih =>
    rw [build, List.foldl_append, List.flatMap_append, ← ih]
    cases r <;> simp [register, eventsOf, build]

end Router

/-- The registration is for commands with this name. -/
def Registration.IsCommand (name : String) : Registration σ → Prop
  | .command cmdName _ => cmdName = name
  | _ => False

/-- The registration is for events with this name. -/
def Registration.IsEvent (name : String) : Registration σ → Prop
  | .event evtName _ => evtName = name
  | _ => False

def Registration.IsFallback : Registration σ → Prop
  | .fallback _ => True
  | _ => False

namespace Router

/-- Registrations after the last fallback leave it. -/
theorem fallback_build {before after : List (Registration σ)} {f : FallbackFn σ}
    (hafter : ∀ r ∈ after, ¬r.IsFallback) :
    (build (before ++ .fallback f :: after)).fallback = some f := by
  rw [build, List.foldl_append, List.foldl_cons]
  generalize hr : register (before.foldl register new) (.fallback f) = r
  have hfallback : r.fallback = some f := by rw [← hr, register]
  clear hr
  induction after generalizing r with
  | nil => exact hfallback
  | cons r' after ih =>
    refine ih (fun r'' hr'' => hafter r'' (List.mem_cons_of_mem _ hr'')) _ ?_
    cases r' with
    | command | event => exact hfallback
    | fallback => exact absurd trivial (hafter _ List.mem_cons_self)

/-- Without a fallback registration there is no fallback. -/
theorem fallback_build_eq_none {rs : List (Registration σ)} (hrs : ∀ r ∈ rs, ¬r.IsFallback) :
    (build rs).fallback = none := by
  induction rs using List.reverseRecOn with
  | nil => rfl
  | append_singleton rs r ih =>
    have hrest := ih fun r' hr' => hrs r' (List.mem_append_left _ hr')
    rw [build, List.foldl_append]
    cases r with
    | command | event => exact hrest
    | fallback handler => exact absurd trivial (hrs (.fallback handler) (by simp))

/-- The loop passes over the closures under other names. -/
theorem callCommand_append {name : String} {before : List (Registration σ)}
    (hbefore : ∀ r ∈ before, ¬r.IsCommand name) (after : List (Registration σ)) (payload : Value)
    (s : σ) :
    callCommand name payload s (before.flatMap commandsOf ++ after.flatMap commandsOf) =
      callCommand name payload s (after.flatMap commandsOf) := by
  induction before with
  | nil => rfl
  | cons r before ih =>
    have hrest := ih fun r' hr' => hbefore r' (List.mem_cons_of_mem _ hr')
    cases r with
    | command cmdName handler =>
      have hne : cmdName ≠ name := hbefore _ List.mem_cons_self
      exact (if_neg hne).trans hrest
    | event | fallback => exact hrest

/-- Handlers of other events do not matter for what comes after them. -/
theorem callEvent_append {name : String} {before : List (Registration σ)}
    (hbefore : ∀ r ∈ before, ¬r.IsEvent name) (after : List (Registration σ)) (data : Value)
    (s : σ) :
    callEvent name data s (before.flatMap eventsOf ++ after.flatMap eventsOf) =
      callEvent name data s (after.flatMap eventsOf) := by
  induction before with
  | nil => rfl
  | cons r before ih =>
    have hrest := ih fun r' hr' => hbefore r' (List.mem_cons_of_mem _ hr')
    cases r with
    | event evtName handler =>
      have hne : evtName ≠ name := hbefore _ List.mem_cons_self
      exact (if_neg hne).trans hrest
    | command | fallback => exact hrest

/-- The first closure registered under the name of a command runs. -/
theorem onCommand_first {before after : List (Registration σ)} {name : String}
    {f : CommandFn σ} (hbefore : ∀ r ∈ before, ¬r.IsCommand name) (payload : Value) (s : σ) :
    (build (before ++ .command name f :: after)).onCommand (some name) payload s = f payload s := by
  have hcall : callCommand name payload s
      (build (before ++ .command name f :: after)).commands = some (f payload s) := by
    rw [commands_build, List.flatMap_append, callCommand_append hbefore]
    exact if_pos rfl
  simp only [onCommand, Option.bind_some, hcall]

/-- No closure registered under a name runs for other commands. -/
theorem onCommand_other {rs : List (Registration σ)} {name : Option String}
    (hrs : ∀ n, name = some n → ∀ r ∈ rs, ¬r.IsCommand n) (payload : Value) (s : σ) :
    (build rs).onCommand name payload s =
      match (build rs).fallback with
      | some fallback => fallback name payload s
      | none => (.error ("UNKNOWN_COMMAND: " ++ name.getD "<unnamed>"), s) := by
  have hcall : (name.bind fun n => callCommand n payload s (build rs).commands) = none := by
    cases name with
    | none => rfl
    | some n =>
      have hpass := callCommand_append (hrs n rfl) [] payload s
      rw [List.flatMap_nil, List.append_nil] at hpass
      rw [Option.bind_some, commands_build, hpass]
      rfl
  simp only [onCommand, hcall]

/-- The first closure registered under the name of an event runs. -/
theorem onEvent_first {before after : List (Registration σ)} {name : String} {f : EventFn σ}
    (hbefore : ∀ r ∈ before, ¬r.IsEvent name) (data : Value) (s : σ) :
    (build (before ++ .event name f :: after)).onEvent name data s = f data s := by
  rw [onEvent, events_build, List.flatMap_append, callEvent_append hbefore]
  exact if_pos rfl

/-- An event without a handler changes nothing. -/
theorem onEvent_other {rs : List (Registration σ)} {name : String}
    (hrs : ∀ r ∈ rs, ¬r.IsEvent name) (data : Value) (s : σ) :
    (build rs).onEvent name data s = s := by
  have hpass := callEvent_append hrs [] data s
  rw [List.flatMap_nil, List.append_nil] at hpass
  rw [onEvent, events_build, hpass]
  rfl

end Router

/-! ### Which closures run -/

/-- The registration, with a closure that also notes down that it ran. -/
def Registration.noting (k : ℕ) : Registration σ → Registration (σ × List ℕ)
  | .command name handler =>
    .command name fun payload s =>
      let r := handler payload s.1
      (r.1, r.2, s.2 ++ [k])
  | .event name handler => .event name fun data s => (handler data s.1, s.2 ++ [k])
  | .fallback handler =>
    .fallback fun name payload s =>
      let r := handler name payload s.1
      (r.1, r.2, s.2 ++ [k])

/-- Registrations whose closures note down their numbers, which count from `k`. -/
def noting (k : ℕ) : List (Registration σ) → List (Registration (σ × List ℕ))
  | [] => []
  | r :: rs => r.noting k :: noting (k + 1) rs

/-- The notes of two lists of registrations, numbered one after the other. -/
theorem noting_append (k : ℕ) (before after : List (Registration σ)) :
    noting k (before ++ after) = noting k before ++ noting (k + before.length) after := by
  induction before generalizing k with
  | nil => rfl
  | cons r before ih =>
    simp only [List.cons_append, noting, ih, List.length_cons]
    congr 3
    omega

/-- Noting down changes no name and no kind. -/
theorem forall_noting {P : Registration (σ × List ℕ) → Prop} {Q : Registration σ → Prop}
    (hnoting : ∀ k r, Q r → P (r.noting k)) {rs : List (Registration σ)} (hrs : ∀ r ∈ rs, Q r)
    (k : ℕ) : ∀ r ∈ noting k rs, P r := by
  induction rs generalizing k with
  | nil => simp [noting]
  | cons r rs ih =>
    obtain ⟨hr, hrest⟩ := List.forall_mem_cons.mp hrs
    exact List.forall_mem_cons.mpr ⟨hnoting k r hr, ih hrest (k + 1)⟩

/-- Taking notes makes no registration a command's. -/
theorem not_isCommand_noting (name : String) (k : ℕ) (r : Registration σ)
    (h : ¬r.IsCommand name) : ¬(r.noting k).IsCommand name := by
  cases r <;> exact h

/-- Taking notes makes no registration an event's. -/
theorem not_isEvent_noting (name : String) (k : ℕ) (r : Registration σ)
    (h : ¬r.IsEvent name) : ¬(r.noting k).IsEvent name := by
  cases r <;> exact h

/-- Taking notes makes no registration a fallback. -/
theorem not_isFallback_noting (k : ℕ) (r : Registration σ) (h : ¬r.IsFallback) :
    ¬(r.noting k).IsFallback := by
  cases r <;> exact h

/-- What a router made of these registrations does, with the numbers of the closures that
have run: the first one under the name, else the last fallback, else none. -/
structure Routes (rs : List (Registration σ)) (r : Router (σ × List ℕ)) : Prop where
  command : ∀ before name f after, rs = before ++ .command name f :: after →
    (∀ r ∈ before, ¬r.IsCommand name) → ∀ payload s ran,
    r.onCommand (some name) payload (s, ran) =
      ((f payload s).1, (f payload s).2, ran ++ [before.length])
  fallback : ∀ before f after, rs = before ++ .fallback f :: after →
    (∀ r ∈ after, ¬r.IsFallback) → ∀ name, (∀ n, name = some n → ∀ r ∈ rs, ¬r.IsCommand n) →
    ∀ payload s ran, r.onCommand name payload (s, ran) =
      ((f name payload s).1, (f name payload s).2, ran ++ [before.length])
  unknown : (∀ r ∈ rs, ¬r.IsFallback) → ∀ name,
    (∀ n, name = some n → ∀ r ∈ rs, ¬r.IsCommand n) → ∀ payload s ran,
    r.onCommand name payload (s, ran) =
      (.error ("UNKNOWN_COMMAND: " ++ name.getD "<unnamed>"), s, ran)
  event : ∀ before name f after, rs = before ++ .event name f :: after →
    (∀ r ∈ before, ¬r.IsEvent name) → ∀ data s ran,
    r.onEvent name data (s, ran) = (f data s, ran ++ [before.length])
  nothing : ∀ name, (∀ r ∈ rs, ¬r.IsEvent name) → ∀ data s ran,
    r.onEvent name data (s, ran) = (s, ran)

/-- A router routes by the registrations it is made of. -/
theorem routes_build (rs : List (Registration σ)) : Routes rs (Router.build (noting 0 rs)) := by
  constructor
  · rintro before name f after rfl hbefore payload s ran
    rw [noting_append, Nat.zero_add]
    exact Router.onCommand_first (forall_noting (not_isCommand_noting name) hbefore 0) payload _
  · rintro before f after rfl hafter name hname payload s ran
    have hother : ∀ n, name = some n →
        ∀ r ∈ noting 0 (before ++ .fallback f :: after), ¬r.IsCommand n :=
      fun n hn => forall_noting (not_isCommand_noting n) (hname n hn) 0
    rw [Router.onCommand_other hother, noting_append, noting, Registration.noting,
      Router.fallback_build (forall_noting not_isFallback_noting hafter _), Nat.zero_add]
  · intro hrs name hname payload s ran
    have hother : ∀ n, name = some n → ∀ r ∈ noting 0 rs, ¬r.IsCommand n :=
      fun n hn => forall_noting (not_isCommand_noting n) (hname n hn) 0
    rw [Router.onCommand_other hother,
      Router.fallback_build_eq_none (forall_noting not_isFallback_noting hrs 0)]
  · rintro before name f after rfl hbefore data s ran
    rw [noting_append, Nat.zero_add]
    exact Router.onEvent_first (forall_noting (not_isEvent_noting name) hbefore 0) data _
  · intro name hrs data s ran
    exact Router.onEvent_other (forall_noting (not_isEvent_noting name) hrs 0) data _

/-- A list has a first element with a property, if it has any. -/
theorem exists_first {α : Type*} (P : α → Prop) (xs : List α) : (∀ x ∈ xs, ¬P x) ∨
    ∃ before x after, xs = before ++ x :: after ∧ P x ∧ ∀ y ∈ before, ¬P y := by
  induction xs with
  | nil => exact .inl (by simp)
  | cons x xs ih =>
    by_cases hx : P x
    · exact .inr ⟨[], x, xs, rfl, hx, by simp⟩
    · rcases ih with hnone | ⟨before, y, after, rfl, hy, hbefore⟩
      · exact .inl (List.forall_mem_cons.mpr ⟨hx, hnone⟩)
      · exact .inr ⟨x :: before, y, after, rfl, hy, List.forall_mem_cons.mpr ⟨hx, hbefore⟩⟩

/-- No element of a list has a property, or there is a last one that has. -/
theorem exists_last {α : Type*} (P : α → Prop) (xs : List α) : (∀ x ∈ xs, ¬P x) ∨
    ∃ before x after, xs = before ++ x :: after ∧ P x ∧ ∀ y ∈ after, ¬P y := by
  rcases exists_first P xs.reverse with hnone | ⟨before, x, after, hxs, hx, hbefore⟩
  · exact .inl fun x hx => hnone x (List.mem_reverse.mpr hx)
  · refine .inr ⟨after.reverse, x, before.reverse, ?_, hx, fun y hy => ?_⟩
    · rw [← xs.reverse_reverse, hxs]
      simp
    · exact hbefore y (List.mem_reverse.mp hy)

/-- At most one closure runs for a command. -/
theorem Routes.onCommand_one {rs : List (Registration σ)} {r : Router (σ × List ℕ)}
    (h : Routes rs r) (name : Option String) (payload : Value) (s : σ) (ran : List ℕ) :
    ∃ more, more.length ≤ 1 ∧ (r.onCommand name payload (s, ran)).2.2 = ran ++ more := by
  have hother (hname : ∀ n, name = some n → ∀ r ∈ rs, ¬r.IsCommand n) :
      ∃ more, more.length ≤ 1 ∧ (r.onCommand name payload (s, ran)).2.2 = ran ++ more := by
    rcases exists_last Registration.IsFallback rs with hnone | ⟨before, x, after, hrs, hx, hafter⟩
    · rw [h.unknown hnone name hname]
      exact ⟨[], by simp, by simp⟩
    · cases x with
      | command | event => exact hx.elim
      | fallback f =>
        rw [h.fallback before f after hrs hafter name hname]
        exact ⟨[before.length], by simp, rfl⟩
  cases name with
  | none => exact hother (by simp)
  | some n =>
    rcases exists_first (Registration.IsCommand n) rs with
      hnone | ⟨before, x, after, hrs, hx, hbefore⟩
    · exact hother fun n' hn' => Option.some.inj hn' ▸ hnone
    · cases x with
      | event | fallback => exact hx.elim
      | command name f =>
        obtain rfl : name = n := hx
        rw [h.command before name f after hrs hbefore]
        exact ⟨[before.length], by simp, rfl⟩

/-- And for an event. -/
theorem Routes.onEvent_one {rs : List (Registration σ)} {r : Router (σ × List ℕ)}
    (h : Routes rs r) (name : String) (data : Value) (s : σ) (ran : List ℕ) :
    ∃ more, more.length ≤ 1 ∧ (r.onEvent name data (s, ran)).2 = ran ++ more := by
  rcases exists_first (Registration.IsEvent name) rs with
    hnone | ⟨before, x, after, hrs, hx, hbefore⟩
  · rw [h.nothing name hnone]
    exact ⟨[], by simp, by simp⟩
  · cases x with
    | command | fallback => exact hx.elim
    | event name' f =>
      obtain rfl : name' = name := hx
      rw [h.event before name' f after hrs hbefore]
      exact ⟨[before.length], by simp, rfl⟩

end InfinityBridge.Wasm
