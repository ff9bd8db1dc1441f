import InfinityBridge.Relay.Output

/-!
# The greeting of a socket

A relay sends on whatever socket `ws` holds, and the handlers of a socket act on the
relay. So the frames of one socket come from callbacks of all kinds, the open event of
another socket among them. Nothing goes out on a socket before its own open event, and
what that event sends comes first: the hello, and the readiness of that moment.
-/

namespace InfinityBridge.Relay.State

open Transition (taken)

variable {impl : Impl} {cfg : ResolvedConfig} {s t u : State} {e : RelayEvent}

/-- The frames that socket `i` has taken, oldest first. -/
def framesOn (s : State) (i : ℕ) : List Sent := s.sent.filter (·.socket = some i)

/-- What the open event of socket `i` sends, in the state in which it is delivered. -/
def greeting (cfg : ResolvedConfig) (s : State) (i : ℕ) (now : TimeValue) : List Sent :=
  [⟨.hello, .doc (helloFrame cfg now), some i⟩,
    ⟨.ready, .doc (readyFrame s.commBusBound), some i⟩]

/-- A step that makes no socket the open one, and sends on no socket that was not. -/
structure Keeps (s t : State) : Prop where
  open_of : ∀ i, t.openSocket = some i → s.openSocket = some i
  sent : ∃ fs, t.sent = s.sent ++ fs ∧ ∀ f ∈ fs, ∀ i, f.socket = some i → s.openSocket = some i

/-- A step that sends nothing and opens no socket. -/
theorem keeps_of_sent_eq (hsent : t.sent = s.sent)
    (hopen : ∀ i, t.openSocket = some i → s.openSocket = some i) : Keeps s t :=
  ⟨hopen, [], by rw [hsent, List.append_nil], by simp⟩

/-- Two such steps in a row are one. -/
theorem Keeps.trans (h : Keeps s t) (h' : Keeps t u) : Keeps s u := by
  obtain ⟨fs, hfs, hsocket⟩ := h.sent
  obtain ⟨fs', hfs', hsocket'⟩ := h'.sent
  refine ⟨fun i hi => h.open_of i (h'.open_of i hi), fs ++ fs', ?_, fun f hf i hi => ?_⟩
  · rw [hfs', hfs, List.append_assoc]
  · rcases List.mem_append.mp hf with hf | hf
    · exact hsocket f hf i hi
    · exact h.open_of i (hsocket' f hf i hi)

/-- A step that leaves the sockets alone opens none, and sends on the open one. -/
theorem SameSocket.keeps (h : SameSocket s t) : Keeps s t := by
  obtain ⟨fs, hfs, hsocket⟩ := h.sent
  exact ⟨fun _ hi => h.openSocket ▸ hi, fs, hfs, fun f hf _ hi => hsocket f hf ▸ hi⟩

/-- Closing the socket sends nothing, and leaves none open. -/
theorem keeps_cleanupWs (s : State) : Keeps s s.cleanupWs :=
  keeps_of_sent_eq (cleanupWs_sent s) fun i hi => by cases hi

/-- A destruction refuses what is pending on the socket that is open. Then it closes that
socket, unless it is cut short. -/
theorem destroy_sameSocket (impl : Impl) (cfg : ResolvedConfig) (s : State)
    (offThrows unregisterThrows : Bool) :
    SameSocket s (s.destroy impl cfg offThrows unregisterThrows) ∨
      ∃ u, SameSocket s u ∧ s.destroy impl cfg offThrows unregisterThrows = u.cleanupWs := by
  have hforget (u : State) (handler : Option ℕ) :
      SameSocket u { u with commBus := none, commBusBound := false, onWasmHandler := handler } :=
    sameSocket_of_eq rfl rfl rfl
  unfold destroy
  cases impl with
  | typescript =>
    have hbind := (sameSocket_rejectPending (s := s)).trans sameSocket_cleanupBindRetry
    dsimp only
    split
    · exact .inr ⟨_, hbind.trans (hforget _ _), rfl⟩
    · next bus _ =>
      have hoff := hbind.trans (tryOff_emits (fun _ => False) cfg bus offThrows _).sameSocket
      split
      · exact .inl hoff
      · have hgone := hoff.trans (unregister_emits (fun _ => False) bus _).sameSocket
        exact .inr ⟨_, hgone.trans (hforget _ _), rfl⟩
  | rescript =>
    have hunhook := (sameSocket_rejectPending (s := s)).trans
      (unhook_emits (fun _ => False) cfg offThrows unregisterThrows _).sameSocket
    exact .inr ⟨_, (hunhook.trans (hforget _ none)).trans sameSocket_cleanupBindRetry, rfl⟩

/-- Destroying the relay opens no socket. -/
theorem keeps_destroy (offThrows unregisterThrows : Bool) :
    Keeps s (s.destroy impl cfg offThrows unregisterThrows) := by
  rcases destroy_sameSocket impl cfg s offThrows unregisterThrows with
    hsame | ⟨u, hsame, hcleanup⟩
  · exact hsame.keeps
  · rw [hcleanup]
    exact hsame.keeps.trans (keeps_cleanupWs u)

/-- What a step sends goes out on the socket that is open after it, if there is one. -/
theorem sends_on_open {i : ℕ} (hstep : step impl cfg s e = some t)
    (hopen : t.openSocket = some i) :
    ∃ fs, t.sent = s.sent ++ fs ∧ ∀ f ∈ fs, f.socket = some i := by
  by_cases hdestroy : ∀ off unregister, e ≠ .destroy off unregister
  · obtain ⟨u, hsent, hsame, _⟩ := socketsFirst_step hdestroy hstep
    obtain ⟨fs, hfs, hsocket⟩ := hsame.sent
    exact ⟨fs, hsent ▸ hfs, fun f hf => (hsocket f hf).trans (hsame.openSocket.symm.trans hopen)⟩
  · push Not at hdestroy
    obtain ⟨off, unregister, rfl⟩ := hdestroy
    cases hstep
    rcases destroy_sameSocket impl cfg s off unregister with
      hsame | ⟨u, _, hcleanup⟩
    · obtain ⟨fs, hfs, hsocket⟩ := hsame.sent
      exact ⟨fs, hfs, fun f hf => (hsocket f hf).trans (hsame.openSocket.symm.trans hopen)⟩
    · rw [hcleanup] at hopen
      cases hopen

/-- Every event but an open event is such a step. -/
theorem keeps_step (hopen : ∀ i now, e ≠ .socketOpen i now)
    (hstep : step impl cfg s e = some t) : Keeps s t := by
  by_cases hdestroy : ∀ off unregister, e ≠ .destroy off unregister
  · obtain ⟨u, hsent, hsame, _, hbefore⟩ := socketsFirst_step hdestroy hstep
    refine Keeps.trans (keeps_of_sent_eq hsent fun i hi => ?_) hsame.keeps
    rcases hbefore i hi with h | ⟨now, h⟩
    · exact h
    · exact absurd h (hopen i now)
  · push Not at hdestroy
    obtain ⟨off, unregister, rfl⟩ := hdestroy
    cases hstep
    exact keeps_destroy off unregister

/-- The frames of a step come after the earlier ones on each socket. -/
theorem framesOn_append {fs : List Sent} (hsent : t.sent = s.sent ++ fs) (i : ℕ) :
    t.framesOn i = s.framesOn i ++ fs.filter (·.socket = some i) := by
  rw [framesOn, hsent, List.filter_append, framesOn]

/-- A socket that was not open takes nothing from such a step. -/
theorem Keeps.framesOn (h : Keeps s t) {i : ℕ} (hclosed : s.openSocket ≠ some i) :
    t.framesOn i = s.framesOn i := by
  obtain ⟨fs, hfs, hsocket⟩ := h.sent
  rw [framesOn_append hfs, List.filter_eq_nil_iff.mpr fun f hf hi =>
    hclosed (hsocket f hf i (of_decide_eq_true hi)), List.append_nil]

/-- `onopen` greets on the socket that is open, whichever it belongs to. -/
theorem framesOn_onOpen (s : State) (now : TimeValue) (i : ℕ) :
    (s.onOpen cfg now).framesOn i =
      s.framesOn i ++ if s.openSocket = some i then greeting cfg s i now else [] := by
  have hsent : (s.onOpen cfg now).sent = s.sent ++
      [⟨.hello, .doc (helloFrame cfg now), s.openSocket⟩,
        ⟨.ready, .doc (readyFrame s.commBusBound), s.openSocket⟩] := by
    simp only [onOpen, sendReady, wsSend, List.append_assoc]
    rfl
  rw [framesOn_append hsent]
  split_ifs with hi <;> simp [hi, greeting]

/-- A socket that is not open takes nothing and stays so, until it opens and is greeted. -/
theorem framesOn_step {i : ℕ} (hstep : step impl cfg s e = some t)
    (hclosed : s.openSocket ≠ some i) :
    (t.framesOn i = s.framesOn i ∧ t.openSocket ≠ some i) ∨
      ∃ now, e = .socketOpen i now ∧
        t.framesOn i = s.framesOn i ++ greeting cfg s i now := by
  by_cases hopen : ∀ i now, e ≠ .socketOpen i now
  · have hkeeps := keeps_step hopen hstep
    exact .inl ⟨hkeeps.framesOn hclosed, fun hi => hclosed (hkeeps.open_of i hi)⟩
  push Not at hopen
  obtain ⟨j, now, rfl⟩ := hopen
  simp only [step] at hstep
  split_ifs at hstep
  cases hstep
  set u := s.setSocket j fun k => { k with
    opened := true
    readyState := if k.readyState = .connecting then .open else k.readyState } with hu
  rw [framesOn_onOpen, (sameSocket_onOpen now).openSocket]
  by_cases hi : u.openSocket = some i
  · have hij : i = j := by
      by_contra hne
      exact hclosed (openSocket_setSocket hne hi)
    subst hij
    exact .inr ⟨now, rfl, by rw [if_pos hi]; rfl⟩
  · exact .inl ⟨by rw [if_neg hi, List.append_nil]; rfl, hi⟩

/-! ### What comes first -/

/-- Socket `i` has taken nothing and takes nothing yet, or the first that it took is what
its open event sent. -/
def Greeted (cfg : ResolvedConfig) (s : State) (steps : List (State × RelayEvent)) : Prop :=
  ∀ i, (s.framesOn i = [] ∧ s.openSocket ≠ some i) ∨
    ∃ u now fs, (u, RelayEvent.socketOpen i now) ∈ steps ∧
      s.framesOn i = greeting cfg u i now ++ fs

/-- At first nothing has been sent on any socket. -/
theorem greeted_make : Greeted cfg (make impl cfg) [] := by
  intro i
  left
  refine ⟨rfl, ?_⟩
  simp [openSocket, make]

/-- Every step keeps the greetings first. -/
theorem greeted_step {steps : List (State × RelayEvent)} (h : Greeted cfg s steps)
    (hstep : step impl cfg s e = some t) : Greeted cfg t (steps ++ taken s e) := by
  intro i
  rcases h i with ⟨hnone, hclosed⟩ | ⟨u, now, rest, hu, hfirst⟩
  · rcases framesOn_step hstep hclosed with ⟨hsame, hclosed'⟩ | ⟨now, rfl, hgreeted⟩
    · exact .inl ⟨hsame.trans hnone, hclosed'⟩
    · exact .inr ⟨s, now, [], by simp [taken], by rw [hgreeted, hnone]; rfl⟩
  · obtain ⟨fs, hfs, _⟩ := writes_step hstep
    refine .inr ⟨u, now, rest ++ fs.filter (·.socket = some i), List.mem_append_left _ hu, ?_⟩
    rw [framesOn_append hfs, hfirst, List.append_assoc]

/-- And so does every run. -/
theorem greeted_run {es : List RelayEvent}
    (hrun : Transition.run (step impl cfg) (make impl cfg) es = some s) :
    Greeted cfg s (Transition.trace (step impl cfg) taken (make impl cfg) es) :=
  Transition.run_trace (I := Greeted cfg) (fun _ _ _ _ h hstep => greeted_step h hstep) hrun
    greeted_make

/-- In every run, with destructions and late events of old sockets, the first frames of a
socket are the hello and the readiness that its own open event sent; and a socket that
could take a frame has taken these. -/
theorem hello_first {es : List RelayEvent}
    (hrun : Transition.run (step impl cfg) (make impl cfg) es = some s) (i : ℕ) :
    (s.framesOn i = [] ∧ s.openSocket ≠ some i) ∨
      ∃ u now fs, (u, RelayEvent.socketOpen i now) ∈
        Transition.trace (step impl cfg) taken (make impl cfg) es ∧
        s.framesOn i = greeting cfg u i now ++ fs :=
  greeted_run hrun i

/-- The first socket is lost before it opens, and its late open event finds the second one
open. -/
def lateOpen : List RelayEvent :=
  [.init false false, .socketDrop 0, .socketError 0, .timer 1 false false,
    .socketOpen 1 .epoch, .socketOpen 0 .epoch]

/-- It greets on the second socket once more, behind the greeting of that socket. -/
theorem hello_first_lateOpen : ∃ s,
    Transition.run (step .typescript defaultConfig) (make .typescript defaultConfig) lateOpen =
      some s ∧ (s.framesOn 1).length = 4 ∧
    ((s.framesOn 1 = [] ∧ s.openSocket ≠ some 1) ∨
      ∃ u now fs, (u, RelayEvent.socketOpen 1 now) ∈
        Transition.trace (step .typescript defaultConfig) taken
          (make .typescript defaultConfig) lateOpen ∧
        s.framesOn 1 = greeting defaultConfig u 1 now ++ fs) := by
  have hsome : (Transition.run (step .typescript defaultConfig) (make .typescript defaultConfig)
    lateOpen).isSome := by rfl
  have hrun := (Option.some_get hsome).symm
  exact ⟨_, hrun, by rfl, hello_first hrun 1⟩

end InfinityBridge.Relay.State
