import ZenohPicoPerf.Foundation.Run
import ZenohPicoPerf.Common.Clock

/-!
# The session of the six MQTT programs

All six programs create a client, connect it and spin on a flag that a
callback sets.  The subscribers then subscribe, register `data_handler` and
spin on a second flag; mqtt_pub_ovh registers its handler, sends one message
and takes the client down.  The callbacks run in a thread of the client
library, so they fall between any two steps of `main`.

What `main` has still to do is a list of stages.  The library calls back about
a request once, after it accepted it.

## Main results

* `Reached.step` — one step of `main` or of the library.
* `session_order` — how far `main` got, what it saw before, and when the
  client is alive, for every interleaving.
-/

namespace ZenohPicoPerf.Mqtt.Session

open ZenohPicoPerf.Foundation.Memory
open ZenohPicoPerf.Foundation.Run
open ZenohPicoPerf.Common.Clock

inductive Program where
  | mqttPubLat
  | mqttSubLat
  | mqttPubThr
  | mqttSubThr
  | mqttPubOvh
  | mqttSubOvh
deriving DecidableEq, Repr

/-- The calls of `main` and its two waiting loops.  `loop` is the endless loop
that ends four of the scripts, and the publishing one of the others. -/
inductive Stage where
  | create
  | connect
  | waitReady
  | subscribe
  | setCallbacks
  | waitSubscribed
  | loop
  | send
  | disconnect
  | destroy
deriving DecidableEq, Repr

def publisher : List Stage := [.create, .connect, .waitReady, .loop]

def subscriber : List Stage :=
  [.create, .connect, .waitReady, .subscribe, .setCallbacks, .waitSubscribed,
    .loop]

def Program.script : Program → List Stage
  | .mqttPubLat | .mqttPubThr => publisher
  | .mqttSubLat | .mqttSubThr | .mqttSubOvh => subscriber
  | .mqttPubOvh =>
      [.create, .connect, .waitReady, .setCallbacks, .send, .disconnect,
        .destroy]

/-- `ready` and `subscribed` are the flags.  A request is pending from the call
that was accepted to its callback. -/
structure State where
  todo : List Stage
  ready : Bool
  subscribed : Bool
  connectPending : Bool
  subscribePending : Bool
  handler : Bool
  alive : Bool
  exited : Option CInt
deriving DecidableEq, Repr

def init (p : Program) : State :=
  { todo := p.script, ready := false, subscribed := false,
    connectPending := false, subscribePending := false, handler := false,
    alive := false, exited := none }

/-- A call returned `rc`, a waiting loop tested its flag, or the library
called back. -/
inductive Event where
  | returned (stage : Stage) (rc : CInt)
  | test (stage : Stage)
  | onConnect
  | onConnectFailure
  | onSubscribe
  | onSubscribeFailure
  | message
deriving DecidableEq, Repr

/-- `main` is in its loop. -/
def State.looping (s : State) : Prop :=
  s.todo = [.loop] ∧ s.exited = none

instance (s : State) : Decidable s.looping :=
  inferInstanceAs (Decidable (_ ∧ _))

/-- A message as the library copies it from `MQTTAsync_sendMessage`. -/
structure Publication where
  topicName : List Byte
  payload : List Byte
deriving DecidableEq, Repr

def exitFailure : CInt := 1

/-- What a call does when its result lets `main` go on; `rest` is what comes
after it. -/
def State.pass (s : State) (rest : List Stage) : Stage → State
  | .create => { s with todo := rest, alive := true }
  | .connect => { s with todo := rest, connectPending := true }
  | .subscribe => { s with todo := rest, subscribePending := true }
  | .setCallbacks => { s with todo := rest, handler := true }
  | .destroy => { s with todo := rest, alive := false, exited := some 0 }
  | _ => { s with todo := rest }

/-- Every checked failure but the first destroys the client before the
exit. -/
def State.fail (s : State) : Stage → State
  | .create => { s with exited := some exitFailure }
  | _ => { s with alive := false, exited := some exitFailure }

/-- The calls whose result `main` looks at; the others are `send`,
`disconnect` and `destroy`. -/
def Stage.checked : Stage → Bool
  | .create | .connect | .subscribe | .setCallbacks => true
  | _ => false

def Stage.unchecked : Stage → Bool
  | .send | .disconnect | .destroy => true
  | _ => false

/-- Nothing happens in a process that has exited. -/
def step (s : State) (e : Event) : Option State :=
  if s.exited = none then
    match e with
    | .returned stage rc =>
        match s.todo with
        | next :: rest =>
            if next = stage then
              if stage.checked then
                if rc = 0 then some (s.pass rest stage)
                else some (s.fail stage)
              else if stage.unchecked then some (s.pass rest stage)
              else none
            else none
        | [] => none
    | .test .waitReady =>
        match s.todo with
        | .waitReady :: rest =>
            if s.ready then some { s with todo := rest } else some s
        | _ => none
    | .test .waitSubscribed =>
        match s.todo with
        | .waitSubscribed :: rest =>
            if s.subscribed then some { s with todo := rest } else some s
        | _ => none
    | .test _ => none
    | .onConnect =>
        if s.connectPending then
          some { s with ready := true, connectPending := false }
        else none
    | .onConnectFailure =>
        if s.connectPending then some { s with exited := some exitFailure }
        else none
    | .onSubscribe =>
        if s.subscribePending then
          some { s with subscribed := true, subscribePending := false }
        else none
    | .onSubscribeFailure =>
        if s.subscribePending then some { s with exited := some exitFailure }
        else none
    | .message => if s.handler && s.alive then some s else none
  else none

/-! ## What happened before -/

/-- What shows that a stage was passed: a call that was accepted, and for the
two loops the request, its callback and the test that found the flag set. -/
def Stage.handshake : Stage → List Event
  | .waitReady => [.returned .connect 0, .onConnect, .test .waitReady]
  | .waitSubscribed =>
      [.returned .subscribe 0, .onSubscribe, .test .waitSubscribed]
  | stage => if stage.checked then [.returned stage 0] else []

/-- `done` are the stages that `main` has passed. -/
structure Reached (p : Program) (done : List Stage) (es : List Event)
    (s : State) : Prop where
  split : p.script = done ++ s.todo
  seen : ∀ stage ∈ done, stage.handshake.Sublist es
  connecting : s.connectPending = true → [.returned .connect 0].Sublist es
  ready : s.ready = true → [.returned .connect 0, .onConnect].Sublist es
  subscribing : s.subscribePending = true →
    [.returned .subscribe 0].Sublist es
  subscribed : s.subscribed = true →
    [.returned .subscribe 0, .onSubscribe].Sublist es
  handler : s.handler = true → .setCallbacks ∈ done
  alive : s.exited = none →
    (s.alive = true ↔ .create ∈ done ∧ .destroy ∉ done)
  exited : s.exited = some 0 → .destroy ∈ done

theorem reached_init (p : Program) : Reached p [] [] (init p) where
  split := rfl
  seen := by simp
  connecting := by simp [init]
  ready := by simp [init]
  subscribing := by simp [init]
  subscribed := by simp [init]
  handler := by simp [init]
  alive := by simp [init]
  exited := by simp [init]

theorem Reached.later {p : Program} {done : List Stage} {es : List Event}
    {s : State} (h : Reached p done es s) (e : Event) :
    Reached p done (es ++ [e]) s := by
  have hmore : ∀ xs : List Event, xs.Sublist es → xs.Sublist (es ++ [e]) :=
    fun xs hxs => hxs.trans (List.sublist_append_left es [e])
  exact
    { h with
      seen := fun stage hstage => hmore _ (h.seen stage hstage)
      connecting := fun hc => hmore _ (h.connecting hc)
      ready := fun hr => hmore _ (h.ready hr)
      subscribing := fun hc => hmore _ (h.subscribing hc)
      subscribed := fun hr => hmore _ (h.subscribed hr) }

/-- A chain that ended before the last event is one longer with it. -/
theorem sublist_snoc {xs es : List Event} (h : xs.Sublist es) (e : Event) :
    (xs ++ [e]).Sublist (es ++ [e]) := h.append (List.Sublist.refl [e])

/-- Every script begins with the only creation of a client. -/
theorem done_of_create {p : Program} {done rest : List Stage}
    (h : p.script = done ++ .create :: rest) : done = [] := by
  have hscript : ∃ tail, p.script = .create :: tail ∧ .create ∉ tail := by
    cases p <;> exact ⟨_, rfl, by decide⟩
  obtain ⟨tail, htail, hnone⟩ := hscript
  cases done with
  | nil => rfl
  | cons d ds =>
      rw [htail, List.cons_append, List.cons.injEq] at h
      rw [h.2] at hnone
      exact absurd (by simp) hnone

section Steps

variable {p : Program} {done : List Stage} {es : List Event} {s : State}

/-- `main` passes the next stage, and the rest of the state follows. -/
theorem Reached.pass (h : Reached p done es s) (hrun : s.exited = none)
    {stage : Stage} {rest : List Stage} (htodo : s.todo = stage :: rest)
    {e : Event} (hseen : stage.handshake.Sublist (es ++ [e]))
    (he : stage.checked = true → e = .returned stage 0) :
    Reached p (done ++ [stage]) (es ++ [e]) (s.pass rest stage) := by
  have hlater := h.later e
  have hsplit : p.script = (done ++ [stage]) ++ rest := by
    rw [h.split, htodo, List.append_assoc]
    rfl
  have hall : ∀ st ∈ done ++ [stage], st.handshake.Sublist (es ++ [e]) := by
    intro st hst
    rcases List.mem_append.mp hst with hmem | hnew
    · exact hlater.seen st hmem
    · obtain rfl := List.mem_singleton.mp hnew
      exact hseen
  have halive := h.alive hrun
  have hlast : ∀ st, stage = st → st.checked = true →
      [Event.returned st 0].Sublist (es ++ [e]) := by
    rintro st rfl hchecked
    rw [he hchecked]
    exact List.sublist_append_right es _
  refine
    { split := ?_, seen := hall, connecting := ?_, ready := ?_,
      subscribing := ?_, subscribed := ?_, handler := ?_, alive := ?_,
      exited := ?_ }
  · cases stage <;> exact hsplit
  · cases stage <;> first
      | exact hlater.connecting
      | exact fun _ => hlast .connect rfl rfl
  · cases stage <;> exact hlater.ready
  · cases stage <;> first
      | exact hlater.subscribing
      | exact fun _ => hlast .subscribe rfl rfl
  · cases stage <;> exact hlater.subscribed
  · intro hhandler
    cases stage <;> first
      | exact List.mem_append_right _ (List.mem_singleton.mpr rfl)
      | exact List.mem_append_left _ (h.handler hhandler)
  · intro hgo
    cases stage with
    | create =>
        have hnil := done_of_create (h.split.trans (congrArg _ htodo))
        simp [State.pass, hnil]
    | destroy => simp [State.pass] at hgo
    | _ => simpa [State.pass] using halive
  · cases stage <;> simp [State.pass, hrun]

/-- The process ends, or a flag changes; `main` stays where it is. -/
theorem Reached.exit (h : Reached p done es s) {e : Event} {s' : State}
    (htodo : s'.todo = s.todo) (hready : s'.ready = s.ready)
    (hsubscribed : s'.subscribed = s.subscribed)
    (hconnecting : s'.connectPending = s.connectPending)
    (hsubscribing : s'.subscribePending = s.subscribePending)
    (hhandler : s'.handler = s.handler)
    (hexited : s'.exited = some exitFailure) :
    Reached p done (es ++ [e]) s' := by
  have hlater := h.later e
  exact
    { split := by rw [htodo]; exact h.split
      seen := hlater.seen
      connecting := by rw [hconnecting]; exact hlater.connecting
      ready := by rw [hready]; exact hlater.ready
      subscribing := by rw [hsubscribing]; exact hlater.subscribing
      subscribed := by rw [hsubscribed]; exact hlater.subscribed
      handler := by rw [hhandler]; exact h.handler
      alive := by simp [hexited]
      exited := by simp [hexited, exitFailure] }

/-- A call returned. -/
theorem Reached.returned (h : Reached p done es s) {stage : Stage} {rc : CInt}
    {s' : State} (hstep : step s (.returned stage rc) = some s') :
    ∃ done', Reached p done' (es ++ [.returned stage rc]) s' := by
  unfold step at hstep
  split at hstep
  · rename_i hrun
    dsimp only at hstep
    split at hstep
    · rename_i next rest htodo
      split at hstep
      · rename_i hnext
        subst hnext
        split at hstep
        · rename_i hchecked
          split at hstep
          · rename_i hrc
            obtain rfl := Option.some.inj hstep
            subst hrc
            have hhandshake : next.handshake = [.returned next 0] := by
              cases next <;> first | rfl | cases hchecked
            refine ⟨_, h.pass hrun htodo ?_ fun _ => rfl⟩
            rw [hhandshake]
            exact List.sublist_append_right es _
          · obtain rfl := Option.some.inj hstep
            refine ⟨done, ?_⟩
            cases next <;> exact h.exit rfl rfl rfl rfl rfl rfl rfl
        · rename_i hchecked
          split at hstep
          · rename_i hunchecked
            obtain rfl := Option.some.inj hstep
            have hhandshake : next.handshake = [] := by
              cases next <;> first | rfl | cases hunchecked
            refine ⟨_, h.pass hrun htodo ?_ (fun hc => absurd hc hchecked)⟩
            rw [hhandshake]
            exact List.nil_sublist _
          · cases hstep
      · cases hstep
    · cases hstep
  · cases hstep

/-- A waiting loop looked at its flag. -/
theorem Reached.test (h : Reached p done es s) {stage : Stage} {s' : State}
    (hstep : step s (.test stage) = some s') :
    ∃ done', Reached p done' (es ++ [.test stage]) s' := by
  unfold step at hstep
  split at hstep
  · rename_i hrun
    cases stage with
    | waitReady =>
        dsimp only at hstep
        split at hstep
        · rename_i rest htodo
          split at hstep
          · rename_i hready
            obtain rfl := Option.some.inj hstep
            exact ⟨_, h.pass hrun htodo (sublist_snoc (h.ready hready) _)
              fun hc => by cases hc⟩
          · obtain rfl := Option.some.inj hstep
            exact ⟨done, h.later _⟩
        · cases hstep
    | waitSubscribed =>
        dsimp only at hstep
        split at hstep
        · rename_i rest htodo
          split at hstep
          · rename_i hsubscribed
            obtain rfl := Option.some.inj hstep
            exact ⟨_, h.pass hrun htodo
              (sublist_snoc (h.subscribed hsubscribed) _) fun hc => by cases hc⟩
          · obtain rfl := Option.some.inj hstep
            exact ⟨done, h.later _⟩
        · cases hstep
    | _ => cases hstep
  · cases hstep

/-- The library called back. -/
theorem Reached.callback (h : Reached p done es s) {e : Event} {s' : State}
    (hreturned : ∀ stage rc, e ≠ .returned stage rc)
    (htest : ∀ stage, e ≠ .test stage) (hstep : step s e = some s') :
    Reached p done (es ++ [e]) s' := by
  have hlater := h.later e
  unfold step at hstep
  split at hstep
  · cases e with
    | returned stage rc => exact absurd rfl (hreturned stage rc)
    | test stage => exact absurd rfl (htest stage)
    | onConnect =>
        dsimp only at hstep
        split at hstep
        · rename_i hpending
          obtain rfl := Option.some.inj hstep
          exact
            { hlater with
              connecting := fun hc => by cases hc
              ready := fun _ => sublist_snoc (h.connecting hpending) _ }
        · cases hstep
    | onSubscribe =>
        dsimp only at hstep
        split at hstep
        · rename_i hpending
          obtain rfl := Option.some.inj hstep
          exact
            { hlater with
              subscribing := fun hc => by cases hc
              subscribed := fun _ => sublist_snoc (h.subscribing hpending) _ }
        · cases hstep
    | onConnectFailure =>
        dsimp only at hstep
        split at hstep
        · obtain rfl := Option.some.inj hstep
          exact h.exit rfl rfl rfl rfl rfl rfl rfl
        · cases hstep
    | onSubscribeFailure =>
        dsimp only at hstep
        split at hstep
        · obtain rfl := Option.some.inj hstep
          exact h.exit rfl rfl rfl rfl rfl rfl rfl
        · cases hstep
    | message =>
        dsimp only at hstep
        split at hstep
        · obtain rfl := Option.some.inj hstep
          exact hlater
        · cases hstep
  · cases hstep

theorem Reached.step (h : Reached p done es s) {e : Event} {s' : State}
    (hstep : Session.step s e = some s') :
    ∃ done', Reached p done' (es ++ [e]) s' := by
  cases e with
  | returned stage rc => exact h.returned hstep
  | test stage => exact h.test hstep
  | _ => exact ⟨done, h.callback (by simp) (by simp) hstep⟩

end Steps

theorem reached_run (p : Program) :
    ∀ es s, exec step (init p) es = some s → ∃ done, Reached p done es s := by
  refine exec_history (fun es s => ∃ done, Reached p done es s)
    ⟨[], reached_init p⟩ ?_
  rintro es s e s' ⟨done, h⟩ hstep
  exact h.step hstep

/-- **The session.**  For each of the programs and every interleaving of
`main` with the callbacks: the stages that `main` has passed are a beginning
of its script; for each of them the accepted call, or the request, its
callback and the test of the flag, happened in this order; no message is
handled unless the handler was registered; the client is alive from its
creation to its destruction, so every call finds it alive; and the process
exits with success only behind the destruction. -/
theorem session_order (p : Program) (es : List Event) (s : State)
    (h : exec step (init p) es = some s) :
    ∃ done, p.script = done ++ s.todo ∧
      (∀ stage ∈ done, stage.handshake.Sublist es) ∧
      (∀ s', step s .message = some s' → .setCallbacks ∈ done) ∧
      (s.exited = none → (s.alive = true ↔ .create ∈ done ∧ .destroy ∉ done)) ∧
      (s.exited = some 0 → .destroy ∈ done) := by
  obtain ⟨done, hdone⟩ := reached_run p es s h
  refine ⟨done, hdone.split, hdone.seen, ?_, hdone.alive, hdone.exited⟩
  intro s' hmessage
  unfold step at hmessage
  split at hmessage
  · dsimp only at hmessage
    split at hmessage
    · rename_i hboth
      exact hdone.handler (Bool.and_eq_true_iff.mp hboth).1
    · cases hmessage
  · cases hmessage

/-- The callback of the subscription comes before the handler is
registered. -/
def subscribed : List Event :=
  [.returned .create 0, .returned .connect 0, .test .waitReady, .onConnect,
    .test .waitReady, .returned .subscribe 0, .onSubscribe,
    .returned .setCallbacks 0, .message, .test .waitSubscribed]

theorem session_order_subscribed :
    ∃ s, exec step (init .mqttSubLat) subscribed = some s ∧
      ∃ done, Program.mqttSubLat.script = done ++ s.todo ∧
        (∀ stage ∈ done, stage.handshake.Sublist subscribed) ∧
        (∀ s', step s .message = some s' → .setCallbacks ∈ done) ∧
        (s.exited = none →
          (s.alive = true ↔ .create ∈ done ∧ .destroy ∉ done)) ∧
        (s.exited = some 0 → .destroy ∈ done) :=
  ⟨_, rfl, session_order .mqttSubLat subscribed _ rfl⟩

end ZenohPicoPerf.Mqtt.Session
