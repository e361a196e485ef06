import ZenohPicoPerf.Mqtt.Session
import ZenohPicoPerf.Throughput.Receivers
import ZenohPicoPerf.Foundation.PubSub

/-!
# mqtt_pub_thr and mqtt_sub_thr together

Any number of mqtt_pub_thr processes, each with its own payload size, publish
as fast as they can to one mqtt_sub_thr.  They do not look at the result of
`MQTTAsync_sendMessage`, which refuses a message when the client library has
no room for it.

## Main results

* `publish_rule`, `handle_rule` — what one step of each program keeps.
* `mqtt_thr_accounts` — the accepted messages are in the reports, in the open
  window, in flight or lost.
-/

namespace ZenohPicoPerf.Throughput.MqttSystem

open ZenohPicoPerf.Foundation
open ZenohPicoPerf.Foundation.Memory
open ZenohPicoPerf.Foundation.Run
open ZenohPicoPerf.Common.Clock
open ZenohPicoPerf.Mqtt
open ZenohPicoPerf.Mqtt.Session (Publication)

/-! ## The publisher -/

/-- `data` is the buffer, if it was allocated, and `sent` counts the messages
that the library took. -/
structure Publisher where
  msgSize : CInt
  session : Session.State
  data : Option (List Byte)
  sent : Nat
deriving DecidableEq, Repr

def startPublisher (msgSize : CInt) : Option Publisher :=
  some { msgSize := msgSize
         session := Session.init .mqttPubThr
         data := none, sent := 0 }

/-- A step of the session, the allocation behind `while (!ready);` with the
memory that `malloc` returns, and a call of `MQTTAsync_sendMessage` with its
result. -/
inductive PubEvent where
  | session (e : Session.Event)
  | malloc (fresh : List Byte)
  | send (rc : CInt)
deriving DecidableEq, Repr

/-- For a negative size there is no memory that `malloc` could return, and the
`memset` writes to a null pointer. -/
def publish (p : Publisher) :
    PubEvent → Option (Publisher × Option Publication)
  | .session e => do
      let session ← Session.step p.session e
      some ({ p with session := session }, none)
  | .malloc fresh =>
      if p.session.looping ∧ p.data = none ∧ 0 ≤ p.msgSize.toInt ∧
          fresh.length = p.msgSize.toWord.toNat then do
        let data ← memset fresh 1 p.msgSize.toWord.toNat
        some ({ p with data := some data }, none)
      else none
  | .send rc =>
      if p.session.looping then do
        let data ← p.data
        let payload := data.take p.msgSize.toNat
        if rc = 0 then
          some ({ p with sent := p.sent + 1 },
            some { topicName := MqttSubThr.mqttTopic, payload := payload })
        else some (p, none)
      else none

/-! ## The subscriber -/

structure Subscriber where
  session : Session.State
  globals : Globals
deriving DecidableEq, Repr

/-- What the library passes with a message, and the clock reading in the
handler. -/
structure Delivery where
  topicLen : CInt
  now : Timeval
deriving DecidableEq, Repr

section Programs

variable (N : Nat) (msgSize : CInt)

def startSubscriber (start stop : Timeval) : Subscriber :=
  { session := Session.init .mqttSubThr
    globals := { window := { count := 0, start := start, stop := stop }
                 printed := [] } }

def handle (s : Subscriber) (m : Publication) (d : Delivery) :
    Option Subscriber := do
  let session ← Session.step s.session .message
  some {
    session := session
    globals := (Program.mqttSubThr msgSize).handle N s.globals
      { topicName := m.topicName, topicLen := d.topicLen, now := d.now }
  }

/-- A step of the session that is not the handler. -/
def internal (s : Subscriber) (e : Session.Event) : Option Subscriber :=
  if e = .message then none
  else do
    let session ← Session.step s.session e
    some { s with session := session }

abbrev State := PubSub.State Publisher Publication Subscriber

abbrev Event := PubSub.Event CInt PubEvent Delivery Session.Event

def init (start stop : Timeval) : State :=
  PubSub.init (startSubscriber start stop)

def step : State → Event → Option State :=
  PubSub.step startPublisher publish (handle N msgSize) internal

end Programs

/-! ## One step of each party -/

/-- What a publisher of `msgSize` sends. -/
def publication (msgSize : CInt) : Publication :=
  { topicName := MqttSubThr.mqttTopic
    payload := List.replicate msgSize.toNat 1 }

/-- An allocated buffer is full of ones. -/
def Filled (p : Publisher) : Prop :=
  ∀ data ∈ p.data, data = List.replicate p.msgSize.toNat 1

def OnTopic (m : Publication) : Prop :=
  m.topicName = MqttSubThr.mqttTopic

/-- Every message that was handled was counted. -/
def Counting (N : Nat) (msgSize : CInt) (start stop : Timeval)
    (hs : List Publication) (s : Subscriber) : Prop :=
  (Program.mqttSubThr msgSize).Counted N start stop hs.length s.globals

theorem publish_rule {p p' : Publisher} {e : PubEvent}
    {out : Option Publication} (hp : Filled p)
    (h : publish p e = some (p', out)) :
    Filled p' ∧ (∀ m ∈ out, OnTopic m) ∧
      List.replicate p'.sent (publication p'.msgSize) =
        List.replicate p.sent (publication p.msgSize) ++ out.toList := by
  cases e with
  | session e =>
      obtain ⟨session, -, hout⟩ := Option.bind_eq_some_iff.mp h
      obtain ⟨rfl, rfl⟩ := Prod.mk.inj (Option.some.inj hout)
      exact ⟨hp, by simp, by simp⟩
  | malloc fresh =>
      simp only [publish] at h
      split at h
      · rename_i hguard
        obtain ⟨-, -, hnonneg, hsize⟩ := hguard
        obtain ⟨data, hdata, hout⟩ := Option.bind_eq_some_iff.mp h
        obtain ⟨rfl, rfl⟩ := Prod.mk.inj (Option.some.inj hout)
        have hword := CInt.toWord_toNat hnonneg
        obtain ⟨-, rfl⟩ := memset_eq_some.mp hdata
        refine ⟨?_, by simp, by simp⟩
        intro d hd
        obtain rfl := Option.mem_some_iff.mp hd
        rw [← hsize, List.drop_length, List.append_nil, hsize, hword]
      · cases h
  | send rc =>
      simp only [publish] at h
      split at h
      · obtain ⟨data, hdata, hout⟩ := Option.bind_eq_some_iff.mp h
        split at hout
        · obtain ⟨rfl, rfl⟩ := Prod.mk.inj (Option.some.inj hout)
          have hfull : data.take p.msgSize.toNat =
              List.replicate p.msgSize.toNat 1 := by
            rw [hp data hdata, List.take_replicate, Nat.min_self]
          refine ⟨hp, ?_, ?_⟩
          · intro m hm
            obtain rfl := Option.mem_some_iff.mp hm
            rfl
          · rw [List.replicate_succ', hfull]
            rfl
        · obtain ⟨rfl, rfl⟩ := Prod.mk.inj (Option.some.inj hout)
          exact ⟨hp, by simp, by simp⟩
      · cases h

/-- Whatever length the library passes, the topic is the program's own. -/
theorem onTopic_of_topic {m : MqttSubThr.Message}
    (h : m.topicName = MqttSubThr.mqttTopic) : MqttSubThr.onTopic m = true := by
  rw [MqttSubThr.onTopic, decide_eq_true_iff, h]
  exact strncmp_self (by decide) _

section Rules

variable {N : Nat} {msgSize : CInt} {start stop : Timeval}

theorem handle_rule {hs : List Publication} {s s' : Subscriber}
    {m : Publication} {d : Delivery} (hs' : Counting N msgSize start stop hs s)
    (hm : OnTopic m) (h : handle N msgSize s m d = some s') :
    Counting N msgSize start stop (hs ++ [m]) s' := by
  obtain ⟨session, -, hout⟩ := Option.bind_eq_some_iff.mp h
  obtain rfl := Option.some.inj hout
  have hcounted := Program.Counted.handle hs'
    { topicName := m.topicName, topicLen := d.topicLen, now := d.now }
  have haccepts : (Program.mqttSubThr msgSize).accepts
      { topicName := m.topicName, topicLen := d.topicLen, now := d.now } =
        true := onTopic_of_topic hm
  rw [if_pos haccepts] at hcounted
  unfold Counting
  rw [List.length_append]
  exact hcounted

theorem internal_rule {hs : List Publication} {s s' : Subscriber}
    {e : Session.Event} (hs' : Counting N msgSize start stop hs s)
    (h : internal s e = some s') : Counting N msgSize start stop hs s' := by
  unfold internal at h
  split at h
  · cases h
  · obtain ⟨session, -, hout⟩ := Option.bind_eq_some_iff.mp h
    obtain rfl := Option.some.inj hout
    exact hs'

theorem rules : PubSub.Rules startPublisher publish (handle N msgSize)
    internal Filled OnTopic (Counting N msgSize start stop)
    (fun p => List.replicate p.sent (publication p.msgSize)) where
  start := by
    intro a p hp
    obtain rfl := Option.some.inj hp
    exact ⟨by simp [Filled], rfl⟩
  publish _ _ _ _ hp h := publish_rule hp h
  handle _ _ _ _ _ hs hm h := handle_rule hs hm h
  internal _ _ _ _ hs h := internal_rule hs h

end Rules

/-! ## End to end -/

/-- **Messages accounted for.**  In every run of the subscriber with any number
of publishers, each message that a publisher's client library took is counted
by exactly one report or by the open window, or is in flight, or was lost.  So
no report counts a message twice or one that was not published. -/
theorem mqtt_thr_accounts (N : Nat) (hN : 1 ≤ N) (msgSize : CInt)
    (start stop : Timeval) (es : List Event) (s : State)
    (h : exec (step N msgSize) (init start stop) es = some s) :
    s.sub.globals.printed.length * (N + 1) + s.sub.globals.window.count +
        (s.link.flight.length + s.link.dropped.length) =
      (s.pubs.map Publisher.sent).sum := by
  have hstart : Counting N msgSize start stop [] (startSubscriber start stop) :=
    Program.counted_zero _ N start stop
  have hholds := PubSub.exec_rule rules hstart h
  have hcounted := Program.Counted.accounts hN hholds.sub
  have hlength := hholds.length_eq
  rw [hcounted, hlength, List.length_flatMap]
  simp only [List.length_replicate]

/-- The set-up of a publisher of two bytes. -/
def connects (i : Nat) : List Event :=
  [.join 2,
    .publish i (.session (.returned .create 0)),
    .publish i (.session (.returned .connect 0)),
    .publish i (.session .onConnect),
    .publish i (.session (.test .waitReady)),
    .publish i (.malloc [7, 8])]

/-- Five messages of two publishers, one of them refused: a report of two, an
open window of one, and one in flight. -/
def refused : List Event :=
  [.internal (.returned .create 0), .internal (.returned .connect 0),
    .internal .onConnect, .internal (.test .waitReady),
    .internal (.returned .subscribe 0),
    .internal (.returned .setCallbacks 0)] ++ connects 0 ++ connects 1 ++
  [.publish 0 (.send 0), .publish 1 (.send 0), .publish 1 (.send 5),
    .deliver 1 ⟨0, ⟨1, 0⟩⟩, .publish 0 (.send 0), .publish 1 (.send 0),
    .deliver 0 ⟨9, ⟨2, 0⟩⟩, .deliver 1 ⟨9, ⟨3, 0⟩⟩]

theorem mqtt_thr_refused :
    ∃ s, exec (step 1 2) (init ⟨0, 0⟩ ⟨0, 0⟩) refused = some s ∧
      s.sub.globals.printed.length * (1 + 1) + s.sub.globals.window.count +
          (s.link.flight.length + s.link.dropped.length) =
        (s.pubs.map Publisher.sent).sum :=
  ⟨_, rfl, mqtt_thr_accounts 1 (by decide) 2 ⟨0, 0⟩ ⟨0, 0⟩ refused _ rfl⟩

end ZenohPicoPerf.Throughput.MqttSystem
